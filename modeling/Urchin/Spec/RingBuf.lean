import Urchin.Exec.Outcome

/-!
# The ring buffer (`ringbuf.rs`)

`RingBuffer.putStep` and `RingBuffer.getStep` are `put` and `get` cut at their shared
accesses: each load, each compare-and-swap, each access to a slot is a step. `Put` and
`Get` say where a call stands, with the values it has loaded so far.

`RingBuffer.serve` runs calls one after the other. `RingSys` is a ring buffer used by any number of producers and one consumer, with the
history of the run. The place a successful compare-and-swap of `put` wins is numbered
by the order of these successes; `get` takes places in the same order.
-/

namespace Urchin

open Exec

def RINGBUF_LENGTH : ℕ := 10000

structure RingBuffer (T : Type*) where
  length : ℕ
  buffer : ℕ → Option T
  readidx : ℕ
  writeidx : ℕ

/-- Where a call of `put` stands; `idle` when there is none. -/
inductive Put (T : Type*) where
  | idle
  | loadRead (val : T)
  | loadWrite (val : T) (rix : ℕ)
  | swap (val : T) (wix : ℕ)
  | store (val : T) (wix : ℕ)
  deriving DecidableEq

/-- Where a call of `get` stands; `done` with what it returned. -/
inductive Get (T : Type*) where
  | loadWrite
  | loadRead (wix : ℕ)
  | swap (rix : ℕ)
  | read (rix : ℕ)
  | done (result : Option T)

namespace RingBuffer

variable {T : Type*}

def new : RingBuffer T := ⟨RINGBUF_LENGTH, fun _ => none, 0, 0⟩

/-- The next step of `put`. -/
def putStep (r : RingBuffer T) : Put T → Except Panic (RingBuffer T × Put T)
  | .idle => .ok (r, .idle)
  | .loadRead val => .ok (r, .loadWrite val r.readidx)
  | .loadWrite val rix =>
    let wix := r.writeidx
    let newWix := (wix + 1) % RINGBUF_LENGTH
    .ok (r, if rix ≠ newWix then .swap val wix else .loadRead val)
  | .swap val wix =>
    let newWix := (wix + 1) % RINGBUF_LENGTH
    if r.writeidx = wix then .ok ({ r with writeidx := newWix }, .store val wix)
    else .ok (r, .loadRead val)
  | .store val wix =>
    if wix < r.length then .ok ({ r with buffer := Function.update r.buffer wix (some val) }, .idle)
    else .error .bounds

/-- The next step of `get`. -/
def getStep (r : RingBuffer T) : Get T → Except Panic (RingBuffer T × Get T)
  | .loadWrite => .ok (r, .loadRead r.writeidx)
  | .loadRead wix =>
    let rix := r.readidx
    .ok (r, if rix = wix then .done none else .swap rix)
  | .swap rix =>
    let newRix := (rix + 1) % RINGBUF_LENGTH
    if r.readidx = rix then .ok ({ r with readidx := newRix }, .read rix)
    else .ok (r, .loadWrite)
  | .read rix => if rix < r.length then .ok (r, .done (r.buffer rix)) else .error .bounds
  | .done result => .ok (r, .done result)

/-! ## One call after the other -/

/-- `put` from `pc` on with nobody else at the ring buffer, for at most `fuel` steps; `none` if
it has not returned then. -/
def put : ℕ → RingBuffer T → Put T → Except Panic (Option (RingBuffer T))
  | _, r, .idle => .ok (some r)
  | 0, _, _ => .ok none
  | fuel + 1, r, pc => (r.putStep pc).bind fun next => put fuel next.1 next.2

def get : ℕ → RingBuffer T → Get T → Except Panic (Option (RingBuffer T × Option T))
  | _, r, .done result => .ok (some (r, result))
  | 0, _, _ => .ok none
  | fuel + 1, r, pc => (r.getStep pc).bind fun next => get fuel next.1 next.2

end RingBuffer

inductive RingCall (T : Type*) where
  | put (val : T)
  | get

/-- A sequence of calls, and what the gets return; `none` if a call does not return within
`fuel` steps. -/
def RingBuffer.serve {T : Type*} (fuel : ℕ) (r : RingBuffer T) :
    List (RingCall T) → Except Panic (Option (RingBuffer T × List (Option T)))
  | [] => .ok (some (r, []))
  | .put val :: calls => do
    match ← r.put fuel (.loadRead val) with
    | some r => r.serve fuel calls
    | none => .ok none
  | .get :: calls => do
    match ← r.get fuel .loadWrite with
    | some (r, result) =>
      match ← r.serve fuel calls with
      | some (r, results) => .ok (some (r, result :: results))
      | none => .ok none
    | none => .ok none

/-! ## Several producers and one consumer -/

/-- A ring buffer in use, and the history of the run:
* `started`: the calls of `put`, in order;
* `claimed`: those that have won their place, by place;
* `place`: the place each producer won last;
* `written`: the places whose slot has been written;
* `taken`: how many places `get` has taken;
* `returned`: what the gets that took a place returned. -/
structure RingSys (ι T : Type*) where
  ring : RingBuffer T
  put : ι → Put T
  get : Get T
  started : List (ι × T)
  claimed : List (ι × T)
  place : ι → ℕ
  written : List ℕ
  taken : ℕ
  returned : List (Option T)

/-- A producer calls `put`, or its call makes a step; the consumer calls `get`, or its
call makes a step. -/
inductive RingOp (ι T : Type*) where
  | put (i : ι) (val : T)
  | producer (i : ι)
  | get
  | consumer

namespace RingSys

variable {ι T : Type*} [DecidableEq ι]

/-- `RingBuffer::new()`, and nobody has called anything. -/
def init : RingSys ι T :=
  { ring := .new, put := fun _ => .idle, get := .done none, started := [], claimed := []
    place := fun _ => 0, written := [], taken := 0, returned := [] }

/-- The history after a step of producer `i` that led to `pc`. -/
def recordPut (s : RingSys ι T) (i : ι) (pc : Put T) : RingSys ι T :=
  match s.put i, pc with
  | .swap val _, .store _ _ =>
    { s with
      claimed := s.claimed ++ [(i, val)]
      place := Function.update s.place i s.claimed.length }
  | .store _ _, .idle => { s with written := s.written ++ [s.place i] }
  | _, _ => s

/-- The history after a step of the consumer that led to `pc`. -/
def recordGet (s : RingSys ι T) (pc : Get T) : RingSys ι T :=
  match s.get, pc with
  | .swap _, .read _ => { s with taken := s.taken + 1 }
  | .read _, .done result => { s with returned := s.returned ++ [result] }
  | _, _ => s

def step (s : RingSys ι T) : RingOp ι T → Except Panic (RingSys ι T)
  | .put i val =>
    match s.put i with
    | .idle =>
      .ok { s with
        put := Function.update s.put i (.loadRead val)
        started := s.started ++ [(i, val)] }
    | _ => .ok s
  | .producer i =>
    (s.ring.putStep (s.put i)).map fun r =>
      { s.recordPut i r.2 with ring := r.1, put := Function.update s.put i r.2 }
  | .get =>
    match s.get with
    | .done _ => .ok { s with get := .loadWrite }
    | _ => .ok s
  | .consumer =>
    (s.ring.getStep s.get).map fun r => { s.recordGet r.2 with ring := r.1, get := r.2 }

/-- What the consumer's call is about to return, if it has taken a place. -/
def reading (s : RingSys ι T) : List (Option T) :=
  match s.get with
  | .read rix => [s.ring.buffer rix]
  | _ => []

end RingSys

end Urchin
