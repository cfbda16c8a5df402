import Urchin.Exec.Outcome

/-!
# The spinlock (`spinlock.rs`)

`RawSpinlock` is the lock itself; a compare-and-swap is one step. `SpinSys` is a
`Spinlock<T>` under any number of contenders: each calls `lock`, which tries until it
succeeds, uses the data through its guard in any number of accesses, and drops the guard.
The accesses of one guard make up a section; the sections that are over are kept in the
order of their ends.
-/

namespace Urchin

open Exec

structure RawSpinlock where
  locked : Bool
  deriving DecidableEq

namespace RawSpinlock

def INIT : RawSpinlock := ⟨false⟩

/-- `try_lock`: the compare-and-swap succeeds on a free lock only. -/
def tryLock (l : RawSpinlock) : Bool × RawSpinlock :=
  if l.locked = false then (true, ⟨true⟩) else (false, l)

def unlock (_ : RawSpinlock) : RawSpinlock := ⟨false⟩

end RawSpinlock

/-- Where a contender stands: in the loop of `lock`, or with a guard. -/
inductive Contender where
  | out
  | locking
  | guard
  deriving DecidableEq

structure SpinSys (ι α : Type*) where
  raw : RawSpinlock
  data : α
  pc : ι → Contender
  /-- The accesses through the guard that a contender has. -/
  accesses : ι → List (α → α)
  sections : List (ι × List (α → α))

inductive SpinOp (ι α : Type*) where
  | lock (i : ι)
  | spin (i : ι)
  | access (i : ι) (f : α → α)
  | drop (i : ι)

namespace SpinSys

variable {ι α : Type*} [DecidableEq ι]

def init (data : α) : SpinSys ι α := ⟨.INIT, data, fun _ => .out, fun _ => [], []⟩

/-- A contender goes through its code in order. -/
def Allowed (s : SpinSys ι α) : SpinOp ι α → Prop
  | .lock i => s.pc i = .out
  | .spin i => s.pc i = .locking
  | .access i _ | .drop i => s.pc i = .guard

instance (s : SpinSys ι α) (o : SpinOp ι α) : Decidable (s.Allowed o) :=
  match o with
  | .lock _ | .spin _ | .access _ _ | .drop _ => inferInstanceAs (Decidable (_ = _))

def step (s : SpinSys ι α) : SpinOp ι α → Except Panic (SpinSys ι α)
  | .lock i => .ok { s with pc := Function.update s.pc i .locking }
  | .spin i =>
    match s.raw.tryLock with
    | (true, raw) => .ok { s with
        raw := raw
        pc := Function.update s.pc i .guard
        accesses := Function.update s.accesses i [] }
    | (false, raw) => .ok { s with raw := raw }
  | .access i f => .ok { s with
      data := f s.data
      accesses := Function.update s.accesses i (s.accesses i ++ [f]) }
  | .drop i => .ok { s with
      raw := s.raw.unlock
      pc := Function.update s.pc i .out
      sections := s.sections ++ [(i, s.accesses i)] }

/-- What the sections make of the data, one after the other. -/
def replay (data : α) (sections : List (ι × List (α → α))) : α :=
  sections.foldl (fun d x => x.2.foldl (fun d f => f d) d) data

end SpinSys

end Urchin
