import Urchin.Spec.Buffer

/-!
# Split virtqueues (`devices/virtio.rs`)

The driver's side is `Virtqueue` with `push` and `pop`. Tables and rings are
functions of the slot number; the bounds checks of the source are kept (a slot
outside `size` panics). Index arithmetic is on `u16` and wraps.

The device's side is `Device`: it takes available entries in ring order and
returns what it took, in any order, through the used ring.

`QueueSys` puts the two together with the history of a run: what was pushed, what
the device returned, and what `pop` handed out.
-/

namespace Urchin

open Exec

structure VirtqueueDescriptor where
  addr : UInt64
  len : UInt32
  flags : UInt16
  next : UInt16
  deriving DecidableEq

structure VirtqueueAvail where
  flags : UInt16
  idx : UInt16
  deriving DecidableEq

structure VirtqueueUsed where
  flags : UInt16
  idx : UInt16
  deriving DecidableEq

structure VirtqueueUsedElement where
  id : UInt32
  len : UInt32
  deriving DecidableEq

structure Virtqueue where
  baseAddr : UInt64
  layout : Layout
  size : UInt16
  descriptor : ℕ → VirtqueueDescriptor
  avail : VirtqueueAvail
  availRing : ℕ → UInt16
  used : VirtqueueUsed
  usedRing : ℕ → VirtqueueUsedElement
  buffers : ℕ → Option Buffer
  freeHead : UInt16
  lastUsedIdx : UInt16
  isIndirect : Bool

/-- The memory a queue is laid over: its address and what its two rings happen to
hold (`Virtqueue::new` clears neither ring). -/
structure QueueMem where
  base : UInt64
  availRing : ℕ → UInt16
  usedRing : ℕ → VirtqueueUsedElement

/-- Cleared memory at address zero. -/
def QueueMem.zero : QueueMem := ⟨0, fun _ => 0, fun _ => ⟨0, 0⟩⟩

namespace Virtqueue

/-- The bytes allocated for a queue, in `usize` arithmetic. -/
def allocSize (size : UInt16) : UInt64 :=
  let align : UInt64 := 4096
  ((16 * size.toUInt64 + 3 * 2 + 2 * size.toUInt64 - 1) / align + 1) * align +
    ((3 * 2 + 8 * size.toUInt64 - 1) / align + 1) * align

/-- `Virtqueue::new`; `none` is its panic on a refused layout. -/
def new (size : UInt16) (isIndirect usedInterrupt : Bool) (m : QueueMem) : Option Virtqueue :=
  (Layout.fromSizeAlign (allocSize size) 4096).map fun layout =>
    { baseAddr := m.base
      layout := layout
      size := size
      descriptor := fun _ => ⟨0, 0, 0, 0⟩
      avail := ⟨if usedInterrupt then 0 else 1, 0⟩
      availRing := m.availRing
      used := ⟨0, 0⟩
      usedRing := m.usedRing
      buffers := fun _ => none
      freeHead := 0
      lastUsedIdx := 0
      isIndirect := isIndirect }

def getSize (q : Virtqueue) : UInt16 := q.size

def getAvailFreeSize (q : Virtqueue) : UInt16 :=
  if q.used.idx ≤ q.avail.idx then q.getSize - (q.avail.idx - q.used.idx)
  else q.used.idx - q.avail.idx

/-! ## `push`

Its stores, in program order: the avail ring slot, the avail index, then the
descriptor's `addr`, `len` and `flags`, the driver's own `buffers` slot, the
descriptor's `next`, and the driver's own `free_head`. -/

/-- The avail ring slot a counter value names. -/
def slot (q : Virtqueue) (idx : UInt16) : ℕ := (idx &&& (q.getSize - 1)).toNat

def storeAvailRing (q : Virtqueue) : Virtqueue :=
  { q with availRing := Function.update q.availRing (q.slot q.avail.idx) q.freeHead }

def storeAvailIdx (q : Virtqueue) : Virtqueue :=
  { q with avail := { q.avail with idx := q.avail.idx + 1 } }

def storeDesc (q : Virtqueue) (f : VirtqueueDescriptor → VirtqueueDescriptor) : Virtqueue :=
  let d := q.freeHead.toNat
  { q with descriptor := Function.update q.descriptor d (f (q.descriptor d)) }

def storeAddr (q : Virtqueue) (buffer : Buffer) : Virtqueue :=
  q.storeDesc fun d => { d with addr := buffer.getAddress }

def storeLen (q : Virtqueue) (buffer : Buffer) : Virtqueue :=
  q.storeDesc fun d => { d with len := buffer.getSize.toUInt32 }

/-- `0`: the device only reads the buffer; `2`: it only writes it. -/
def descFlags (isGuest : Bool) : UInt16 := if isGuest then 0 else 2

def storeFlags (q : Virtqueue) (isGuest : Bool) : Virtqueue :=
  q.storeDesc fun d => { d with flags := descFlags isGuest }

def storeBuffer (q : Virtqueue) (buffer : Buffer) : Virtqueue :=
  { q with buffers := Function.update q.buffers q.freeHead.toNat (some buffer) }

def storeNext (q : Virtqueue) : Virtqueue :=
  q.storeDesc fun d => { d with next := (q.freeHead + 1) &&& (q.size - 1) }

def storeFreeHead (q : Virtqueue) : Virtqueue :=
  { q with freeHead := (q.freeHead + 1) &&& (q.size - 1) }

/-- All of them. -/
def stores (q : Virtqueue) (buffer : Buffer) (isGuest : Bool) : Virtqueue :=
  let q := q.storeAvailRing
  let q := q.storeAvailIdx
  let q := q.storeAddr buffer
  let q := q.storeLen buffer
  let q := q.storeFlags isGuest
  let q := q.storeBuffer buffer
  let q := q.storeNext
  q.storeFreeHead

/-- `push`. The two indexings may panic; it never reports an error. -/
def push (q : Virtqueue) (buffer : Buffer) (isGuest : Bool) :
    Except Panic (Except String Unit × Virtqueue) :=
  if q.slot q.avail.idx < q.size.toNat ∧ q.freeHead.toNat < q.size.toNat then
    .ok (.ok (), q.stores buffer isGuest)
  else .error .bounds

/-! ## `pop` -/

/-- One round of `pop`'s loop: the buffer of the used element at `last_used_idx`,
if its slot still has one, and the queue without it. -/
def popOne (q : Virtqueue) : Except Panic (Option Buffer × Virtqueue) :=
  if q.slot q.lastUsedIdx < q.size.toNat then
    let descIdx := (q.usedRing (q.slot q.lastUsedIdx)).id.toNat
    if descIdx < q.size.toNat then
      .ok (q.buffers descIdx,
        { q with
          buffers := Function.update q.buffers descIdx none
          lastUsedIdx := q.lastUsedIdx + 1 })
    else .error .bounds
  else .error .bounds

/-- `pop`'s loop `while last_used_idx != used.idx`, for at most `fuel` rounds. -/
def popLoop : ℕ → Virtqueue → List Buffer → Except Panic (List Buffer × Virtqueue)
  | 0, q, ret => .ok (ret, q)
  | fuel + 1, q, ret =>
    if q.lastUsedIdx = q.used.idx then .ok (ret, q)
    else match q.popOne with
      | .ok (buff, q') => popLoop fuel q' (ret ++ buff.toList)
      | .error p => .error p

/-- `pop`. A `u16` counter that steps by one meets `used.idx` within `2 ^ 16`
rounds. -/
def pop (q : Virtqueue) : Except Panic (List Buffer × Virtqueue) := popLoop 65536 q []

end Virtqueue

/-! ## The device -/

/-- An available entry the device has taken: its number in the order of the avail
ring, the descriptor head it names, and the descriptor as the device read it. -/
structure Taken where
  pos : ℕ
  head : UInt16
  desc : VirtqueueDescriptor

/-- The device's side of a queue: how many entries it has taken, and those it has
not returned yet. -/
structure Device where
  taken : ℕ
  inflight : List Taken

/-- The device takes the next available entry, if `avail.idx` says there is one. -/
def Device.take (d : Device) (q : Virtqueue) : Device :=
  if UInt16.ofNat d.taken = q.avail.idx then d
  else
    let head := q.availRing (q.slot (UInt16.ofNat d.taken))
    { taken := d.taken + 1
      inflight := d.inflight ++ [⟨d.taken, head, q.descriptor head.toNat⟩] }

/-- The device returns a chain head through the used ring. -/
def Virtqueue.complete (q : Virtqueue) (head : UInt16) (len : UInt32) : Virtqueue :=
  { q with
    usedRing := Function.update q.usedRing (q.slot q.used.idx) ⟨head.toUInt32, len⟩
    used := { q.used with idx := q.used.idx + 1 } }

/-! ## A queue in use -/

/-- Driver, device, and the history of the run: the buffers pushed (with the
direction flag of the push), the entries the device returned, in used-ring order,
and the buffers `pop` returned. -/
structure QueueSys where
  q : Virtqueue
  dev : Device
  pushed : List (Buffer × Bool)
  done : List Taken
  popped : List Buffer

inductive QueueOp where
  | push (buffer : Buffer) (isGuest : Bool)
  | pop
  | take
  | complete (i : ℕ) (len : UInt32)

namespace QueueSys

/-- A queue nobody has used yet. -/
def init (q : Virtqueue) : QueueSys := ⟨q, ⟨0, []⟩, [], [], []⟩

/-- The device returns the `i`-th entry it holds; nothing happens if it holds
fewer. -/
def complete (s : QueueSys) (i : ℕ) (len : UInt32) : QueueSys :=
  match s.dev.inflight[i]? with
  | some t =>
    { s with
      q := s.q.complete t.head len
      dev := { s.dev with inflight := s.dev.inflight.eraseIdx i }
      done := s.done ++ [t] }
  | none => s

def step (s : QueueSys) : QueueOp → Except Panic QueueSys
  | .push buffer isGuest =>
    (s.q.push buffer isGuest).map fun r =>
      { s with q := r.2, pushed := s.pushed ++ [(buffer, isGuest)] }
  | .pop => s.q.pop.map fun r => { s with q := r.2, popped := s.popped ++ r.1 }
  | .take => .ok { s with dev := s.dev.take s.q }
  | .complete i len => .ok (s.complete i len)

end QueueSys

end Urchin
