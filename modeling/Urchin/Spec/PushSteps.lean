import Urchin.Spec.Virtqueue

/-!
# `push` one store at a time

The device reads the shared ring at any moment, also between two stores of
`push`. `PushSys` runs them one by one, in program order, with device steps in
between. The device may return any element, in any order, as long as it returns
no more than was made available.
-/

namespace Urchin

open Exec

/-- The stores of `push`, in program order. -/
inductive Store where
  | availRing | availIdx | addr | len | flags | buffer | next | freeHead
  deriving DecidableEq

namespace Store

def run (q : Virtqueue) (buffer : Buffer) (isGuest : Bool) : Store → Virtqueue
  | .availRing => q.storeAvailRing
  | .availIdx => q.storeAvailIdx
  | .addr => q.storeAddr buffer
  | .len => q.storeLen buffer
  | .flags => q.storeFlags isGuest
  | .buffer => q.storeBuffer buffer
  | .next => q.storeNext
  | .freeHead => q.storeFreeHead

/-- The store after it. -/
def succ : Store → Option Store
  | .availRing => some .availIdx
  | .availIdx => some .addr
  | .addr => some .len
  | .len => some .flags
  | .flags => some .buffer
  | .buffer => some .next
  | .next => some .freeHead
  | .freeHead => none

/-- It comes after the store of the avail index. -/
def published : Store → Bool
  | .availRing | .availIdx => false
  | _ => true

/-- It is a store of a descriptor field the device reads. -/
def descField : Store → Bool
  | .addr | .len | .flags => true
  | _ => false

end Store

/-- A queue with a push possibly under way: its next store, buffer and direction.
The history keeps, for each push that stored the avail index, the descriptor it
selected and what it pushed, and the number of elements the device returned. -/
structure PushSys where
  q : Virtqueue
  push : Option (Store × Buffer × Bool)
  published : List (UInt16 × Buffer × Bool)
  returned : ℕ

inductive PushOp where
  | call (buffer : Buffer) (isGuest : Bool)
  | store
  | pop
  | ret (e : VirtqueueUsedElement)

namespace PushSys

def init (q : Virtqueue) : PushSys := ⟨q, none, [], 0⟩

/-- The next store of the push under way. -/
def store (s : PushSys) : PushSys :=
  match s.push with
  | none => s
  | some (st, b, g) =>
    { s with
      q := st.run s.q b g
      push := st.succ.map (·, b, g)
      published := if st = .availIdx then s.published ++ [(s.q.freeHead, b, g)] else s.published }

def step (s : PushSys) : PushOp → Except Panic PushSys
  | .call b g =>
    if s.q.slot s.q.avail.idx < s.q.size.toNat ∧ s.q.freeHead.toNat < s.q.size.toNat then
      .ok { s with push := some (.availRing, b, g) }
    else .error .bounds
  | .store => .ok s.store
  | .pop => s.q.pop.map fun r => { s with q := r.2 }
  | .ret e => .ok { s with
      q := { s.q with
        usedRing := Function.update s.q.usedRing (s.q.slot s.q.used.idx) e
        used := { s.q.used with idx := s.q.used.idx + 1 } }
      returned := s.returned + 1 }

/-- One driver, which is in at most one call at a time and pushes only while the
ring has an entry that is not available, and a device that returns no more than it
was given. -/
def Allowed (s : PushSys) : PushOp → Prop
  | .call _ _ => s.push = none ∧ s.published.length < s.returned + s.q.size.toNat
  | .store => True
  | .pop => s.push = none
  | .ret _ => s.returned < s.published.length

instance (s : PushSys) (o : PushOp) : Decidable (s.Allowed o) :=
  match o with
  | .call _ _ => inferInstanceAs (Decidable (s.push = none ∧ _ < _))
  | .store => inferInstanceAs (Decidable True)
  | .pop => inferInstanceAs (Decidable (s.push = none))
  | .ret _ => inferInstanceAs (Decidable (_ < _))

end PushSys

end Urchin
