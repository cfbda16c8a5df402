import Urchin.Move.Overlap
import Urchin.Stack.Memory

/-!
# `memcpy` and `memmove` (`lib.rs`)

Pointers are addresses of the byte memory. `n` counts the rounds of a loop that is
over before its index wraps.
-/

namespace Urchin

open Move Stack

/-- `p.offset(i)`. -/
def offset (p : BitVec 64) (i : ℕ) : BitVec 64 := p + BitVec.ofNat 64 i

/-- `memcpy`: the memory it leaves, and the pointer it returns. -/
def memcpy (m : Memory) (dest src : BitVec 64) (n : UInt64) : Memory × BitVec 64 :=
  (copyUp (offset dest) (offset src) n.toNat m, dest)

/-- `memmove`. -/
def memmove (m : Memory) (dest src : BitVec 64) (n : UInt64) : Memory × BitVec 64 :=
  if src < dest then
    -- copy from end
    (copyDown (offset dest) (offset src) n.toNat m, dest)
  else
    -- copy from beginning
    (copyUp (offset dest) (offset src) n.toNat m, dest)

end Urchin
