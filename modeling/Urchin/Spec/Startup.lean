import Urchin.Paging.Walk

/-!
# The page tables of the kernel (`asm/x86_64/startup.S`)

`identPtL4` and `identPtL3` are the words of the two tables, which lie one after the other;
`entry32` loads the address of the first, a number of 32 bits, into `cr3`.
-/

namespace Urchin

open Stack

/-- `ident_pt_l4`. -/
def identPtL4 (l3 : BitVec 64) : List (BitVec 64) := (l3 + 0x67) :: List.replicate 511 0

/-- `ident_pt_l3`. -/
def identPtL3 : List (BitVec 64) := (List.range 512).map fun index => (BitVec.ofNat 64 index <<< 30) + 0x01e7

/-- The tables, with the first one at `l4`. -/
def identPt (l4 : BitVec 64) : List (BitVec 64) := identPtL4 (l4 + 4096) ++ identPtL3

/-- The memory holds the tables, where the linker has put them: aligned, and with 32-bit
addresses. -/
structure IdentPt (m : Memory) (l4 : BitVec 64) : Prop where
  holds : At m l4 ((identPt l4).map .quad)
  aligned : l4.toNat % 4096 = 0
  low : l4.toNat < 2 ^ 32

end Urchin
