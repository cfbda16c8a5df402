import Urchin.Stack.Memory

/-!
# The multiprocessor table (`arch/x86_64/mptable.rs`)

The firmware leaves a pointer structure on a 16-byte boundary of one of two areas, which
names a configuration table: a header of 44 bytes and entries, 20 bytes for a processor
and 8 for anything else. The kernel goes through the entries and reports the processors.
-/

namespace Urchin.MpTable

open Stack

/-- An array of bytes, as the structures have them. -/
def bytes (m : Memory) (a : BitVec 64) (n : ℕ) : List (BitVec 8) :=
  (List.range n).map fun i => m (a + BitVec.ofNat 64 i)

/-- `_MP_`. -/
def MPF_SIGNATURE : List (BitVec 8) := [0x5f, 0x4d, 0x50, 0x5f]

/-- `PCMP`. -/
def MP_SIGNATURE : List (BitVec 8) := [0x50, 0x43, 0x4d, 0x50]

def LAST_KB_IN_BASE_MEMORY_ADDR : BitVec 32 := 639 * 0x400
def FIRST_KB_IN_BASE_MEMORY_ADDR : BitVec 32 := 0
def MP_FIND_LENGTH : ℕ := 0x400

/-- Candidate `i` of an area, and the table it names. -/
def candidate (m : Memory) (baseAddr : BitVec 32) (i : ℕ) : Option (BitVec 64) :=
  let mpfCandidate := (baseAddr + BitVec.ofNat 32 i * 16).setWidth 64
  if bytes m mpfCandidate 4 = MPF_SIGNATURE then
    let mpCandidate := (load 32 m (mpfCandidate + 4)).setWidth 64
    if bytes m mpCandidate 4 = MP_SIGNATURE then some mpCandidate else none
  else none

/-- `find_mp_table`. -/
def findMpTable (m : Memory) (baseAddr : BitVec 32) (length : ℕ) : Option (BitVec 64) :=
  (List.range (length / 16)).findSome? (candidate m baseAddr)

/-- The loop over the entries: the `APIC_ID`s printed. -/
def processors (m : Memory) (entriesLength : ℤ) (baseAddr : BitVec 64) : List (BitVec 8) :=
  if 0 < entriesLength then
    if m baseAddr = 0 then m (baseAddr + 1) :: processors m (entriesLength - 20) (baseAddr + 20)
    else processors m (entriesLength - 8) (baseAddr + 8)
  else []
termination_by entriesLength.toNat

/-- What is printed: the names of a table, and the processors, which are numbered from 0. -/
structure Report where
  oemId : List (BitVec 8)
  productId : List (BitVec 8)
  cpus : List (BitVec 8)
  deriving DecidableEq

/-- The `length` of a table. -/
def length (m : Memory) (table : BitVec 64) : BitVec 16 := load 16 m (table + 4)

/-- `get_mp_table`. -/
def getMpTable (m : Memory) : Option Report :=
  let mptableOpt := match findMpTable m LAST_KB_IN_BASE_MEMORY_ADDR MP_FIND_LENGTH with
    | some table => some table
    | none => findMpTable m FIRST_KB_IN_BASE_MEMORY_ADDR MP_FIND_LENGTH
  mptableOpt.map fun table =>
    ⟨bytes m (table + 8) 8, bytes m (table + 16) 12, processors m (length m table - 44).toNat (table + 44)⟩

/-! ## Entries -/

/-- An entry of the table, as far as the kernel looks at it. -/
inductive Entry where
  | processor (localApicId : BitVec 8)
  | other (entryType : { t : BitVec 8 // t ≠ 0 })

namespace Entry

def size : Entry → ℕ
  | .processor _ => 20
  | .other _ => 8

def apicId : Entry → Option (BitVec 8)
  | .processor localApicId => some localApicId
  | .other _ => none

/-- The memory holds the entry at an address. -/
def At (m : Memory) (a : BitVec 64) : Entry → Prop
  | .processor localApicId => m a = 0 ∧ m (a + 1) = localApicId
  | .other entryType => m a = entryType

end Entry

/-- The bytes of the entries. -/
def size (entries : List Entry) : ℕ := (entries.map Entry.size).sum

/-- The memory holds the entries, one after the other. -/
def EntriesAt (m : Memory) : BitVec 64 → List Entry → Prop
  | _, [] => True
  | a, e :: entries => e.At m a ∧ EntriesAt m (a + BitVec.ofNat 64 e.size) entries

end Urchin.MpTable
