import Urchin.Spec.Interrupt

/-!
# The interrupt descriptor table (`arch/x86_64/apic.rs`, `asm/x86_64/startup.S`)

The table is 256 packed entries in memory, zero at the start; `set_offset` stores five of
the seven fields of an entry. The fields lie in the order they are declared in. The
processor reads an entry as one descriptor of 16 bytes (`readGate`) and takes apart the
bits (`Gate.decode`), where the table register covers the vector.

The stubs of `interrupt_handlers` are each aligned to 16 bytes, before and after; a jump
takes what the assembler makes of it.
-/

namespace Urchin

open Stack

namespace IDTEntry

/-- `set_offset` of the entry at address `entry`. -/
def setOffset (entry offset : BitVec 64) (m : Memory) : Memory :=
  let m := store m (entry + 0) (((offset &&& 0x000000000000ffff) >>> 0).setWidth 16)
  let m := store m (entry + 6) (((offset &&& 0x00000000ffff0000) >>> 16).setWidth 16)
  let m := store m (entry + 8) (((offset &&& 0xffffffff00000000) >>> 32).setWidth 32)
  let m := store m (entry + 5) (0x8e : BitVec 8)
  store m (entry + 2) (8 : BitVec 16)

end IDTEntry

/-- What `lidt` loads. -/
structure IDTRegister where
  limit : BitVec 16
  base : BitVec 64

/-- The first `n` rounds of the loop over the table. -/
def setOffsets (idt interruptHandlers : BitVec 64) (n : ℕ) (m : Memory) : Memory :=
  (List.range n).foldl
    (fun m i => IDTEntry.setOffset (idt + BitVec.ofNat 64 (16 * i)) (interruptHandlers + 0x10 * BitVec.ofNat 64 i) m) m

/-- The part of `apic::init` that sets the table up. -/
def initIdt (idt interruptHandlers : BitVec 64) (m : Memory) : Memory × IDTRegister :=
  (setOffsets idt interruptHandlers 256 m, ⟨16 * 256 - 1, idt⟩)

/-! ## The processor -/

/-- A gate of long mode. -/
structure Gate where
  offset : BitVec 64
  selector : BitVec 16
  ist : BitVec 3
  kind : BitVec 4
  system : BitVec 1
  dpl : BitVec 2
  present : BitVec 1
  deriving DecidableEq

def Gate.decode (d : BitVec 128) : Gate where
  offset := d.extractLsb' 64 32 ++ (d.extractLsb' 48 16 ++ d.extractLsb' 0 16)
  selector := d.extractLsb' 16 16
  ist := d.extractLsb' 32 3
  kind := d.extractLsb' 40 4
  system := d.extractLsb' 44 1
  dpl := d.extractLsb' 45 2
  present := d.extractLsb' 47 1

/-- The descriptor of a vector, where the register covers it. -/
def readGate (m : Memory) (idtr : IDTRegister) (vector : BitVec 8) : Option Gate :=
  if 16 * vector.toNat + 15 ≤ idtr.limit.toNat then
    some (.decode (load 128 m (idtr.base + BitVec.ofNat 64 (16 * vector.toNat))))
  else none

/-- An interrupt gate of ring 0, on the interrupted stack, to the code segment of the
kernel: interrupts are masked on entry. -/
def Gate.kernel (offset : BitVec 64) : Gate := ⟨offset, 8, 0, 0xe, 0, 0, 1⟩

/-! ## Where the stubs lie -/

/-- The bytes of an instruction of a stub: a number that fits a signed byte is pushed with
two. -/
def Instr.stubBytes : Instr → ℕ
  | .cli => 1
  | .pushImm v => if v.toNat < 128 then 2 else 5
  | .push _ | .pop _ | .xchg _ | .sub _ | .add _ | .movdquTo _ _ | .movdquFrom _ _ | .mov _ _ | .call => 0

/-- `.align 16`. -/
def align16 (n : ℕ) : ℕ := (n + 15) / 16 * 16

/-- Where the assembler is before stub `index`, from `interrupt_handlers` on, if the jumps
take `jmp` bytes. -/
def stubPos (jmp : ℕ → ℕ) : ℕ → ℕ
  | 0 => 0
  | index + 1 =>
    align16 (align16 (stubPos jmp index) + ((interruptHandlers index).map Instr.stubBytes).sum + jmp index)

/-- Where stub `index` begins. -/
def stubStart (jmp : ℕ → ℕ) (index : ℕ) : ℕ := align16 (stubPos jmp index)

end Urchin
