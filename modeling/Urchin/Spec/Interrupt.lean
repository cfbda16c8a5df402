import Urchin.Stack.Memory

/-!
# Entering and leaving an interrupt (`asm/x86_64/startup.S`, `lib.rs`)

The processor pushes five words, and an error code for some exceptions. The stub of the
vector (`interruptHandlers`) pushes a word in place of the error code where it thinks there
is none, and the vector; `interruptCommon` saves the registers, calls `interrupt_handler`
with the vector and the address of what is saved, restores the registers and leaves by
`iretq`. All gates are interrupt gates of ring 0, on the interrupted stack.

The instructions act on registers and memory; the arithmetic flags are left out, as `iretq`
restores them. A vector register goes by its four-bit number. `interrupt_handler` is compiled
Rust code, and a parameter (`Kernel`).

`InterruptFrame` is a packed structure: a field is where the sizes of those before it end.
-/

namespace Urchin

open Stack

inductive Reg where
  | rax
  | rbx
  | rcx
  | rdx
  | rsi
  | rdi
  | rbp
  | rsp
  | r8
  | r9
  | r10
  | r11
  | r12
  | r13
  | r14
  | r15
  deriving DecidableEq

structure Cpu where
  reg : Reg → BitVec 64
  xmm : BitVec 4 → BitVec 128
  mem : Memory
  rip : BitVec 64
  cs : BitVec 16
  ss : BitVec 16
  rflags : BitVec 64

namespace Cpu

def set (c : Cpu) (r : Reg) (v : BitVec 64) : Cpu := { c with reg := Function.update c.reg r v }

def push (c : Cpu) (v : BitVec 64) : Cpu :=
  { c.set .rsp (c.reg .rsp - 8) with mem := store c.mem (c.reg .rsp - 8) v }

def pop (c : Cpu) (r : Reg) : Cpu :=
  (c.set .rsp (c.reg .rsp + 8)).set r (load 64 c.mem (c.reg .rsp))

/-- IF, bit 9. -/
def maskInterrupts (c : Cpu) : Cpu := { c with rflags := c.rflags &&& ~~~0x200 }

/-- The processor takes an interrupt: it aligns the stack, and pushes where it was. -/
def interrupt (c : Cpu) (error : Option (BitVec 64)) : Cpu :=
  let stack := c.set .rsp (c.reg .rsp &&& ~~~15)
  let pushed := ((((stack.push (c.ss.setWidth 64)).push (c.reg .rsp)).push c.rflags).push (c.cs.setWidth 64)).push c.rip
  match error with
  | some e => (pushed.push e).maskInterrupts
  | none => pushed.maskInterrupts

end Cpu

/-- The vectors for which the processor pushes an error code. -/
def HasErrorCode (index : ℕ) : Prop := index = 8 ∨ 10 ≤ index ∧ index ≤ 14 ∨ index = 17

instance (index : ℕ) : Decidable (HasErrorCode index) := inferInstanceAs (Decidable (_ ∨ _))

/-- The error code, where the processor pushes one. -/
def errorCode (index : ℕ) (error : BitVec 64) : Option (BitVec 64) :=
  if HasErrorCode index then some error else none

/-- `xchg` is with the word at the top of the stack, and the displacements are from the stack
pointer. -/
inductive Instr where
  | cli
  | pushImm (v : BitVec 64)
  | push (r : Reg)
  | pop (r : Reg)
  | xchg (r : Reg)
  | sub (n : BitVec 64)
  | add (n : BitVec 64)
  | movdquTo (i : BitVec 4) (disp : ℕ)
  | movdquFrom (disp : ℕ) (i : BitVec 4)
  | mov (src dst : Reg)
  | call
  deriving DecidableEq

/-- `interrupt_handler`, from its entry to its return, and where it returns to. -/
structure Kernel where
  handler : Cpu → Cpu
  returnAddress : BitVec 64

/-- The processor, and how it was at each call of `interrupt_handler` so far. -/
structure Entry where
  cpu : Cpu
  calls : List Cpu

def Cpu.exec (c : Cpu) (k : Kernel) : Instr → Cpu
  | .cli => c.maskInterrupts
  | .pushImm v => c.push v
  | .push r => c.push (c.reg r)
  | .pop r => c.pop r
  | .xchg r => { c.set r (load 64 c.mem (c.reg .rsp)) with mem := store c.mem (c.reg .rsp) (c.reg r) }
  | .sub n => c.set .rsp (c.reg .rsp - n)
  | .add n => c.set .rsp (c.reg .rsp + n)
  | .movdquTo i disp => { c with mem := store c.mem (c.reg .rsp + BitVec.ofNat 64 disp) (c.xmm i) }
  | .movdquFrom disp i =>
    { c with xmm := Function.update c.xmm i (load 128 c.mem (c.reg .rsp + BitVec.ofNat 64 disp)) }
  | .mov src dst => c.set dst (c.reg src)
  | .call => k.handler (c.push k.returnAddress)

def Entry.step (k : Kernel) (e : Entry) (i : Instr) : Entry where
  cpu := e.cpu.exec k i
  calls := match i with
    | .call => e.calls ++ [e.cpu]
    | _ => e.calls

def Entry.run (k : Kernel) (e : Entry) (code : List Instr) : Entry := code.foldl (Entry.step k) e

/-- The stub of a vector, which jumps to `interruptCommon`. -/
def interruptHandlers (index : ℕ) : List Instr :=
  if index = 9 ∨ 10 ≤ index ∧ index ≤ 14 ∨ index = 17 then
    [.cli, .pushImm (BitVec.ofNat 64 index)]
  else
    [.cli, .pushImm 0, .pushImm (BitVec.ofNat 64 index)]

/-- `interrupt_common`, up to its call. -/
def interruptSave : List Instr := [
  .xchg .rdi,
  .sub 256,
  .movdquTo 15 0,
  .movdquTo 14 16,
  .movdquTo 13 32,
  .movdquTo 12 48,
  .movdquTo 11 64,
  .movdquTo 10 80,
  .movdquTo 9 96,
  .movdquTo 8 112,
  .movdquTo 7 128,
  .movdquTo 6 144,
  .movdquTo 5 160,
  .movdquTo 4 176,
  .movdquTo 3 192,
  .movdquTo 2 208,
  .movdquTo 1 224,
  .movdquTo 0 240,
  .push .r15,
  .push .r14,
  .push .r13,
  .push .r12,
  .push .r11,
  .push .r10,
  .push .r9,
  .push .r8,
  .push .rbp,
  .push .rsi,
  .push .rdx,
  .push .rcx,
  .push .rbx,
  .push .rax,
  .mov .rsp .rsi,
  .pushImm 0]

/-- `interrupt_common` from its call to `iretq`. -/
def interruptRestore : List Instr := [
  .call,
  .pop .rax,
  .pop .rax,
  .pop .rbx,
  .pop .rcx,
  .pop .rdx,
  .pop .rsi,
  .pop .rbp,
  .pop .r8,
  .pop .r9,
  .pop .r10,
  .pop .r11,
  .pop .r12,
  .pop .r13,
  .pop .r14,
  .pop .r15,
  .movdquFrom 0 15,
  .movdquFrom 16 14,
  .movdquFrom 32 13,
  .movdquFrom 48 12,
  .movdquFrom 64 11,
  .movdquFrom 80 10,
  .movdquFrom 96 9,
  .movdquFrom 112 8,
  .movdquFrom 128 7,
  .movdquFrom 144 6,
  .movdquFrom 160 5,
  .movdquFrom 176 4,
  .movdquFrom 192 3,
  .movdquFrom 208 2,
  .movdquFrom 224 1,
  .movdquFrom 240 0,
  .add 256,
  .pop .rdi,
  .add 8]

def interruptCommon : List Instr := interruptSave ++ interruptRestore

/-! ## The frame -/

/-- The fields of `InterruptFrame`; `reg r` is the field of that name. -/
inductive FrameField where
  | reg (r : Reg)
  | xmm (i : BitVec 4)
  | error
  | rip
  | cs
  | rflags
  | rsp
  | ss
  deriving DecidableEq

namespace InterruptFrame

/-- The fields, in the order they are declared in. -/
def fields : List FrameField := [
  .reg .rax,
  .reg .rbx,
  .reg .rcx,
  .reg .rdx,
  .reg .rsi,
  .reg .rbp,
  .reg .r8,
  .reg .r9,
  .reg .r10,
  .reg .r11,
  .reg .r12,
  .reg .r13,
  .reg .r14,
  .reg .r15,
  .xmm 0,
  .xmm 1,
  .xmm 2,
  .xmm 3,
  .xmm 4,
  .xmm 5,
  .xmm 6,
  .xmm 7,
  .xmm 8,
  .xmm 9,
  .xmm 10,
  .xmm 11,
  .xmm 12,
  .xmm 13,
  .xmm 14,
  .xmm 15,
  .reg .rdi,
  .error,
  .rip,
  .cs,
  .rflags,
  .rsp,
  .ss]

/-- A `u128` for the `xmm` fields, else a `u64`. -/
def bytes : FrameField → ℕ
  | .xmm _ => 16
  | .reg _ | .error | .rip | .cs | .rflags | .rsp | .ss => 8

/-- `repr(C, packed)`. -/
def offset (f : FrameField) : ℕ := ((fields.takeWhile (· ≠ f)).map bytes).sum

/-- The field of the frame at address `frame`. -/
def get (m : Memory) (frame : BitVec 64) (f : FrameField) : Cell :=
  match f with
  | .xmm _ => .octo (load 128 m (frame + BitVec.ofNat 64 (offset f)))
  | .reg _ | .error | .rip | .cs | .rflags | .rsp | .ss =>
    .quad (load 64 m (frame + BitVec.ofNat 64 (offset f)))

end InterruptFrame

end Urchin
