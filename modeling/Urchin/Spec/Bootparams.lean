import Urchin.Exec.Outcome
import Urchin.Stack.Memory

/-!
# Boot parameters (`bootparams.rs`)

The boot loader leaves a block of parameters in memory, and a command line at the
32-bit address in it. The kernel reads the line in place.
-/

namespace Urchin.Bootparams

open Exec Stack

def getBootFlag (m : Memory) (bootParams : BitVec 64) : BitVec 16 := load 16 m (bootParams + 0x01fe)

def getHeader (m : Memory) (bootParams : BitVec 64) : BitVec 32 := load 32 m (bootParams + 0x0202)

/-- `cmd_line_ptr`. -/
def cmdLinePtr (m : Memory) (bootParams : BitVec 64) : BitVec 64 :=
  (load 32 m (bootParams + 0x0228)).setWidth 64

/-- `cmd_line_size`. -/
def cmdLineSize (m : Memory) (bootParams : BitVec 64) : ℕ := (load 32 m (bootParams + 0x0238)).toNat

/-- The byte at an offset from `cmd_line_ptr`. -/
def cmdLineByte (m : Memory) (bootParams : BitVec 64) (i : ℕ) : BitVec 8 :=
  m (cmdLinePtr m bootParams + BitVec.ofNat 64 i)

/-- `get_cmdline`: the loop `for i in 0..cmd_line_size` returns at the first zero. -/
def getCmdline (m : Memory) (bootParams : BitVec 64) : Option (List (BitVec 8)) :=
  ((List.range (cmdLineSize m bootParams)).find? fun i => cmdLineByte m bootParams i == 0).map fun i =>
    (List.range i).map (cmdLineByte m bootParams)

/-- `start_rust`, up to the command line. -/
def startRust (m : Memory) (bootParams : BitVec 64) : Except Panic (List (BitVec 8)) :=
  if getBootFlag m bootParams ≠ 0xaa55 then .error (.explicit "assertion failed: `(left == right)`")
  else if getHeader m bootParams ≠ 0x53726448 then .error (.explicit "assertion failed: `(left == right)`")
  else match getCmdline m bootParams with
    | some cmdstr => .ok cmdstr
    | none => .error (.explicit "Couldn't get cmdline. something wrong.")

end Urchin.Bootparams
