import Urchin.Spec.Timer

/-!
# The loop of the kernel (`lib.rs`)

`start_rust` spawns its tasks with interrupts off and goes into its loop: `cli`, the
executor's `run`, `sti`, `hlt`. `KernelLoop` is this loop around the executor and the
timers, in steps. The processor takes an interrupt between any two instructions while the
flag is set, also between `sti` and `hlt`, and handles it to its end with the flag clear;
after one that comes in `hlt`, the loop goes on.

What `run` polls is up to the steps, as in `TimerSys`.
-/

namespace Urchin

open Exec

inductive LoopPc where
  /-- In `start_rust`, before the loop. -/
  | boot
  | cli
  | run
  /-- Inside `run`. -/
  | running
  | sti
  | hlt
  /-- Waiting for an interrupt. -/
  | halted
  deriving DecidableEq

structure KernelLoop where
  sys : TimerSys
  pc : LoopPc
  /-- The interrupt flag. -/
  flag : Bool
  /-- An interrupt has come between the last `sti` and `hlt`. -/
  early : Bool

inductive LoopOp where
  /-- A step of `start_rust` or of `run`. -/
  | code (op : TimerOp)
  /-- The next instruction of the loop. -/
  | next
  /-- An interrupt of the timer, with what it reads off the clock, or of another device. -/
  | interrupt (nowtime : Option UInt64)

namespace KernelLoop

def init : KernelLoop := ⟨.init, .boot, false, false⟩

/-- What runs under `start_rust` and `run`. -/
def Runs (s : KernelLoop) : TimerOp → Prop
  | .spawn => s.pc = .boot ∨ s.pc = .running
  | .run | .interrupt _ => False
  | .pop | .lock | .new _ _ | .await _ | .poll | .finish => s.pc = .running

instance (s : KernelLoop) (op : TimerOp) : Decidable (s.Runs op) :=
  match op with
  | .spawn => inferInstanceAs (Decidable (_ ∨ _))
  | .run | .interrupt _ => inferInstanceAs (Decidable False)
  | .pop | .lock | .new _ _ | .await _ | .poll | .finish => inferInstanceAs (Decidable (_ = _))

/-- The code of tasks is as `TimerSys` allows it; that no interrupt comes during `run` is
not asked for, but the flag is. -/
def Allowed (s : KernelLoop) : LoopOp → Prop
  | .code op => s.Runs op ∧ s.sys.Allowed op
  | .next => s.pc ≠ .running ∧ s.pc ≠ .halted
  | .interrupt _ => s.flag = true

instance (s : KernelLoop) (o : LoopOp) : Decidable (s.Allowed o) :=
  match o with
  | .code _ | .next => inferInstanceAs (Decidable (_ ∧ _))
  | .interrupt _ => inferInstanceAs (Decidable (_ = _))

/-- The instructions of the loop. -/
def next (s : KernelLoop) : Except Panic KernelLoop :=
  match s.pc with
  | .boot => .ok { s with pc := .cli }
  | .cli => .ok { s with pc := .run, flag := false }
  | .run => (s.sys.step .run).map fun sys => { s with sys := sys, pc := .running }
  | .sti => .ok { s with pc := .hlt, flag := true, early := false }
  | .hlt => .ok { s with pc := .halted }
  | .running | .halted => .ok s

/-- An interrupt, from the gate to `iretq`. -/
def interrupt (nowtime : Option UInt64) (s : KernelLoop) : Except Panic KernelLoop :=
  let resumed := { s with
    pc := if s.pc = .halted then .cli else s.pc
    early := s.early || s.pc == .hlt }
  match nowtime with
  | some now => (s.sys.step (.interrupt now)).map fun sys => { resumed with sys := sys }
  | none => .ok resumed

def step (s : KernelLoop) : LoopOp → Except Panic KernelLoop
  | .code op => (s.sys.step op).map fun sys => { s with
      sys := sys
      -- `run` has returned when no call is left
      pc := if s.pc = .running ∧ sys.machine.calls.isEmpty then .sti else s.pc }
  | .next => s.next
  | .interrupt nowtime => s.interrupt nowtime

end KernelLoop

end Urchin
