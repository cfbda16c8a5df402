import Urchin.Exec.Outcome

/-!
# Routing interrupts (`arch/x86_64/apic.rs`, `interrupt.rs`, `lib.rs`)

`IoApic` is the I/O APIC behind its two windows: a store to the first selects a register,
the second is the register selected. Register numbers are bytes and wrap, in the driver's
arithmetic as in the chip. A pin has two registers, and what it sends on an interrupt is
read off them (`message`).

`Routing` is the chip and the table of handlers, which `set_handler` and `unset_handler`
change together; `raise` is what comes of an interrupt on a pin: its message, the local
APIC that takes it, `interrupt_handler` on the vector, and the handler that is called.
-/

namespace Urchin

open Exec

def IOAPIC_ADDR : UInt64 := 0xfec00000
def IOAPIC_REG_IOAPICVER : UInt8 := 0x01
def VECTOR_IRQ_BASE : UInt32 := 48

/-- The register selected, the version register, and the registers of the pins. -/
structure IoApic where
  select : UInt8
  version : UInt32
  redirection : UInt8 → UInt32

/-- What the chip sends for an interrupt. -/
structure IrqMessage where
  vector : UInt8
  mode : UInt32
  destination : UInt8
  deriving DecidableEq

namespace IoApic

/-- The version register has the number of the last pin. -/
def pins (a : IoApic) : ℕ := (a.version >>> 16 &&& 0xff).toNat + 1

/-- A register of some pin. -/
def IsRedirection (a : IoApic) (reg : UInt8) : Prop := 0x10 ≤ reg.toNat ∧ reg.toNat < 0x10 + 2 * a.pins

instance (a : IoApic) (reg : UInt8) : Decidable (a.IsRedirection reg) := inferInstanceAs (Decidable (_ ∧ _))

/-- A store to one of the windows. The registers that are not a pin's hold nothing that
the driver reads back. -/
def store (a : IoApic) (addr : UInt64) (data : UInt32) : IoApic :=
  if addr = IOAPIC_ADDR + 0x00 then { a with select := data.toUInt8 }
  else if addr = IOAPIC_ADDR + 0x10 ∧ a.IsRedirection a.select then
    { a with redirection := Function.update a.redirection a.select data }
  else a

def load (a : IoApic) (addr : UInt64) : UInt32 :=
  if addr = IOAPIC_ADDR + 0x00 then a.select.toUInt32
  else if addr = IOAPIC_ADDR + 0x10 then
    if a.select = 0x01 then a.version
    else if a.IsRedirection a.select then a.redirection a.select
    else 0
  else 0

/-- The registers of a pin, the low one first. -/
def entry (a : IoApic) (pin : ℕ) : UInt32 × UInt32 :=
  (a.redirection (UInt8.ofNat (0x10 + 2 * pin)), a.redirection (UInt8.ofNat (0x10 + 2 * pin + 1)))

/-- What a pin sends: nothing while it is masked. -/
def message (a : IoApic) (pin : ℕ) : Option IrqMessage :=
  let (low, high) := a.entry pin
  if low &&& ((1 : UInt32) <<< 16) ≠ 0 then none
  else some ⟨low.toUInt8, low >>> 8 &&& 7, (high >>> 24).toUInt8⟩

end IoApic

/-! ## The driver -/

def ioapicRegLow (n : UInt8) : UInt8 := 0x10 + n * 2

def ioapicRegHigh (n : UInt8) : UInt8 := 0x10 + n * 2 + 1

def ioapicRead (reg : UInt8) (a : IoApic) : UInt32 × IoApic :=
  let selected := a.store (IOAPIC_ADDR + 0x00) reg.toUInt32
  (selected.load (IOAPIC_ADDR + 0x10), selected)

def ioapicWrite (reg : UInt8) (data : UInt32) (a : IoApic) : IoApic :=
  (a.store (IOAPIC_ADDR + 0x00) reg.toUInt32).store (IOAPIC_ADDR + 0x10) data

/-- The pin is masked. -/
def disableIrq (irq : UInt8) (a : IoApic) : IoApic :=
  ioapicWrite (ioapicRegLow irq) ((1 : UInt32) <<< 16) (ioapicWrite (ioapicRegHigh irq) 0 a)

def enableIrq (irq : UInt8) (a : IoApic) : IoApic :=
  ioapicWrite (ioapicRegLow irq) (VECTOR_IRQ_BASE + irq.toUInt32) (ioapicWrite (ioapicRegHigh irq) 0 a)

/-- `ioapic_init`, without its writes to ports. -/
def ioapicInit (a : IoApic) : IoApic :=
  let (version, a) := ioapicRead IOAPIC_REG_IOAPICVER a
  let num := (version >>> 16) + 1
  (List.range num.toNat).foldl
    (fun a i => ioapicWrite (ioapicRegLow (UInt8.ofNat i)) ((1 : UInt32) <<< 16)
      (ioapicWrite (ioapicRegHigh (UInt8.ofNat i)) 0 a)) a

/-! ## Handlers -/

/-- `trait Interruptable`, as far as the table of handlers asks of it. -/
class Interruptable (H : Type*) where
  getIrq : H → UInt8

/-- `IrqHandler`. -/
structure IrqHandler (H : Type*) where
  handlers : UInt8 → Option H

variable {H : Type*}

namespace IrqHandler

def new : IrqHandler H := ⟨fun _ => none⟩

def getHandler (t : IrqHandler H) (irq : UInt8) : Option H := t.handlers irq

/-- `irq_handler`: which handler is called. -/
def irqHandler (t : IrqHandler H) (irq : UInt8) : Option H := t.getHandler irq

/-- `interrupt_handler`: which handler is called. -/
def interruptHandler (t : IrqHandler H) (intvec : UInt8) : Except Panic (Option H) :=
  if intvec ≤ 20 then .error (.explicit "explicit panic")
  else if 48 ≤ intvec then .ok (t.irqHandler (intvec - 48))
  else .ok none

end IrqHandler

/-- What implements the trait: `interrupt::Timer`, and the drivers of the network devices. -/
inductive KernelHandler where
  | timer
  | virtioNet (id : ℕ) (irq : UInt8)
  deriving DecidableEq

instance : Interruptable KernelHandler where
  getIrq
    | .timer => 0
    | .virtioNet _ irq => irq

/-! ## The two together -/

structure Routing (H : Type*) where
  ioapic : IoApic
  table : IrqHandler H

inductive RoutingOp (H : Type*) where
  | setHandler (handler : H)
  | unsetHandler (irq : UInt8)

/-- The interrupt line that the operation is about. -/
def RoutingOp.irq [Interruptable H] : RoutingOp H → UInt8
  | .setHandler handler => Interruptable.getIrq handler
  | .unsetHandler irq => irq

/-- A local APIC takes no message with a vector below 16. -/
def IrqMessage.taken (m : IrqMessage) : Bool := 16 ≤ m.vector

namespace Routing

/-- After `apic::init`. -/
def init (a : IoApic) : Routing H := ⟨ioapicInit a, .new⟩

/-- `set_handler` and `unset_handler`. -/
def step [Interruptable H] (r : Routing H) : RoutingOp H → Routing H
  | .setHandler handler =>
    let irq := Interruptable.getIrq handler
    ⟨enableIrq irq r.ioapic, ⟨Function.update r.table.handlers irq (some handler)⟩⟩
  | .unsetHandler irq => ⟨disableIrq irq r.ioapic, ⟨Function.update r.table.handlers irq none⟩⟩

def run [Interruptable H] (r : Routing H) (ops : List (RoutingOp H)) : Routing H := ops.foldl step r

/-- An interrupt on a pin. -/
def raise (r : Routing H) (pin : ℕ) : Except Panic (Option H) :=
  match r.ioapic.message pin with
  | none => .ok none
  | some m => if m.taken then r.table.interruptHandler m.vector else .ok none

end Routing

end Urchin
