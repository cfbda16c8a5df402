import Urchin.Exec.Outcome

/-!
# The serial console (`devices/serial.rs`, `console.rs`)

`Uart` is the transmitting half of a 16550A, as its registers show it. `SerialSys` is
`console::print` at work on it: the writer polls the line status before each byte, and the
device takes bytes from its FIFO to the line whenever it likes.
-/

namespace Urchin

open Exec

/-! ## The device -/

/-- A byte on the line, with the registers that decide on its format and speed. -/
structure SerialFrame where
  val : UInt8
  lcr : UInt8
  dll : UInt8
  dlm : UInt8
  deriving DecidableEq

structure Uart where
  ier : UInt8
  fcr : UInt8
  lcr : UInt8
  mcr : UInt8
  /-- The divisor of the line's speed, low and high byte. -/
  dll : UInt8
  dlm : UInt8
  /-- Bytes not sent yet, the next one first. -/
  fifo : List UInt8
  /-- What has gone out, the first byte first. -/
  line : List SerialFrame
  deriving DecidableEq

namespace Uart

/-- The divisor stands in the place of the first two registers. -/
def dlab (u : Uart) : Bool := u.lcr &&& 0x80 != 0

/-- A byte to be sent: a full FIFO drops it; without the FIFO it replaces the one before. -/
def send (u : Uart) (val : UInt8) : Uart :=
  if u.fcr &&& 0x01 = 0 then { u with fifo := [val] }
  else if u.fifo.length < 16 then { u with fifo := u.fifo ++ [val] }
  else u

/-- Bit 0 switches the FIFO on or off, which empties it; so does bit 2. -/
def setFcr (u : Uart) (val : UInt8) : Uart :=
  let clear := (u.fcr ^^^ val) &&& 0x01 ≠ 0 ∨ val &&& 0x04 ≠ 0
  { u with fcr := val, fifo := if clear then [] else u.fifo }

def write (u : Uart) (reg : UInt16) (val : UInt8) : Uart :=
  match reg.toNat with
  | 0 => if u.dlab then { u with dll := val } else u.send val
  | 1 => if u.dlab then { u with dlm := val } else { u with ier := val }
  | 2 => u.setFcr val
  | 3 => { u with lcr := val }
  | 4 => { u with mcr := val }
  | _ => u

/-- The line status: bit 5 says that the FIFO is empty. The other bits (data received, errors
of the receiver) are `rest`. -/
def lsr (u : Uart) (rest : UInt8) : UInt8 :=
  if u.fifo = [] then rest ||| 0x20 else rest &&& ~~~ 0x20

def frame (u : Uart) (val : UInt8) : SerialFrame := ⟨val, u.lcr, u.dll, u.dlm⟩

/-- Bit 4 keeps what is sent off the line. -/
def loopback (u : Uart) : Bool := u.mcr &&& 0x10 != 0

/-- The next byte is sent. -/
def shift (u : Uart) : Uart :=
  match u.fifo with
  | [] => u
  | b :: fifo => { u with fifo := fifo, line := if u.loopback then u.line else u.line ++ [u.frame b] }

/-- `outb`, with the device at `base`. -/
def outb (u : Uart) (base port : UInt16) (val : UInt8) : Uart :=
  if port - base < 8 then u.write (port - base) val else u

end Uart

/-! ## The driver -/

def COM1PORT : UInt16 := 0x03f8

structure SerialPort where
  port : UInt16
  deriving DecidableEq

def initSerial (u : Uart) (port : UInt16) : Uart :=
  let u := u.outb COM1PORT (port + 1) 0x00
  let u := u.outb COM1PORT (port + 3) 0x80
  let u := u.outb COM1PORT (port + 0) 0x03
  let u := u.outb COM1PORT (port + 1) 0x00
  let u := u.outb COM1PORT (port + 3) 0x03
  let u := u.outb COM1PORT (port + 2) 0xC7
  u.outb COM1PORT (port + 4) 0x0B

/-- `is_transmit_empty`, of the line status. -/
def isTransmitEmpty (lsr : UInt8) : Bool := lsr &&& 0x20 == 0x20

/-- `SerialPort::new` -/
def SerialPort.new (u : Uart) (port : UInt16) : SerialPort × Uart :=
  (⟨port⟩, initSerial u port)

/-! ## The console at work -/

structure SerialSys where
  uart : Uart
  /-- `CONSOLE`. -/
  console : Option SerialPort
  /-- The bytes that `write_str` has not written yet. -/
  bytes : List UInt8
  /-- `write_byte` has found the FIFO empty. -/
  empty : Bool
  /-- The texts printed so far, their bytes one after the other. -/
  printed : List UInt8
  deriving DecidableEq

inductive SerialOp where
  /-- `console::init`. -/
  | init
  /-- `console::print` gets the next text. -/
  | print (s : String)
  /-- `write_byte` looks at the line status. -/
  | poll (rest : UInt8)
  /-- `write_byte` writes its byte. -/
  | out
  /-- The device sends a byte. -/
  | shift
  deriving DecidableEq

namespace SerialSys

/-- Before `console::init`, with the device as the boot loader left it. -/
def boot (uart : Uart) : SerialSys := ⟨uart, none, [], false, []⟩

def asBytes (s : String) : List UInt8 := s.toUTF8.data.toList

/-- `start_rust` sets the console up once, and prints one text after the other. -/
def Allowed (s : SerialSys) : SerialOp → Prop
  | .init => s.console = none
  | .print _ => s.bytes = []
  | .poll _ => s.bytes ≠ [] ∧ s.empty = false
  | .out => s.empty = true
  | .shift => s.uart.fifo ≠ []

instance (s : SerialSys) (o : SerialOp) : Decidable (s.Allowed o) :=
  match o with
  | .init | .print _ | .out => inferInstanceAs (Decidable (_ = _))
  | .poll _ => inferInstanceAs (Decidable (_ ∧ _))
  | .shift => inferInstanceAs (Decidable (_ ≠ _))

def step (s : SerialSys) : SerialOp → Except Panic SerialSys
  | .init =>
    let (console, uart) := SerialPort.new s.uart COM1PORT
    .ok { s with console := some console, uart := uart }
  | .print str =>
    match s.console with
    | some _ => .ok { s with bytes := asBytes str, printed := s.printed ++ asBytes str }
    | none => .ok s
  | .poll rest => .ok { s with empty := isTransmitEmpty (s.uart.lsr rest) }
  | .out =>
    match s.console, s.bytes with
    | some console, b :: bytes => .ok { s with
        uart := s.uart.outb COM1PORT console.port b
        bytes := bytes
        empty := false }
    | _, _ => .ok s
  | .shift => .ok { s with uart := s.uart.shift }

/-- A byte at 38400 baud, eight bits, no parity, one stop bit. -/
def asSent (val : UInt8) : SerialFrame := ⟨val, 0x03, 0x03, 0x00⟩

/-- What is left to do: a byte has to be polled for, written and sent. -/
def work (s : SerialSys) : ℕ := 3 * s.bytes.length + s.uart.fifo.length - s.empty.toNat

end SerialSys

end Urchin
