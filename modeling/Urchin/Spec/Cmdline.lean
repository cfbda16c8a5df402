import Urchin.Text.Find

/-!
# Virtio devices on the command line (`devices/virtio/mmio.rs`)

`VirtioMmio.new` looks for the `idx`-th `virtio_mmio.device=`, for the delimiters after it,
and folds the characters between them into the size, the address and the interrupt line.

A string is the list of its characters. Offsets count characters, in the source bytes; they
are used to cut the string only. The accumulators wrap, and so does `idx + 1`, as in a
release build. The device memory is a function from addresses to words.
-/

namespace Urchin

open Text

structure VirtioMmio where
  addr : UInt64
  size : UInt64
  irq : UInt8
  indirectBufCap : Bool
  eventIdxCap : Bool
  deriving DecidableEq

/-- The decimal digits. -/
def decimal : Char → Option ℕ
  | '0' => some 0
  | '1' => some 1
  | '2' => some 2
  | '3' => some 3
  | '4' => some 4
  | '5' => some 5
  | '6' => some 6
  | '7' => some 7
  | '8' => some 8
  | '9' => some 9
  | _ => none

/-- The hexadecimal digits, in either case. -/
def hexadecimal : Char → Option ℕ
  | '0' => some 0
  | '1' => some 1
  | '2' => some 2
  | '3' => some 3
  | '4' => some 4
  | '5' => some 5
  | '6' => some 6
  | '7' => some 7
  | '8' => some 8
  | '9' => some 9
  | 'a' | 'A' => some 10
  | 'b' | 'B' => some 11
  | 'c' | 'C' => some 12
  | 'd' | 'D' => some 13
  | 'e' | 'E' => some 14
  | 'f' | 'F' => some 15
  | _ => none

/-- The units of a size. -/
def unit : Char → Option ℕ
  | 'k' | 'K' => some 1024
  | 'm' | 'M' => some (1024 * 1024)
  | _ => none

namespace VirtioMmio

def keyphrase : List Char := "virtio_mmio.device=".toList

/-- A character of the size; another one is skipped. -/
def sizeStep (sizeVal : UInt64) (c : Char) : UInt64 :=
  match decimal c, unit c with
  | some d, _ => sizeVal * 10 + UInt64.ofNat d
  | none, some u => sizeVal * UInt64.ofNat u
  | none, none => sizeVal

def addrStep (addrVal : UInt64) (c : Char) : UInt64 :=
  match hexadecimal c with
  | some d => addrVal * 16 + UInt64.ofNat d
  | none => addrVal

def irqStep (irqVal : UInt8) (c : Char) : UInt8 :=
  match decimal c with
  | some d => irqVal * 10 + UInt8.ofNat d
  | none => irqVal

/-- The loop `for i in 0..(idx+1)`, for `n` rounds: the offset after the key phrase that is
found last. -/
def keySearch (cmdline : List Char) : ℕ → ℕ → Except String ℕ
  | 0, keyidx => .ok keyidx
  | n + 1, keyidx =>
    match find keyphrase (cmdline.drop keyidx) with
    | some j => keySearch cmdline n (keyidx + (j + keyphrase.length))
    | none => .error "virtio-mmio is not found"

/-- `&cmdline[lo..hi]`. -/
def slice (cmdline : List Char) (lo hi : ℕ) : List Char := (cmdline.drop lo).take (hi - lo)

/-- The offset after the first `pat` from `lo` on. -/
def findAfter (cmdline : List Char) (lo : ℕ) (pat : String) : Except String ℕ :=
  match find pat.toList (cmdline.drop lo) with
  | some i => .ok (lo + i + pat.toList.length)
  | none => .error "virtio-mmio is not found"

/-- The offset of the first space from `lo` on, or of the end. -/
def findTail (cmdline : List Char) (lo : ℕ) : ℕ :=
  match find " ".toList (cmdline.drop lo) with
  | some i => lo + i
  | none => cmdline.length

def new (mem : UInt64 → UInt32) (cmdline : List Char) (idx : UInt64) : Except String VirtioMmio := do
  let sizeIdx ← keySearch cmdline (idx + 1).toNat 0
  let addrIdx ← findAfter cmdline sizeIdx "@0x"
  let irqIdx ← findAfter cmdline addrIdx ":"
  let tailIdx := findTail cmdline irqIdx
  let sizeVal := (slice cmdline sizeIdx (addrIdx - 3)).foldl sizeStep 0
  let addrVal := (slice cmdline addrIdx (irqIdx - 1)).foldl addrStep 0
  let irqVal := (slice cmdline irqIdx tailIdx).foldl irqStep 0
  if mem addrVal ≠ 0x74726976 then .error "Invalid virtio-mmio device"
  else if mem (addrVal + 4) ≠ 2 then .error "Invalid virtio-mmio device"
  else .ok ⟨addrVal, sizeVal, irqVal, false, false⟩

end VirtioMmio

/-! ## What is on the command line -/

/-- The value of a text, where characters that are no digits are skipped. -/
def digitsValue (base : ℕ) (digit : Char → Option ℕ) (text : List Char) : ℕ :=
  text.foldl (fun v c => ((digit c).map fun d => v * base + d).getD v) 0

/-- The text of a device's token after the key phrase, with what it stands for: a size with an
optional unit, an address of up to 16 digits, and an interrupt line. -/
structure DeviceToken where
  size : List Char
  sizeUnit : Option Char
  addr : List Char
  irq : List Char
  sizeDigits : ∀ c ∈ size, (decimal c).isSome
  unitLetter : ∀ c ∈ sizeUnit, (unit c).isSome
  addrDigits : ∀ c ∈ addr, (hexadecimal c).isSome
  irqDigits : ∀ c ∈ irq, (decimal c).isSome
  addrLength : 1 ≤ addr.length ∧ addr.length ≤ 16
  sizeFits : digitsValue 10 decimal size * ((sizeUnit.bind unit).getD 1) < 2 ^ 64
  irqFits : digitsValue 10 decimal irq ≤ 255

namespace DeviceToken

def sizeBytes (d : DeviceToken) : ℕ := digitsValue 10 decimal d.size * ((d.sizeUnit.bind unit).getD 1)

def addrValue (d : DeviceToken) : ℕ := digitsValue 16 hexadecimal d.addr

def irqValue (d : DeviceToken) : ℕ := digitsValue 10 decimal d.irq

def body (d : DeviceToken) : List Char :=
  (d.size ++ d.sizeUnit.toList) ++ ("@0x".toList ++ (d.addr ++ ':' :: d.irq))

end DeviceToken

/-- A token of the command line: a device, or another text. -/
inductive Token where
  | device (d : DeviceToken)
  | other (text : List Char) (hspace : ' ' ∉ text) (hkey : ¬ VirtioMmio.keyphrase <:+: text)

def Token.text : Token → List Char
  | .device d => VirtioMmio.keyphrase ++ d.body
  | .other text _ _ => text

def devices (tokens : List Token) : List DeviceToken :=
  tokens.filterMap fun
    | .device d => some d
    | .other _ _ _ => none

/-- The command line: the tokens with single spaces between them. -/
def render : List Token → List Char
  | [] => []
  | [t] => t.text
  | t :: t' :: tokens => t.text ++ ' ' :: render (t' :: tokens)

/-- The memory at the address holds the magic value and version 2. -/
def IsVirtio (mem : UInt64 → UInt32) (addr : UInt64) : Prop := mem addr = 0x74726976 ∧ mem (addr + 4) = 2

end Urchin
