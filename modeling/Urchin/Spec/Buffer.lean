import Urchin.Exec.Outcome

/-!
# Packet buffers (`devices/buffer.rs`)

A buffer is an allocation of whole pages with a read position. `usize` is 64 bits
and its arithmetic wraps, as in the release build.

The bytes of the allocation are kept in the buffer (`mem`, by offset from
`bufferPtr`). They start as whatever the allocator's block held.
-/

namespace Urchin

open Exec

/-- `core::alloc::Layout`. -/
structure Layout where
  size : UInt64
  align : UInt64
  deriving DecidableEq

/-- `Layout::from_size_align`: the alignment is a power of two, and the size
rounded up to it does not overflow `usize`. -/
def Layout.fromSizeAlign (size align : UInt64) : Option Layout :=
  if align ≠ 0 ∧ align &&& (align - 1) = 0 ∧ size ≤ 0xffffffffffffffff - (align - 1) then
    some ⟨size, align⟩
  else none

/-- What one call of the allocator returns: an address, and the bytes that happen
to be there. -/
structure Block where
  ptr : UInt64
  bytes : ℕ → UInt8

/-- An allocator that hands out cleared pages, one after the other. -/
def pages (i : ℕ) : Block := ⟨4096 * (UInt64.ofNat i + 1), fun _ => 0⟩

inductive Buffer.Error where
  | layoutError
  deriving DecidableEq

structure Buffer where
  bufferPtr : UInt64
  size : UInt64
  position : UInt64
  layout : Layout
  mem : ℕ → UInt8

/-- A page of zeros at an address. -/
def Buffer.page (ptr : UInt64) : Buffer := ⟨ptr, 4096, 0, ⟨4096, 4096⟩, fun _ => 0⟩

namespace Buffer

/-- `Buffer::new`, served with the block `blk`. -/
def new (size align : UInt64) (blk : Block) : Except Buffer.Error Buffer :=
  let actualSize := ((size - 1) / align + 1) * align
  match Layout.fromSizeAlign actualSize align with
  | some layout =>
    .ok { bufferPtr := blk.ptr, size := size, position := 0, layout := layout, mem := blk.bytes }
  | none => .error .layoutError

def slidePosition (b : Buffer) (delta : UInt64) : Buffer := { b with position := b.position + delta }

def getAddress (b : Buffer) : UInt64 := b.bufferPtr

def getSize (b : Buffer) : UInt64 := b.size

/-- The length of `slice()` and `slice_mut()`: the allocation from the position on. -/
def sliceLen (b : Buffer) : ℕ := (b.layout.size - b.position).toNat

/-- The byte at index `i` of the slice, read without a bounds check (through a
packed struct laid over the slice). -/
def peek (b : Buffer) (i : ℕ) : UInt8 := b.mem (b.position.toNat + i)

/-- `slice[i]`. -/
def read (b : Buffer) (i : ℕ) : Except Panic UInt8 :=
  if i < b.sliceLen then .ok (b.peek i) else .error .bounds

/-- Bytes stored from index `i` of the slice on, without a bounds check (through a
packed struct laid over the slice). -/
def poke (b : Buffer) (i : ℕ) (bytes : List UInt8) : Buffer :=
  { b with mem := fun k =>
      if b.position.toNat + i ≤ k ∧ k < b.position.toNat + i + bytes.length then
        bytes.getD (k - (b.position.toNat + i)) 0
      else b.mem k }

/-- `slice_mut()[i] = v`. -/
def write (b : Buffer) (i : ℕ) (v : UInt8) : Except Panic Buffer :=
  if i < b.sliceLen then .ok (b.poke i [v]) else .error .bounds

/-- A struct laid over `&mut slice[i]`: only the first byte is checked. -/
def overlay (b : Buffer) (i : ℕ) (bytes : List UInt8) : Except Panic Buffer :=
  if i < b.sliceLen then .ok (b.poke i bytes) else .error .bounds

/-- `N` consecutive bytes of the slice, as a packed struct field of type `[u8; N]`. -/
def field (b : Buffer) (i N : ℕ) : Fin N → UInt8 := fun j => b.peek (i + j)

@[simp] theorem poke_position (b : Buffer) (i : ℕ) (l : List UInt8) :
    (b.poke i l).position = b.position := rfl

@[simp] theorem poke_sliceLen (b : Buffer) (i : ℕ) (l : List UInt8) :
    (b.poke i l).sliceLen = b.sliceLen := rfl

end Buffer

end Urchin
