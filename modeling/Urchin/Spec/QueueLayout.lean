import Mathlib.Data.Set.Lattice
import Urchin.Spec.Virtqueue

/-!
# Where a virtqueue lies in memory (`devices/virtio.rs`, `devices/virtio/mmio.rs`)

`Virtqueue::new` lays the descriptor table and the two rings over one allocation;
`setup_queue` tells the device where they are, each address in two registers of 32
bits.
-/

namespace Urchin

/-- The bytes of a table or ring at an address. -/
def region (addr : UInt64) (len : ℕ) : Set ℕ := Set.Ico addr.toNat (addr.toNat + len)

namespace Virtqueue

/-- The addresses `Virtqueue::new` makes its references and slices from. -/
structure Addrs where
  descriptorAddr : UInt64
  availAddr : UInt64
  availRing : UInt64
  usedAddr : UInt64
  usedRing : UInt64

/-- The addresses in `Virtqueue::new`, for the allocation at `baseAddr`. -/
def addrs (size : UInt16) (baseAddr : UInt64) : Addrs :=
  let align : UInt64 := 4096
  let descriptorAddr := baseAddr
  let availAddr := baseAddr + 16 * size.toUInt64
  let usedAddr := baseAddr + ((16 * size.toUInt64 + 3 * 2 + 2 * size.toUInt64 - 1) / align + 1) * align
  { descriptorAddr := descriptorAddr
    availAddr := availAddr
    availRing := availAddr + 4
    usedAddr := usedAddr
    usedRing := usedAddr + 4 }

def getDescriptorAddr (q : Virtqueue) : UInt64 := q.baseAddr

def getAvailAddr (q : Virtqueue) : UInt64 := q.baseAddr + 16 * q.getSize.toUInt64

def getUsedAddr (q : Virtqueue) : UInt64 :=
  let align : UInt64 := 4096
  q.baseAddr + ((16 * q.getSize.toUInt64 + 3 * 2 + 2 * q.getSize.toUInt64 - 1) / align + 1) * align

end Virtqueue

namespace VirtioMmio

/-- `setup_queue`: its register writes, as offsets and values, in program order. -/
def setupQueue (queue : Virtqueue) : List (UInt64 × UInt32) :=
  [(0x038, queue.getSize.toUInt32),
    (0x080, (queue.getDescriptorAddr &&& 0xffffffff).toUInt32),
    (0x084, (queue.getDescriptorAddr >>> 32).toUInt32),
    (0x090, (queue.getAvailAddr &&& 0xffffffff).toUInt32),
    (0x094, (queue.getAvailAddr >>> 32).toUInt32),
    (0x0a0, (queue.getUsedAddr &&& 0xffffffff).toUInt32),
    (0x0a4, (queue.getUsedAddr >>> 32).toUInt32)]

end VirtioMmio

/-- An address as the device reads it from two registers, the low half at `off`. -/
def deviceAddr (writes : List (UInt64 × UInt32)) (off : UInt64) : Option UInt64 :=
  match writes.lookup off, writes.lookup (off + 4) with
  | some low, some high => some (high.toUInt64 <<< 32 ||| low.toUInt64)
  | _, _ => none

end Urchin
