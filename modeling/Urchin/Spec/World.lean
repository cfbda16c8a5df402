import Urchin.Spec.Fib
import Urchin.Spec.VirtioNet

/-!
# The state of the network stack, frames and headers

`World` holds the five tables of `net/fib.rs`, the number of allocations made so far
and the frames handed to the transmit queues. A node (`ProcessingNode`) takes a
batch of frames in a state and leaves a state; a panic halts the kernel in the state
it happened in.

The `generate_*` functions store a packed header through a pointer to the first byte
of a slice: only that byte is checked.
-/

namespace Urchin

open Exec

structure World where
  ipv4Fib : Ipv4Fib
  ipv6Fib : Ipv6Fib
  ipv4Adjacent : AdjacentTable Ipv4Address
  ipv6Adjacent : AdjacentTable Ipv6Address
  macAddrTable : AdjacentTable MacAddress
  allocs : ℕ
  sent : List (Netif × Buffer)

/-- All tables are empty. -/
def World.empty : World :=
  ⟨Route.Tables.empty, Route.Tables.empty, fun _ => none, fun _ => none, fun _ => none, 0, []⟩

structure DataFromNetif where
  netif : Netif
  buffer : Buffer

abbrev ProcessingNode := World → List DataFromNetif → Outcome World

/-- `netif.xmit`: the buffer goes to the transmit queue of the interface. -/
def World.xmit (w : World) (netif : Netif) (buffer : Buffer) : World :=
  { w with sent := w.sent ++ [(netif, buffer)] }

/-- The bytes of a transmitted buffer that the device reads: the descriptor has the
buffer's address and its size, so the virtio header is among them. -/
def wire (b : Buffer) : List UInt8 := (List.range b.getSize.toUInt32.toNat).map b.mem

/-- `slice[i..i+N]` as an array. -/
def Buffer.array (b : Buffer) (i N : ℕ) : Except Panic (Fin N → UInt8) :=
  if i + N ≤ b.sliceLen then .ok (b.field i N) else .error .bounds

/-- The two bytes of a `u16` in memory. -/
def leBytes (v : UInt16) : List UInt8 := [v.toUInt8, (v >>> 8).toUInt8]

def generateEtherHeader (buffer : Buffer) (offset : ℕ) (srcAddr destAddr : MacAddress)
    (frameType : List UInt8) : Except Panic Buffer :=
  buffer.overlay offset (List.ofFn destAddr.getArray ++ List.ofFn srcAddr.getArray ++ frameType)

def generateArpPacket (buffer : Buffer) (offset : ℕ) (oper : UInt16) (srcMac : MacAddress)
    (srcIp : Ipv4Address) (destMac : MacAddress) (destIp : Ipv4Address) : Except Panic Buffer :=
  buffer.overlay offset (leBytes 0x0100 ++ leBytes 0x0008 ++ [6, 4] ++ leBytes oper ++
    List.ofFn srcMac.getArray ++ List.ofFn srcIp.getArray ++
    List.ofFn destMac.getArray ++ List.ofFn destIp.getArray)

def generateIpv4Header (buffer : Buffer) (offset : ℕ) (len : Fin 2 → UInt8) (proto : UInt8)
    (srcIp destIp : Ipv4Address) : Except Panic Buffer :=
  buffer.overlay offset ([0x45, 0] ++ List.ofFn len ++ leBytes 0 ++ leBytes 0x0040 ++ [64, proto] ++
    leBytes 0 ++ List.ofFn srcIp.getArray ++ List.ofFn destIp.getArray)

def generateIpv6Header (buffer : Buffer) (offset : ℕ) (len : Fin 2 → UInt8) (nexthdr : UInt8)
    (srcIp destIp : Ipv6Address) : Except Panic Buffer :=
  buffer.overlay offset ([0x60, 0, 0, 0] ++ List.ofFn len ++ [nexthdr, 0x80] ++
    List.ofFn srcIp.getArray ++ List.ofFn destIp.getArray)

/-! ## What the echo handlers share -/

/-- `for i in lo..hi { respslice[i] = slice[i]; }` -/
def copyLoop (slice : Buffer) (lo hi : ℕ) (respslice : Buffer) : Except Panic Buffer :=
  forRange lo hi (fun i r => do
    let v ← slice.read i
    r.write i v) respslice

/-- `for i in lo..hi { csum += respslice[i*2] << 8 | respslice[i*2+1]; }` -/
def csumLoop (respslice : Buffer) (lo hi : ℕ) (csum : UInt32) : Except Panic UInt32 :=
  forRange lo hi (fun i csum => do
    let x ← respslice.read (i * 2)
    let y ← respslice.read (i * 2 + 1)
    .ok (csum + (x.toUInt32 <<< 8 ||| y.toUInt32))) csum

/-- The two foldings and the complement of a checksum. -/
def csumFold (csum : UInt32) : UInt32 :=
  let csum : UInt32 := (csum &&& (0x0000ffff : UInt32)) + (csum >>> (16 : UInt32))
  let csum : UInt32 := (csum &&& (0x0000ffff : UInt32)) + (csum >>> (16 : UInt32))
  ~~~csum

/-- The checksum as the `u16` field holds it. -/
def csumField (csum : UInt32) : UInt16 := ((csum &&& 0x00ff) <<< 8 ||| (csum &&& 0xff00) >>> 8).toUInt16

end Urchin
