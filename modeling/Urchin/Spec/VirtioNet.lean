import Urchin.Spec.Address
import Urchin.Spec.Virtqueue

/-!
# The network driver (`devices/virtio/net.rs`)

`VirtioNet.new` negotiates features, sets up three queues and fills the receive
queue; `interruptHandler` refills the receive queue and takes what the device
returned; `preXmit` builds a transmit buffer and `xmit` posts it.

Buffers come from the allocator, whose answers are a sequence `heap`: the `n`-th
allocation is served with `heap n`. `RxSys` is the receive side of a running
driver, with the device, and the history of what the device returned and what went
to `ethernet-in`; `TxSys` is the transmit side. `Virtqueue.Obliged` is the rule by
which a device decides whether to interrupt.
-/

namespace Urchin

open Exec

def ALIGN : UInt64 := 4096

/-- What `VirtioNet::new` reads from the device: its type, feature word, whether it
accepts the features, its configuration bytes and its queue sizes; and the time
stamp counter, read when the device has no address of its own. -/
structure DeviceConfig where
  type : UInt32
  features : UInt64
  isLegacy : Bool
  featuresOk : Bool
  config : ℕ → UInt8
  queueSize : ℕ → UInt16
  tsc : UInt64

structure VirtioNet where
  id : ℕ
  rxq : Virtqueue
  txq : Virtqueue
  cxq : Virtqueue
  macaddr : MacAddress
  flagCsum : Bool
  flagGuestCsum : Bool
  flagMac : Bool
  flagGuestTso4 : Bool
  flagGuestEcn : Bool
  flagGuestUfo : Bool
  flagHostTso4 : Bool
  flagHostEcn : Bool
  flagMergeableRxbufs : Bool
  flagStatus : Bool

namespace VirtioNet

/-- The features the driver asks for. -/
def drvFeatures : UInt64 := 0x30000000 ||| 0x1AEA3

/-- An address made from the time stamp counter. -/
def generatedMac (tsc : UInt64) : MacAddress :=
  let byte (n : UInt64) : UInt64 := (tsc >>> n) &&& 0xff
  .new ![0x00, 0x16, 0x3e, (byte 0 ^^^ byte 40 ^^^ byte 16).toUInt8,
    (byte 56 ^^^ byte 32 ^^^ byte 8).toUInt8, (byte 48 ^^^ byte 24 ^^^ byte 0).toUInt8]

/-- The size of a receive buffer. -/
def bufferSize (mergeable tso4 ufo : Bool) : UInt64 :=
  if mergeable && (tso4 || ufo) then 17 * ALIGN else 1 * ALIGN

/-- `count` rounds of the fill loop: a buffer is allocated and pushed; a failed
allocation is skipped, a failed push ends the loop. -/
def fillLoop (heap : ℕ → Block) (size : UInt64) : ℕ → Virtqueue → ℕ → Except Panic (Virtqueue × ℕ)
  | 0, q, allocs => .ok (q, allocs)
  | count + 1, q, allocs =>
    match Buffer.new size ALIGN (heap allocs) with
    | .ok buffer =>
      match q.push buffer false with
      | .ok (.ok _, q') => fillLoop heap size count q' (allocs + 1)
      | .ok (.error _, q') => .ok (q', allocs + 1)
      | .error p => .error p
    | .error _ => fillLoop heap size count q allocs

/-- One queue of the device. -/
def setupQueue (dev : DeviceConfig) (mem : ℕ → QueueMem) (indirect : Bool) (idx : ℕ)
    (needInterrupt : Bool) : Except Panic Virtqueue :=
  match Virtqueue.new (dev.queueSize idx) indirect needInterrupt (mem idx) with
  | some q => .ok q
  | none => .error (.explicit "Alignment failed.")

/-- `VirtioNet::new`: `none` for a device of another type. -/
def new (id : ℕ) (dev : DeviceConfig) (mem : ℕ → QueueMem) (heap : ℕ → Block) :
    Except Panic (Option (VirtioNet × ℕ)) :=
  if dev.type = 0x01 then
    let subset := dev.features &&& drvFeatures
    let has (bit : UInt64) : Bool := subset &&& bit != 0
    let macaddr :=
      if !has 0x000020 then generatedMac dev.tsc else MacAddress.new fun i => dev.config i
    if dev.isLegacy || dev.featuresOk then do
      let rxq ← setupQueue dev mem (has 0x10000000) 0 true
      let txq ← setupQueue dev mem (has 0x10000000) 1 false
      let cxq ← setupQueue dev mem (has 0x10000000) 2 true
      let size := rxq.getAvailFreeSize / 3
      let (rxq, allocs) ← fillLoop heap (bufferSize (has 0x008000) (has 0x000080) (has 0x000400))
        size.toNat rxq 0
      .ok (some ({
        id := id, rxq := rxq, txq := txq, cxq := cxq, macaddr := macaddr
        flagCsum := has 0x000001
        flagGuestCsum := has 0x000002
        flagMac := has 0x000020
        flagGuestTso4 := has 0x000080
        flagGuestEcn := has 0x000200
        flagGuestUfo := has 0x000400
        flagHostTso4 := has 0x000800
        flagHostEcn := has 0x002000
        flagMergeableRxbufs := has 0x008000
        flagStatus := has 0x010000 }, allocs))
    else .error (.explicit "assertion failed: `(left == right)`")
  else .ok none

/-- The size of this driver's receive buffers. -/
def rxBufferSize (net : VirtioNet) : UInt64 :=
  bufferSize net.flagMergeableRxbufs net.flagGuestTso4 net.flagGuestUfo

/-- `fill_rx_queue`. -/
def fillRxQueue (heap : ℕ → Block) (net : VirtioNet) (allocs : ℕ) : Except Panic (VirtioNet × ℕ) :=
  let size := net.rxq.getAvailFreeSize - 1
  if size > 32 then do
    let (rxq, allocs) ← fillLoop heap net.rxBufferSize size.toNat net.rxq allocs
    .ok ({ net with rxq := rxq }, allocs)
  else .ok (net, allocs)

/-- `interrupt_handler`, up to the call of `ethernet-in`: the buffers handed to it
(with the virtio header skipped), the driver and the allocations made. `irqed` says
whether the interrupt status register reported a used buffer. -/
def interruptHandler (heap : ℕ → Block) (irqed : Bool) (net : VirtioNet) (allocs : ℕ) :
    Except Panic (List Buffer × VirtioNet × ℕ) :=
  if irqed then do
    let (net, allocs) ← net.fillRxQueue heap allocs
    let (rxdata, rxq) ← net.rxq.pop
    .ok (rxdata.map (·.slidePosition 12), { net with rxq := rxq }, allocs)
  else .ok ([], net, allocs)

/-- A buffer as the driver hands it to `ethernet-in`: one page or seventeen, with the
virtio header skipped. -/
def Received (b : Buffer) : Prop :=
  b.position = 12 ∧ (b.layout.size = 1 * ALIGN ∨ b.layout.size = 17 * ALIGN)

/-- `pre_xmit`, served with the block `blk`: room for the virtio header is added
and the header cleared. -/
def preXmit (size : UInt64) (blk : Block) : Except Panic Buffer :=
  let actualSize := size + 12
  match Buffer.new actualSize ALIGN blk with
  | .ok buffer => do
    let buffer ← forRange 0 12 (fun i b => b.write i 0x00) buffer
    .ok (buffer.slidePosition 12)
  | .error _ => .error (.explicit "something wrong")

/-- `netif::Error`. -/
inductive Error where
  | transmitError
  | receiveError
  deriving DecidableEq

/-- `xmit`, up to the kick of the device. -/
def xmit (net : VirtioNet) (buffer : Buffer) : Except Panic (Except Error Unit × VirtioNet) :=
  (net.txq.push buffer true).map fun r =>
    match r.1 with
    | .ok _ => (.ok (), { net with txq := r.2 })
    | .error _ => (.error .transmitError, { net with txq := r.2 })

end VirtioNet

/-! ## The receive side in use -/

/-- The driver, the device's side of the receive queue, the number of allocations
made, the entries the device returned, in used-ring order, and the buffers handed to
`ethernet-in`. -/
structure RxSys where
  net : VirtioNet
  dev : Device
  allocs : ℕ
  done : List Taken
  delivered : List Buffer

inductive RxOp where
  | take
  | complete (len : UInt32)
  | interrupt (irqed : Bool)

namespace RxSys

def init (net : VirtioNet) (allocs : ℕ) : RxSys := ⟨net, ⟨0, []⟩, allocs, [], []⟩

/-- The device returns the oldest entry it holds, if it holds one. -/
def complete (s : RxSys) (len : UInt32) : RxSys :=
  match s.dev.inflight with
  | t :: rest =>
    { s with
      net := { s.net with rxq := s.net.rxq.complete t.head len }
      dev := { s.dev with inflight := rest }
      done := s.done ++ [t] }
  | [] => s

def step (heap : ℕ → Block) (s : RxSys) : RxOp → Except Panic RxSys
  | .take => .ok { s with dev := s.dev.take s.net.rxq }
  | .complete len => .ok (s.complete len)
  | .interrupt irqed =>
    (s.net.interruptHandler heap irqed s.allocs).map fun r =>
      { s with net := r.2.1, allocs := r.2.2, delivered := s.delivered ++ r.1 }

end RxSys

/-- The same with a device that returns its entries in any order. -/
inductive RxAnyOp where
  | take
  | complete (i : ℕ) (len : UInt32)
  | interrupt (irqed : Bool)

namespace RxSys

/-- The device returns the `i`-th entry it holds, if it holds that many. -/
def completeAt (s : RxSys) (i : ℕ) (len : UInt32) : RxSys :=
  match s.dev.inflight[i]? with
  | some t =>
    { s with
      net := { s.net with rxq := s.net.rxq.complete t.head len }
      dev := { s.dev with inflight := s.dev.inflight.eraseIdx i }
      done := s.done ++ [t] }
  | none => s

def stepAny (heap : ℕ → Block) (s : RxSys) : RxAnyOp → Except Panic RxSys
  | .take => s.step heap .take
  | .complete i len => .ok (s.completeAt i len)
  | .interrupt irqed => s.step heap (.interrupt irqed)

end RxSys

/-! ## The transmit side in use -/

/-- The driver, the device's side of the transmit queue, the buffers that `xmit`
accepted, and the entries the device returned. Nothing takes entries off the transmit
queue: `interrupt_handler` pops the receive queue only. -/
structure TxSys where
  net : VirtioNet
  dev : Device
  sent : List Buffer
  done : List Taken

inductive TxOp where
  | xmit (buffer : Buffer)
  | take
  | complete (i : ℕ) (len : UInt32)

namespace TxSys

def init (net : VirtioNet) : TxSys := ⟨net, ⟨0, []⟩, [], []⟩

def complete (s : TxSys) (i : ℕ) (len : UInt32) : TxSys :=
  match s.dev.inflight[i]? with
  | some t =>
    { s with
      net := { s.net with txq := s.net.txq.complete t.head len }
      dev := { s.dev with inflight := s.dev.inflight.eraseIdx i }
      done := s.done ++ [t] }
  | none => s

def step (s : TxSys) : TxOp → Except Panic TxSys
  | .xmit buffer =>
    (s.net.xmit buffer).map fun r =>
      match r.1 with
      | .ok _ => { s with net := r.2, sent := s.sent ++ [buffer] }
      | .error _ => { s with net := r.2 }
  | .take => .ok { s with dev := s.dev.take s.net.txq }
  | .complete i len => .ok (s.complete i len)

end TxSys

/-! ## Notifications

When a device has moved `used.idx` on, the features in force say whether it has to
interrupt. -/

/-- `1 << VIRTIO_RING_F_EVENT_IDX`. -/
def EVENT_IDX : UInt64 := 0x20000000

/-- The features `VirtioNet::new` accepts of those offered. -/
def VirtioNet.subsetFeatures (dev : DeviceConfig) : UInt64 := dev.features &&& drvFeatures

/-- The 16-bit field after the avail ring. -/
def Virtqueue.usedEvent (q : Virtqueue) : UInt16 := q.availRing q.size.toNat

/-- An index that moves from `old` to `new` passes `event`. -/
def vringNeedEvent (event new old : UInt16) : Prop := new - event - 1 < new - old

/-- The split-ring rule: the device has to interrupt when it returns its next entry. -/
def Virtqueue.Obliged (q : Virtqueue) (features : UInt64) : Prop :=
  if features &&& EVENT_IDX = 0 then q.avail.flags &&& 1 = 0
  else vringNeedEvent q.usedEvent (q.used.idx + 1) q.used.idx

instance (event new old : UInt16) : Decidable (vringNeedEvent event new old) :=
  inferInstanceAs (Decidable (_ < _))

instance (q : Virtqueue) (features : UInt64) : Decidable (q.Obliged features) :=
  inferInstanceAs (Decidable (ite _ _ _))

end Urchin
