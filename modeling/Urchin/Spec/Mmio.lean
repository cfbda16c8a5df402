import Urchin.Spec.QueueLayout
import Urchin.Spec.VirtioNet

/-!
# The device behind its registers (`devices/virtio/mmio.rs`, `devices/virtio/net.rs`)

`MmioDevice.read` and `MmioDevice.write` are the register block of a virtio device:
selectors, queue registers, status, interrupt status. The methods of `VirtioMMIO` are
sequences of such accesses, and `VirtioNet.newMmio` is `VirtioNet::new` on them, in
program order. A kick is kept with the status the device had when it came.

`IsrSys` is `interrupt_handler` at work against the interrupt status register: the
register is read, written back and looked at in separate steps, and so is every round of
`pop`, while the device returns entries.
-/

namespace Urchin

open Exec

/-- What is fixed about a device. -/
structure MmioDevice where
  deviceType : UInt32
  features : UInt64
  /-- Whether the device accepts a choice of features. -/
  accepts : UInt64 → Bool
  config : ℕ → UInt8
  queueNumMax : UInt32 → UInt32

structure QueueRegs where
  num : UInt32
  ready : UInt32
  descLow : UInt32
  descHigh : UInt32
  driverLow : UInt32
  driverHigh : UInt32
  deviceLow : UInt32
  deviceHigh : UInt32
  deriving DecidableEq

def QueueRegs.clear : QueueRegs := ⟨0, 0, 0, 0, 0, 0, 0, 0⟩

structure MmioRegs where
  status : UInt32
  deviceFeaturesSel : UInt32
  driverFeaturesSel : UInt32
  /-- The two words of the features the driver has chosen. -/
  driverLow : UInt32
  driverHigh : UInt32
  queueSel : UInt32
  queues : UInt32 → QueueRegs
  interruptStatus : UInt32
  /-- The queues kicked so far, each with the status at that time. -/
  notified : List (UInt32 × UInt32)

namespace MmioRegs

/-- The registers after a reset. What was kicked stays known. -/
def reset (r : MmioRegs) : MmioRegs :=
  { status := 0, deviceFeaturesSel := 0, driverFeaturesSel := 0, driverLow := 0, driverHigh := 0,
    queueSel := 0, queues := fun _ => .clear, interruptStatus := 0, notified := r.notified }

/-- The registers of the selected queue. -/
def setQueue (r : MmioRegs) (f : QueueRegs → QueueRegs) : MmioRegs :=
  { r with queues := Function.update r.queues r.queueSel (f (r.queues r.queueSel)) }

/-- The features the driver has chosen. -/
def driverFeatures (r : MmioRegs) : UInt64 := r.driverHigh.toUInt64 <<< 32 ||| r.driverLow.toUInt64

end MmioRegs

namespace MmioDevice

variable (d : MmioDevice)

/-- A word of 64 feature bits. -/
def featureWord (features : UInt64) (sel : UInt32) : UInt32 :=
  if sel = 0 then (features &&& 0xffffffff).toUInt32
  else if sel = 1 then (features >>> 32).toUInt32
  else 0

def read (r : MmioRegs) (off : UInt64) : UInt32 :=
  if off = 0x008 then d.deviceType
  else if off = 0x010 then featureWord d.features r.deviceFeaturesSel
  else if off = 0x034 then d.queueNumMax r.queueSel
  else if off = 0x044 then (r.queues r.queueSel).ready
  else if off = 0x060 then r.interruptStatus
  else if off = 0x070 then r.status
  else 0

/-- A device that does not accept the features clears `FEATURES_OK`; zero resets. -/
def writeStatus (r : MmioRegs) (v : UInt32) : MmioRegs :=
  if v = 0 then r.reset
  else if d.accepts r.driverFeatures then { r with status := v }
  else { r with status := v &&& ~~~0x08 }

def write (r : MmioRegs) (off : UInt64) (v : UInt32) : MmioRegs :=
  if off = 0x014 then { r with deviceFeaturesSel := v }
  else if off = 0x020 then
    if r.driverFeaturesSel = 0 then { r with driverLow := v }
    else if r.driverFeaturesSel = 1 then { r with driverHigh := v }
    else r
  else if off = 0x024 then { r with driverFeaturesSel := v }
  else if off = 0x030 then { r with queueSel := v }
  else if off = 0x038 then r.setQueue fun q => { q with num := v }
  else if off = 0x044 then r.setQueue fun q => { q with ready := v }
  else if off = 0x050 then { r with notified := r.notified ++ [(v, r.status)] }
  else if off = 0x064 then { r with interruptStatus := r.interruptStatus &&& ~~~v }
  else if off = 0x070 then d.writeStatus r v
  else if off = 0x080 then r.setQueue fun q => { q with descLow := v }
  else if off = 0x084 then r.setQueue fun q => { q with descHigh := v }
  else if off = 0x090 then r.setQueue fun q => { q with driverLow := v }
  else if off = 0x094 then r.setQueue fun q => { q with driverHigh := v }
  else if off = 0x0a0 then r.setQueue fun q => { q with deviceLow := v }
  else if off = 0x0a4 then r.setQueue fun q => { q with deviceHigh := v }
  else r

end MmioDevice

/-! ## `VirtioDevice` for `VirtioMMIO` -/

namespace VirtioMmio

variable (d : MmioDevice) (r : MmioRegs)

def getType : UInt32 := d.read r 0x008

def selectQueue (queue : UInt32) : Except Panic MmioRegs :=
  let r := d.write r 0x030 queue
  if d.read r 0x044 = 0 then .ok r else .error (.explicit "assertion failed: `(left == right)`")

def getQueueSize : UInt16 := (d.read r 0x034).toUInt16

/-- The writes of `setup_queue`. -/
def writeQueue (queue : Virtqueue) : MmioRegs :=
  (setupQueue queue).foldl (fun r w => d.write r w.1 w.2) r

def activateQueue : MmioRegs := d.write r 0x044 1

def kickQueue (queue : UInt32) : MmioRegs := d.write r 0x050 queue

def getAvailableFeatures : UInt64 × MmioRegs :=
  let r := d.write r 0x014 1
  let features := (d.read r 0x010).toUInt64 <<< 32
  let r := d.write r 0x014 0
  (features ||| (d.read r 0x010).toUInt64, r)

def setEnabledFeatures (features : UInt64) : MmioRegs :=
  let r := d.write r 0x024 1
  let r := d.write r 0x020 (features >>> 32).toUInt32
  let r := d.write r 0x024 0
  d.write r 0x020 (features &&& 0xffffffff).toUInt32

def getStatus : UInt8 := (d.read r 0x070).toUInt8

def setStatus (status : UInt8) : MmioRegs := d.write r 0x070 status.toUInt32

/-- `read_and_ack_isr`. -/
def readAndAckIsr : UInt8 × MmioRegs :=
  let intrStatus := d.read r 0x060
  ((intrStatus &&& 0x01).toUInt8, d.write r 0x064 intrStatus)

end VirtioMmio

namespace VirtioNet

open VirtioMmio

/-- The closure `setup_queue` of `VirtioNet::new`. -/
def setupQueueMmio (d : MmioDevice) (mem : ℕ → QueueMem) (indirectBufCap : Bool) (idx : ℕ) (needInterrupt : Bool)
    (r : MmioRegs) : Except Panic (Virtqueue × MmioRegs) := do
  let r ← selectQueue d r (UInt32.ofNat idx)
  match Virtqueue.new (getQueueSize d r) indirectBufCap needInterrupt (mem idx) with
  | some queue => .ok (queue, activateQueue d (writeQueue d r queue))
  | none => .error (.explicit "Alignment failed.")

/-- `VirtioNet::new` on a register block, with the registers it leaves. -/
def newMmio (id : ℕ) (d : MmioDevice) (r : MmioRegs) (tsc : UInt64) (mem : ℕ → QueueMem) (heap : ℕ → Block) :
    Except Panic (Option (VirtioNet × ℕ) × MmioRegs) :=
  if getType d r = 0x01 then do
    let r := setStatus d r 0
    let r := setStatus d r (getStatus d r ||| 0x01)
    let r := setStatus d r (getStatus d r ||| 0x02)
    let (devFeatures, r) := getAvailableFeatures d r
    let subset := devFeatures &&& drvFeatures
    let has (bit : UInt64) : Bool := subset &&& bit != 0
    let r := setEnabledFeatures d r subset
    -- the device is not a legacy one
    let r := setStatus d r (getStatus d r ||| 0x08)
    if getStatus d r &&& 0x08 = 0x08 then
      let macaddr :=
        if !has 0x000020 then generatedMac tsc else MacAddress.new fun i => d.config i
      let (rxq, r) ← setupQueueMmio d mem (has 0x10000000) 0 true r
      let (txq, r) ← setupQueueMmio d mem (has 0x10000000) 1 false r
      let (cxq, r) ← setupQueueMmio d mem (has 0x10000000) 2 true r
      let size := rxq.getAvailFreeSize / 3
      let (rxq, allocs) ← fillLoop heap (bufferSize (has 0x008000) (has 0x000080) (has 0x000400))
        size.toNat rxq 0
      let r := kickQueue d r 0
      let r := setStatus d r (getStatus d r ||| 0x04)
      .ok (some ({
        id := id, rxq := rxq, txq := txq, cxq := cxq, macaddr := macaddr
        flagCsum := has 0x000001
        flagGuestCsum := has 0x000002
        flagMac := has 0x000020
        flagGuestTso4 := has 0x000080
        flagGuestEcn := has 0x000200
        flagGuestUfo := has 0x000400
        flagHostTso4 := has 0x000800
        flagHostEcn := has 0x002000
        flagMergeableRxbufs := has 0x008000
        flagStatus := has 0x010000 }, allocs), r)
    else .error (.explicit "assertion failed: `(left == right)`")
  else .ok (none, r)

end VirtioNet

/-- The device as `VirtioNet.new` sees it. -/
def MmioDevice.toConfig (d : MmioDevice) (tsc : UInt64) : DeviceConfig :=
  { type := d.deviceType
    features := d.features
    isLegacy := false
    featuresOk := d.accepts (d.features &&& VirtioNet.drvFeatures)
    config := d.config
    queueSize := fun i => (d.queueNumMax (UInt32.ofNat i)).toUInt16
    tsc := tsc }

/-! ## The interrupt handler and the interrupt status register -/

/-- Where `interrupt_handler` stands. -/
inductive HandlerPc where
  | idle
  | isrRead (intrStatus : UInt32)
  | refill
  | pop
  deriving DecidableEq

structure IsrSys where
  net : VirtioNet
  regs : MmioRegs
  allocs : ℕ
  pc : HandlerPc
  popped : List Buffer

/-- A step of the handler, an entry that the device returns, with the bit of the status
register that says so, or a change of the device's configuration. -/
inductive IsrOp where
  | handler
  | complete (head : UInt16) (len : UInt32)
  | configChange

namespace IsrSys

def init (net : VirtioNet) (regs : MmioRegs) (allocs : ℕ) : IsrSys := ⟨net, regs, allocs, .idle, []⟩

/-- The next step of the handler. From `idle`, it is called. -/
def handler (d : MmioDevice) (heap : ℕ → Block) (s : IsrSys) : Except Panic IsrSys :=
  match s.pc with
  | .idle => .ok { s with pc := .isrRead (d.read s.regs 0x060) }
  | .isrRead intrStatus =>
    .ok { s with
      regs := d.write s.regs 0x064 intrStatus
      pc := if (intrStatus &&& 0x01).toUInt8 > 0 then .refill else .idle }
  | .refill =>
    (s.net.fillRxQueue heap s.allocs).map fun r => { s with net := r.1, allocs := r.2, pc := .pop }
  | .pop =>
    if s.net.rxq.lastUsedIdx = s.net.rxq.used.idx then .ok { s with pc := .idle }
    else s.net.rxq.popOne.map fun r =>
      { s with net := { s.net with rxq := r.2 }, popped := s.popped ++ r.1.toList }

def step (d : MmioDevice) (heap : ℕ → Block) (s : IsrSys) : IsrOp → Except Panic IsrSys
  | .handler => s.handler d heap
  | .complete head len =>
    .ok { s with
      net := { s.net with rxq := s.net.rxq.complete head len }
      regs := { s.regs with interruptStatus := s.regs.interruptStatus ||| 0x01 } }
  | .configChange => .ok { s with regs := { s.regs with interruptStatus := s.regs.interruptStatus ||| 0x02 } }

end IsrSys

end Urchin
