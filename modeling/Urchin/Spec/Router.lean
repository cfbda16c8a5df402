import Urchin.Spec.Nodes

/-!
# The router at work

All interfaces with their drivers, their devices on both queues, the memory the devices
write to, and the tables. The processor runs one interrupt handler at a time: it refills
and pops the receive queue and calls `ethernet-in`, whose frames are then posted one by
one (`flush`), with the devices at work in between. A panic halts the kernel: what the
nodes have sent so far is posted, and there are no more interrupts.

There are `c` interfaces. Each driver and the nodes have an allocator sequence of their
own (`heap n`, `txHeap`). `ram` maps the address of a block to what it holds; the bytes a
device writes on completion are a frame behind its virtio header, and the nodes build the
frames they send in blocks of theirs, which stay as they are until the device returns them.
-/

namespace Urchin

open Exec

structure Router (c : ℕ) where
  nets : Fin c → VirtioNet
  rxDev : Fin c → Device
  txDev : Fin c → Device
  allocs : Fin c → ℕ
  ram : UInt64 → ℕ → UInt8
  world : World
  pending : List (Netif × Buffer)
  halted : Bool
  /-- What each device has returned on its receive queue, and the bytes it wrote. -/
  rxDone : Fin c → List Taken
  arrived : Fin c → List (List UInt8)
  /-- The buffers each driver has handed over. -/
  delivered : Fin c → List Buffer
  /-- The batches `ethernet-in` was called with. -/
  batches : List (List DataFromNetif)
  /-- What each driver has posted for transmission, and its device has returned. -/
  posted : Fin c → List Buffer
  txDone : Fin c → List Taken

inductive RouterOp (c : ℕ) where
  | rxTake (n : Fin c)
  | rxComplete (n : Fin c) (bytes : List UInt8)
  | txTake (n : Fin c)
  | txComplete (n : Fin c) (i : ℕ) (len : UInt32)
  | interrupt (n : Fin c) (irqed : Bool)
  | flush

namespace Router

variable {c : ℕ} (heap : Fin c → ℕ → Block) (txHeap : ℕ → Block)

/-- Fresh drivers, with the allocations they have made, in a state of the tables. -/
def init (nets : Fin c → VirtioNet) (allocs : Fin c → ℕ) (ram : UInt64 → ℕ → UInt8) (world : World) :
    Router c :=
  { nets := nets
    rxDev := fun _ => ⟨0, []⟩
    txDev := fun _ => ⟨0, []⟩
    allocs := allocs
    ram := ram
    world := world
    pending := []
    halted := false
    rxDone := fun _ => []
    arrived := fun _ => []
    delivered := fun _ => []
    batches := []
    posted := fun _ => []
    txDone := fun _ => [] }

/-- The receive side of an interface. -/
def rxView (s : Router c) (n : Fin c) : RxSys :=
  ⟨s.nets n, s.rxDev n, s.allocs n, s.rxDone n, s.delivered n⟩

/-- The transmit side of an interface. -/
def txView (s : Router c) (n : Fin c) : TxSys := ⟨s.nets n, s.txDev n, s.posted n, s.txDone n⟩

def setRx (s : Router c) (n : Fin c) (r : RxSys) : Router c :=
  { s with
    nets := Function.update s.nets n r.net
    rxDev := Function.update s.rxDev n r.dev
    allocs := Function.update s.allocs n r.allocs
    rxDone := Function.update s.rxDone n r.done
    delivered := Function.update s.delivered n r.delivered }

def setTx (s : Router c) (n : Fin c) (t : TxSys) : Router c :=
  { s with
    nets := Function.update s.nets n t.net
    txDev := Function.update s.txDev n t.dev
    posted := Function.update s.posted n t.sent
    txDone := Function.update s.txDone n t.done }

/-- The interface as frames and tables refer to it. -/
def netif (s : Router c) (n : Fin c) : Netif := ⟨n.val, (s.nets n).macaddr⟩

/-- A block after a device has written to it. -/
def dmaWrite (bytes : List UInt8) (old : ℕ → UInt8) : ℕ → UInt8 := fun k => bytes.getD k (old k)

/-- The device of interface `n` writes into the oldest buffer it holds, and returns it. -/
def rxComplete (s : Router c) (n : Fin c) (bytes : List UInt8) : Router c :=
  match (s.rxDev n).inflight with
  | t :: _ =>
    { s.setRx n ((s.rxView n).complete (UInt32.ofNat bytes.length)) with
      ram := Function.update s.ram t.desc.addr (dmaWrite bytes (s.ram t.desc.addr))
      arrived := Function.update s.arrived n (s.arrived n ++ [bytes]) }
  | [] => s

/-- The frames of an interrupt, with what their blocks hold. -/
def frames (s : Router c) (n : Fin c) (bufs : List Buffer) : List DataFromNetif :=
  bufs.map fun b => ⟨s.netif n, { b with mem := s.ram b.getAddress }⟩

/-- The memory with the blocks of frames as the nodes have built them. -/
def writeBlocks (ram : UInt64 → ℕ → UInt8) (sent : List (Netif × Buffer)) : UInt64 → ℕ → UInt8 :=
  sent.foldl (fun ram x => Function.update ram x.2.getAddress x.2.mem) ram

/-- `ethernet-in` is called with a batch. -/
def process (s : Router c) (batch : List DataFromNetif) : Router c :=
  let o := ethernetIn txHeap s.world batch
  let sent := o.state.sent.drop s.world.sent.length
  { s with
    ram := writeBlocks s.ram sent
    world := o.state
    pending := sent
    halted := !o.isOk
    batches := s.batches ++ [batch] }

/-- The interrupt handler of interface `n`, up to the frames it sends. -/
def interrupt (s : Router c) (n : Fin c) (irqed : Bool) : Except Panic (Router c) :=
  ((s.nets n).interruptHandler (heap n) irqed (s.allocs n)).map fun r =>
    let s' := s.setRx n ⟨r.2.1, s.rxDev n, r.2.2, s.rxDone n, s.delivered n ++ r.1⟩
    if irqed then s'.process txHeap (s'.frames n r.1) else s'

def step (s : Router c) : RouterOp c → Except Panic (Router c)
  | .rxTake n => .ok (s.setRx n { s.rxView n with dev := (s.rxDev n).take (s.nets n).rxq })
  | .rxComplete n bytes => .ok (s.rxComplete n bytes)
  | .txTake n => .ok (s.setTx n { s.txView n with dev := (s.txDev n).take (s.nets n).txq })
  | .txComplete n i len => .ok (s.setTx n ((s.txView n).complete i len))
  | .interrupt n irqed =>
    if s.halted || !s.pending.isEmpty then .ok s else s.interrupt heap txHeap n irqed
  | .flush =>
    match s.pending with
    | (netif, buffer) :: rest =>
      if h : netif.id < c then
        ((s.txView ⟨netif.id, h⟩).step (.xmit buffer)).map fun t =>
          { s.setTx ⟨netif.id, h⟩ t with pending := rest }
      else .ok { s with pending := rest }
    | [] => .ok s

end Router

end Urchin
