import Urchin.Spec.World

/-!
# The processing nodes (`net/ethernet.rs`, `net/arp.rs`, `net/ipv4.rs`, `net/ipv6.rs`)

`ethernet-in` learns source addresses and sorts the frames of a batch for `arp-in`,
`ipv4-in` and `ipv6-in`; these two collect ICMP packets for `icmpv4-in-local` and
`icmpv6-in-local`, which answer echo requests. A node that hands frames on takes the
next nodes as parameters. `heap` is the allocator's sequence of answers.

Header fields are read through a packed struct laid over the slice at an offset: the
offset is checked, the bytes behind it are not.
-/

namespace Urchin

open Exec

/-- A node is called only with frames to process. -/
def ProcessingNode.call (node : ProcessingNode) (w : World) (pkts : List DataFromNetif) : Outcome World :=
  if pkts.length > 0 then node w pkts else .ok w

/-! ## `ethernet-in` -/

namespace EthernetIn

/-- The variables of the loop. -/
structure LoopState where
  world : World
  arpPkts : List DataFromNetif
  ipv4Pkts : List DataFromNetif
  ipv6Pkts : List DataFromNetif

/-- The closure `proc_frame`. -/
def procFrame (s : LoopState) (frame : DataFromNetif) : LoopState :=
  let frameType := [frame.buffer.peek 12, frame.buffer.peek 13]
  if frameType = [0x08, 0x06] then { s with arpPkts := s.arpPkts ++ [frame] }
  else if frameType = [0x08, 0x00] then { s with ipv4Pkts := s.ipv4Pkts ++ [frame] }
  else if frameType = [0x81, 0x00] then s
  else if frameType = [0x86, 0xDD] then { s with ipv6Pkts := s.ipv6Pkts ++ [frame] }
  else s

/-- One frame: its source address is learnt, and it is kept if it is for us. -/
def processFrame (s : LoopState) (frame : DataFromNetif) : Outcome LoopState :=
  attempt s (frame.buffer.read 0) fun _ =>
    let destAddr := frame.buffer.field 0 6
    let srcAddr := frame.buffer.field 6 6
    let mactable := registerMacaddress s.world.macAddrTable (.new srcAddr) frame.netif false none
    let s := { s with world := { s.world with macAddrTable := mactable } }
    if destAddr = fun _ => 0xff then .ok (procFrame s frame)
    else
      match mactable (.new destAddr) with
      | some adj => if adj.isLocal then .ok (procFrame s frame) else .ok s
      | none => .ok s

/-- `EthernetIn::process`. -/
def process (arpIn ipv4In ipv6In : ProcessingNode) (w : World) (buff : List DataFromNetif) :
    Outcome World :=
  match forEach processFrame ⟨w, [], [], []⟩ buff with
  | .panic p s => .panic p s.world
  | .ok s =>
    ((arpIn.call s.world s.arpPkts).bind fun w => ipv4In.call w s.ipv4Pkts).bind fun w =>
      ipv6In.call w s.ipv6Pkts

end EthernetIn

/-! ## `arp-in` -/

namespace ArpIn

/-- The reply to a request for `destIp`, an address of `netif`. -/
def reply (heap : ℕ → Block) (w : World) (netif : Netif) (srcMac : MacAddress)
    (srcIp destIp : Ipv4Address) : Outcome World :=
  attempt w (VirtioNet.preXmit (14 + 28) (heap w.allocs)) fun respbuff =>
    let w := { w with allocs := w.allocs + 1 }
    attempt w (do
      let respslice ← generateEtherHeader respbuff 0 netif.macaddr srcMac [0x08, 0x06]
      generateArpPacket respslice 14 0x0200 netif.macaddr destIp srcMac srcIp) fun respbuff =>
      .ok (w.xmit netif respbuff)

/-- One frame. The operation is a `u16` read as it lies in memory. -/
def processFrame (heap : ℕ → Block) (w : World) (frame : DataFromNetif) : Outcome World :=
  attempt w (frame.buffer.read 14) fun _ =>
    let oper := [frame.buffer.peek 20, frame.buffer.peek 21]
    let srcMac := MacAddress.new (frame.buffer.field 22 6)
    let srcIp := Ipv4Address.fromArray (frame.buffer.field 28 4)
    let destIp := Ipv4Address.fromArray (frame.buffer.field 38 4)
    let w := { w with
      ipv4Fib := registerIpv4Fib w.ipv4Fib srcIp 0xffffffff srcMac srcIp frame.netif .AdjacentResolved
      ipv4Adjacent := registerIpv4Adjacent w.ipv4Adjacent srcIp srcMac frame.netif false none }
    match w.ipv4Adjacent destIp with
    | some adj =>
      if adj.isLocal then
        if oper = leBytes 0x0100 then reply heap w adj.netif srcMac srcIp destIp else .ok w
      else .ok w
    | none => .ok w

/-- `ArpIn::process`. -/
def process (heap : ℕ → Block) : ProcessingNode := forEach (processFrame heap)

end ArpIn

/-- The variables of the loops of `ipv4-in` and `ipv6-in`. -/
structure IpLoopState where
  world : World
  icmpPkts : List DataFromNetif

/-- The hand-over at the end of a round: it is inside the loop, and the packets
collected so far stay collected. -/
def IpLoopState.handOver (s : IpLoopState) (icmpIn : ProcessingNode) : Outcome IpLoopState :=
  match icmpIn.call s.world s.icmpPkts with
  | .ok w => .ok { s with world := w }
  | .panic p w => .panic p { s with world := w }

/-- The state the loop leaves, without its own variables. -/
def IpLoopState.finish : Outcome IpLoopState → Outcome World
  | .ok s => .ok s.world
  | .panic p s => .panic p s.world

/-! ## `ipv4-in` -/

namespace Ipv4In

/-- One frame. -/
def processFrame (icmpIn : ProcessingNode) (s : IpLoopState) (frame : DataFromNetif) :
    Outcome IpLoopState :=
  attempt s (frame.buffer.read 14) fun versionAndIhl =>
    let destIpAddr := Ipv4Address.fromArray (frame.buffer.field 30 4)
    -- `continue` skips the hand-over
    if versionAndIhl &&& 0xf0 ≠ 0x40 then .ok s
    else
      let s := match findIpv4Fib s.world.ipv4Fib destIpAddr 0xffffffff with
        | some fib =>
          match fib.fibType with
          | .Local =>
            if frame.buffer.peek 23 = 0x01 then { s with icmpPkts := s.icmpPkts ++ [frame] } else s
          | .Adjacent | .AdjacentResolved | .Remote => s
        | none => s
      s.handOver icmpIn

/-- `Ipv4In::process`. -/
def process (icmpIn : ProcessingNode) (w : World) (buff : List DataFromNetif) : Outcome World :=
  IpLoopState.finish (forEach (processFrame icmpIn) ⟨w, []⟩ buff)

end Ipv4In

/-! ## `icmpv4-in-local` -/

namespace Icmpv4InLocal

/-- The header length the packet claims, in bytes. -/
def headerLen (slice : Buffer) : UInt64 := (slice.peek 14 &&& 0x0f).toUInt64 * 4

/-- The total length the packet claims. -/
def totalLen (slice : Buffer) : UInt64 := (slice.peek 16).toUInt64 <<< 8 ||| (slice.peek 17).toUInt64

/-- The ICMP length of an echo request, in `usize` arithmetic. -/
def length (slice : Buffer) : UInt64 := totalLen slice - headerLen slice

/-- The echo reply, built in a transmit buffer. -/
def echoReply (netif : Netif) (slice respbuff : Buffer) : Except Panic Buffer := do
  let icmp := 14 + (headerLen slice).toNat
  let stop := 14 + 20 + length slice
  let destMac ← slice.array 6 6
  let r ← generateEtherHeader respbuff 0 netif.macaddr (.new destMac) [0x08, 0x00]
  let r ← generateIpv4Header r 14 (slice.field 16 2) 0x01
    (.fromArray (slice.field 30 4)) (.fromArray (slice.field 26 4))
  -- type, code, checksum, identifier, sequence
  let r ← r.overlay 34 ([0x00, 0x00] ++ leBytes 0 ++
    [slice.peek (icmp + 4), slice.peek (icmp + 5), slice.peek (icmp + 6), slice.peek (icmp + 7)])
  let r ← copyLoop slice 42 stop.toNat r
  let csumIcmp ← csumLoop r 17 (stop / 2).toNat 0
  let r := r.poke 36 (leBytes (csumField (csumFold csumIcmp)))
  let csumIpv4 ← csumLoop r 7 (stop / 2).toNat 0
  let r ← r.write 24 (csumFold csumIpv4 >>> 8).toUInt8
  r.write 25 (csumFold csumIpv4).toUInt8

/-- One frame. -/
def processFrame (heap : ℕ → Block) (w : World) (frame : DataFromNetif) : Outcome World :=
  let slice := frame.buffer
  attempt w (slice.read 14) fun _ =>
  attempt w (slice.read (14 + (headerLen slice).toNat)) fun icmpType =>
    if icmpType = 0x08 then
      attempt w (VirtioNet.preXmit (14 + 20 + length slice) (heap w.allocs)) fun respbuff =>
        let w := { w with allocs := w.allocs + 1 }
        attempt w (echoReply frame.netif slice respbuff) fun respbuff => .ok (w.xmit frame.netif respbuff)
    else .ok w

/-- `Icmpv4InLocal::process`. -/
def process (heap : ℕ → Block) : ProcessingNode := forEach (processFrame heap)

end Icmpv4InLocal

/-! ## `ipv6-in` -/

namespace Ipv6In

/-- One frame. -/
def processFrame (icmpIn : ProcessingNode) (s : IpLoopState) (frame : DataFromNetif) :
    Outcome IpLoopState :=
  attempt s (frame.buffer.read 14) fun versionAndTch =>
    let destIpAddr := Ipv6Address.fromArray (frame.buffer.field 38 16)
    -- `continue` skips the hand-over
    if versionAndTch &&& 0xf0 ≠ 0x60 then .ok s
    else attempt s (findIpv6Fib s.world.ipv6Fib destIpAddr 128) fun found =>
      let s := match found with
        | some fib =>
          match fib.fibType with
          | .Local =>
            if frame.buffer.peek 20 = 58 then { s with icmpPkts := s.icmpPkts ++ [frame] } else s
          | .Adjacent | .AdjacentResolved | .Remote => s
        | none => s
      s.handOver icmpIn

/-- `Ipv6In::process`. -/
def process (icmpIn : ProcessingNode) (w : World) (buff : List DataFromNetif) : Outcome World :=
  IpLoopState.finish (forEach (processFrame icmpIn) ⟨w, []⟩ buff)

end Ipv6In

/-! ## `icmpv6-in-local` -/

namespace Icmpv6InLocal

/-- The payload length the packet claims. -/
def length (slice : Buffer) : UInt64 := (slice.peek 18).toUInt64 <<< 8 ||| (slice.peek 19).toUInt64

/-- The sum of the pseudo header: the fixed source address, the request's source
address, the length and the protocol. -/
def pseudoHeader (slice : Buffer) : UInt32 :=
  let csum : UInt32 := (List.range 8).foldl (fun csum _ => csum + ((0x2 : UInt32) <<< 8 ||| 0x02)) 0
  let csum : UInt32 := (List.range 8).foldl (fun csum i =>
    csum + ((slice.peek (22 + i * 2)).toUInt32 <<< 8 ||| (slice.peek (22 + i * 2 + 1)).toUInt32)) csum
  csum + (length slice).toUInt32 + 58

/-- The echo reply, built in a transmit buffer. -/
def echoReply (netif : Netif) (slice respbuff : Buffer) : Except Panic Buffer := do
  let stop := 14 + 40 + length slice
  let destMac ← slice.array 6 6
  let r ← generateEtherHeader respbuff 0 netif.macaddr (.new destMac) [0x86, 0xdd]
  let r ← generateIpv6Header r 14 (slice.field 18 2) 58
    (.fromArray fun _ => 0x02) (.fromArray (slice.field 22 16))
  -- type, code, checksum, identifier, sequence
  let r ← r.overlay 54 ([0x81, slice.peek 55] ++ leBytes 0 ++
    [slice.peek 58, slice.peek 59, slice.peek 60, slice.peek 61])
  let r ← copyLoop slice 62 stop.toNat r
  let csumIcmp ← csumLoop r 27 (stop / 2).toNat (pseudoHeader slice)
  .ok (r.poke 56 (leBytes (csumField (csumFold csumIcmp))))

/-- A neighbor advertisement: the target's address and link-layer address are
registered, under a prefix length that has no table. -/
def neighborAdvertisement (w : World) (frame : DataFromNetif) : Outcome World :=
  let slice := frame.buffer
  attempt w (slice.array 62 4) fun _ =>
  attempt w (slice.array 84 6) fun mac =>
  attempt w (slice.array 66 16) fun ip =>
    let srcMac := MacAddress.new mac
    let srcIp := Ipv6Address.fromArray ip
    attempt w (registerIpv6Fib w.ipv6Fib srcIp 0xffffffff srcMac srcIp frame.netif .AdjacentResolved) fun fib =>
      .ok { w with
        ipv6Fib := fib
        ipv6Adjacent := registerIpv6Adjacent w.ipv6Adjacent srcIp srcMac frame.netif false none }

/-- One frame. -/
def processFrame (heap : ℕ → Block) (w : World) (frame : DataFromNetif) : Outcome World :=
  let slice := frame.buffer
  attempt w (slice.read 14) fun _ =>
  attempt w (slice.read 54) fun icmpType =>
    if icmpType = 0x80 then
      attempt w (VirtioNet.preXmit (14 + 40 + length slice) (heap w.allocs)) fun respbuff =>
        let w := { w with allocs := w.allocs + 1 }
        attempt w (echoReply frame.netif slice respbuff) fun respbuff => .ok (w.xmit frame.netif respbuff)
    else if icmpType = 0x88 then neighborAdvertisement w frame
    else .ok w

/-- `Icmpv6InLocal::process`. -/
def process (heap : ℕ → Block) : ProcessingNode := forEach (processFrame heap)

end Icmpv6InLocal

/-- `ethernet-in` with the nodes that `start_rust` registers behind it. -/
def ethernetIn (heap : ℕ → Block) : ProcessingNode :=
  EthernetIn.process (ArpIn.process heap) (Ipv4In.process (Icmpv4InLocal.process heap))
    (Ipv6In.process (Icmpv6InLocal.process heap))

/-- The state after a sequence of batches. A batch that panics is the last one. -/
def World.after (heap : ℕ → Block) (w : World) (batches : List (List DataFromNetif)) : World :=
  (forEach (ethernetIn heap) w batches).state

end Urchin
