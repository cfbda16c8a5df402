import Urchin.Proof.Ethernet
import Urchin.Proof.Xmit

/-!
# What becomes of the router's own addresses

`arp-in` registers the sender of every ARP packet in the /32 table, where the local
addresses live, and `register_ipv4_fib` overwrites. No other node writes that table.
So a local address stays local exactly as long as no ARP packet with it as sender
address has been accepted (`local_route_iff`); one such packet takes it away
(`local_route_taken`).
-/

namespace Urchin

open Exec Route

/-! ## The /32 table -/

theorem Ipv4Address.masked_32 (a : Ipv4Address) : a.masked 32 = a := by
  have hmask : (0xffffffff : UInt32) <<< (32 - (32 : UInt32)) = 0xffffffff := by decide
  unfold Ipv4Address.masked
  simp only [hmask]
  congr 1
  exact UInt32.and_neg_one

/-- A query for the whole address looks into the /32 table first. -/
theorem findIpv4Fib_host {fib : Ipv4Fib} {a : Ipv4Address} {e : ForwardInformationBaseIpv4}
    (h : fib 32 a = some e) : findIpv4Fib fib a 0xffffffff = some e := by
  unfold findIpv4Fib
  rw [show ipv4MaskToPrefixlen 0xffffffff = 32 by decide]
  rw [descend_eq_some]
  refine ⟨32, le_rfl, ?_, fun j h1 h2 => by omega⟩
  rw [show UInt32.ofNat 32 = 32 by decide, a.masked_32]
  exact h

theorem registerIpv4Fib_host (fib : Ipv4Fib) (ip : Ipv4Address) (mac : MacAddress) (nh : Ipv4Address)
    (netif : Netif) (t : FIBType) (i : ℕ) (a : Ipv4Address) :
    registerIpv4Fib fib ip 0xffffffff mac nh netif t i a =
      if i = 32 ∧ ip = a then some ⟨mac, nh, netif, t⟩ else fib i a := by
  unfold registerIpv4Fib
  rw [Tables.insert_apply, show ipv4MaskToPrefixlen 0xffffffff = 32 by decide]
  simp only [eq_comm]

/-! ## `arp-in` -/

/-- The sender's protocol address of an ARP packet. -/
def arpSender (f : DataFromNetif) : Ipv4Address := .fromArray (f.buffer.field 28 4)

/-- The sender's hardware address of an ARP packet. -/
def arpSenderMac (f : DataFromNetif) : MacAddress := .new (f.buffer.field 22 6)

/-- The target protocol address of an ARP packet. -/
def arpTarget (f : DataFromNetif) : Ipv4Address := .fromArray (f.buffer.field 38 4)

/-- The operation of an ARP packet, as it lies in memory. -/
def arpOper (f : DataFromNetif) : List UInt8 := [f.buffer.peek 20, f.buffer.peek 21]

/-- The state once the sender of a packet has been registered. -/
def ArpIn.learn (w : World) (f : DataFromNetif) : World := { w with
  ipv4Fib := registerIpv4Fib w.ipv4Fib (arpSender f) 0xffffffff (arpSenderMac f) (arpSender f) f.netif
    .AdjacentResolved
  ipv4Adjacent := registerIpv4Adjacent w.ipv4Adjacent (arpSender f) (arpSenderMac f) f.netif false none }

theorem ArpIn.learn_fib (w : World) (f : DataFromNetif) (i : ℕ) (a : Ipv4Address) :
    (ArpIn.learn w f).ipv4Fib i a = if i = 32 ∧ arpSender f = a then
      some ⟨arpSenderMac f, arpSender f, f.netif, .AdjacentResolved⟩ else w.ipv4Fib i a :=
  registerIpv4Fib_host ..

/-- A received packet is long enough: its sender is learnt, and a request for a local
address is answered. -/
theorem ArpIn.processFrame_eq (heap : ℕ → Block) (w : World) {f : DataFromNetif}
    (hf : VirtioNet.Received f.buffer) : ArpIn.processFrame heap w f =
      match (ArpIn.learn w f).ipv4Adjacent (arpTarget f) with
      | some adj =>
        if adj.isLocal then
          if arpOper f = leBytes 0x0100 then
            ArpIn.reply heap (ArpIn.learn w f) adj.netif (arpSenderMac f) (arpSender f) (arpTarget f)
          else .ok (ArpIn.learn w f)
        else .ok (ArpIn.learn w f)
      | none => .ok (ArpIn.learn w f) := by
  have hlen : 14 < f.buffer.sliceLen := by
    rcases hf.sliceLen with h | h <;> omega
  unfold ArpIn.processFrame
  rw [Buffer.read_ok hlen, attempt_ok]
  rfl

/-- The bytes of a reply: an Ethernet header and an ARP packet. -/
def ArpIn.replyBytes (netif : Netif) (srcMac : MacAddress) (srcIp destIp : Ipv4Address) : List UInt8 :=
  List.ofFn srcMac.getArray ++ List.ofFn netif.macaddr.getArray ++ [0x08, 0x06] ++
    (leBytes 0x0100 ++ leBytes 0x0008 ++ [6, 4] ++ leBytes 0x0200 ++
      List.ofFn netif.macaddr.getArray ++ List.ofFn destIp.getArray ++
      List.ofFn srcMac.getArray ++ List.ofFn srcIp.getArray)

/-- **A reply** always fits its buffer: one frame is transmitted, and the tables stay as
they are. -/
theorem ArpIn.reply_ok (heap : ℕ → Block) (w : World) (netif : Netif) (srcMac : MacAddress)
    (srcIp destIp : Ipv4Address) :
    ∃ r, ArpIn.reply heap w netif srcMac srcIp destIp = .ok (World.xmit { w with allocs := w.allocs + 1 } netif r) ∧
      r.position = 12 ∧ r.getSize = 54 ∧
      ∀ j < 42, r.peek j = (ArpIn.replyBytes netif srcMac srcIp destIp).getD j 0 := by
  obtain ⟨r, hr, hpos, hsize, -, hlen, -⟩ := preXmit_ok (14 + 28) (by decide) (heap w.allocs)
  unfold ArpIn.reply generateEtherHeader generateArpPacket
  simp only [hr, attempt_ok, Buffer.overlay_ok (show 0 < r.sliceLen by omega), bind, Except.bind]
  rw [Buffer.overlay_next r (by simp) (by omega), attempt_ok]
  refine ⟨_, rfl, hpos, hsize, ?_⟩
  intro j hj
  rw [Buffer.peek_poke]
  have hlen : (ArpIn.replyBytes netif srcMac srcIp destIp).length = 42 := by
    simp [ArpIn.replyBytes, leBytes]
  exact if_pos ⟨Nat.zero_le j, by rw [Nat.zero_add]; exact lt_of_lt_of_eq hj hlen.symm⟩

/-- **One ARP packet**: `arp-in` does not panic, and leaves the tables as they were after
learning the sender. -/
theorem ArpIn.processFrame_ok (heap : ℕ → Block) (w : World) {f : DataFromNetif}
    (hf : VirtioNet.Received f.buffer) : ∃ w', ArpIn.processFrame heap w f = .ok w' ∧
      w'.ipv4Fib = (ArpIn.learn w f).ipv4Fib ∧ w'.ipv4Adjacent = (ArpIn.learn w f).ipv4Adjacent ∧
      w'.ipv6Fib = w.ipv6Fib := by
  rw [ArpIn.processFrame_eq heap w hf]
  split
  · split
    · split
      · obtain ⟨r, hr, -⟩ := ArpIn.reply_ok heap (ArpIn.learn w f) _ _ _ _
        exact ⟨_, hr, rfl, rfl, rfl⟩
      · exact ⟨_, rfl, rfl, rfl, rfl⟩
    · exact ⟨_, rfl, rfl, rfl, rfl⟩
  · exact ⟨_, rfl, rfl, rfl, rfl⟩

/-! ## The invariant -/

/-- The /32 entry of `a` is a local one. -/
def IsLocal (a : Ipv4Address) (w : World) : Prop := ∃ e, w.ipv4Fib 32 a = some e ∧ e.fibType = .Local

instance (a : Ipv4Address) (w : World) : Decidable (IsLocal a w) :=
  match h : w.ipv4Fib 32 a with
  | none => .isFalse (by rintro ⟨e, he, -⟩; rw [h] at he; cases he)
  | some e => decidable_of_iff (e.fibType = .Local)
      ⟨fun ht => ⟨e, h, ht⟩, by rintro ⟨e', he, ht⟩; rw [h, Option.some.injEq] at he; rw [he]; exact ht⟩

theorem IsLocal.of_fib_eq {a : Ipv4Address} {w w' : World} (h : w'.ipv4Fib = w.ipv4Fib) :
    IsLocal a w' ↔ IsLocal a w := by
  unfold IsLocal
  rw [h]

/-- A batch of ARP packets: `a` stays local exactly if none of them has it as sender. -/
theorem ArpIn.process_local (heap : ℕ → Block) (a : Ipv4Address) (w : World) (b : List DataFromNetif)
    (hb : ∀ f ∈ b, VirtioNet.Received f.buffer) : ∃ w', ArpIn.process heap w b = .ok w' ∧
      (IsLocal a w' ↔ IsLocal a w ∧ ∀ f ∈ b, arpSender f ≠ a) := by
  have hok : (ArpIn.process heap w b).isOk = true := by
    refine (forEach_isOk (C := fun _ => True) b (fun f hf w => ?_) w).2 fun _ _ => trivial
    obtain ⟨w', hw', -⟩ := ArpIn.processFrame_ok heap w (hb f hf)
    rw [hw']
    simp [Outcome.isOk]
  have hiff := forEach_iff (I := fun _ => True) (Q := IsLocal a) (C := fun f => arpSender f ≠ a)
    (f := ArpIn.processFrame heap) b (fun f hf w _ => ?_) w trivial
  · cases h : ArpIn.process heap w b with
    | panic p w' => rw [h] at hok; cases hok
    | ok w' =>
      unfold ArpIn.process at h
      rw [h, reached_of_ok b h] at hiff
      exact ⟨w', rfl, hiff⟩
  · obtain ⟨w', hw', hfib, -⟩ := ArpIn.processFrame_ok heap w (hb f hf)
    rw [hw']
    refine ⟨trivial, ?_⟩
    unfold IsLocal
    rw [Outcome.state_ok, hfib, ArpIn.learn_fib]
    by_cases hs : arpSender f = a
    · -- the local entry is overwritten
      rw [if_pos ⟨rfl, hs⟩]
      constructor
      · rintro ⟨e, he, ht⟩
        rw [Option.some.injEq] at he
        rw [← he] at ht
        cases ht
      · rintro ⟨-, hne⟩
        exact absurd hs hne
    · rw [if_neg fun h => hs h.2]
      exact ⟨fun h => ⟨h, hs⟩, fun h => h.1⟩

/-- **One batch**: `a` stays local exactly if no accepted ARP packet of the batch has
it as sender, whether or not a later node panics. -/
theorem ethernetIn_local (heap : ℕ → Block) {S : List MacAddress} (a : Ipv4Address) {w : World}
    (h : LocalSet S w.macAddrTable) {b : List DataFromNetif} (hb : ∀ f ∈ b, VirtioNet.Received f.buffer) :
    IsLocal a (ethernetIn heap w b).state ↔
      IsLocal a w ∧ ∀ f ∈ b, accepted S [0x08, 0x06] f = true → arpSender f ≠ a := by
  have hlen : ∀ f ∈ b, 0 < f.buffer.sliceLen := by
    intro f hf
    rcases (hb f hf).sliceLen with h | h <;> omega
  obtain ⟨t, -, hproc⟩ := EthernetIn.process_ok h hlen
  set F := b.filter (accepted S [0x08, 0x06]) with hF
  have hmem : (∀ f ∈ F, arpSender f ≠ a) ↔ ∀ f ∈ b, accepted S [0x08, 0x06] f = true → arpSender f ≠ a := by
    simp only [hF, List.mem_filter, and_imp]
  obtain ⟨w₁, hw₁, hiff⟩ : ∃ w₁, ProcessingNode.call (ArpIn.process heap) { w with macAddrTable := t } F = .ok w₁ ∧
      (IsLocal a w₁ ↔ IsLocal a w ∧ ∀ f ∈ F, arpSender f ≠ a) := by
    unfold ProcessingNode.call
    split
    · obtain ⟨w₁, hw₁, hiff⟩ := ArpIn.process_local heap a { w with macAddrTable := t } F
        fun f hf => hb f (List.mem_of_mem_filter hf)
      exact ⟨w₁, hw₁, hiff⟩
    · rename_i hF0
      have hnil : F = [] := List.eq_nil_of_length_eq_zero (by omega)
      refine ⟨_, rfl, ?_⟩
      rw [hnil]
      exact ⟨fun h => ⟨h, by simp⟩, fun h => h.1⟩
  -- the IP nodes leave the table as `arp-in` left it
  have hkeep : w₁.Keeps (ethernetIn heap w b).state := by
    unfold ethernetIn
    rw [hproc, hw₁, Outcome.bind_ok]
    exact Outcome.bind_inv (.of_tables (Ipv4In.call_tables heap w₁ _))
      fun w₂ hw₂ => hw₂.trans (.of_tables (Ipv6In.call_tables heap w₂ _))
  rw [IsLocal.of_fib_eq hkeep.fib, hiff, hmem]

/-- **A local address stays local exactly as long as nobody claims it by ARP.** After
start-up with `a` local, and for every sequence of batches of received frames: the
query for `a` returns a local entry of `a` if and only if no frame that
`ethernet-in` got to is an accepted ARP packet with `a` as its sender. -/
theorem local_route_iff (heap : ℕ → Block) {ifs : List Interface} {w₀ : World}
    (hstart : World.start ifs = .ok w₀) {a : Ipv4Address} (ha : IsLocal a w₀)
    {batches : List (List DataFromNetif)}
    (hrx : ∀ b ∈ batches, ∀ f ∈ b, VirtioNet.Received f.buffer) :
    (∃ e, findIpv4Fib (w₀.after heap batches).ipv4Fib a 0xffffffff = some e ∧
      (w₀.after heap batches).ipv4Fib 32 a = some e ∧ e.fibType = .Local) ↔
    ∀ b ∈ reached (ethernetIn heap) w₀ batches, ∀ f ∈ b,
      accepted (World.localMacs ifs) [0x08, 0x06] f = true → arpSender f ≠ a := by
  obtain ⟨w₁, hw₁, hs⟩ := World.start_ok ifs
  rw [hstart, Except.ok.injEq] at hw₁
  subst hw₁
  have hfind : (∃ e, findIpv4Fib (w₀.after heap batches).ipv4Fib a 0xffffffff = some e ∧
      (w₀.after heap batches).ipv4Fib 32 a = some e ∧ e.fibType = .Local) ↔
      IsLocal a (w₀.after heap batches) :=
    ⟨fun ⟨e, _, h1, h2⟩ => ⟨e, h1, h2⟩, fun ⟨e, h1, h2⟩ => ⟨e, findIpv4Fib_host h1, h1, h2⟩⟩
  rw [hfind]
  have hiff := forEach_iff (I := fun w : World => LocalSet (World.localMacs ifs) w.macAddrTable)
    (Q := IsLocal a) (f := ethernetIn heap) batches
    (fun b hb w hw => ⟨hw.ethernetIn heap b, ethernetIn_local heap a hw (hrx b hb)⟩) w₀ hs.localSet
  exact hiff.trans ⟨fun h => h.2, fun h => ⟨ha, h⟩⟩

/-- The state of `start_rust`, with two MAC addresses. -/
def World.test : World :=
  match World.startRust (.new ![2, 0, 0, 0, 0, 1]) (.new ![2, 0, 0, 0, 0, 2]) with
  | .ok w => w
  | .error _ => World.empty

theorem World.test_eq : World.start World.testIfs = .ok World.test := rfl

/-- An ARP announcement of an address, broadcast on the first interface. -/
def arpAnnouncement (a b c d : UInt8) : DataFromNetif :=
  .ofBytes ⟨0, .new ![2, 0, 0, 0, 0, 1]⟩
    ([0xff, 0xff, 0xff, 0xff, 0xff, 0xff, 4, 0, 0, 0, 0, 9, 0x08, 0x06] ++
      [0, 1, 8, 0, 6, 4, 0, 1, 4, 0, 0, 0, 0, 9, a, b, c, d, 0, 0, 0, 0, 0, 0, a, b, c, d])

/-- An announcement of a neighbour's address leaves the own address alone. -/
theorem local_route_iff_neighbour :
    ∃ e, findIpv4Fib (World.test.after pages [[arpAnnouncement 192 168 0 20]]).ipv4Fib
      (.fromArray ![192, 168, 0, 10]) 0xffffffff = some e ∧
      (World.test.after pages [[arpAnnouncement 192 168 0 20]]).ipv4Fib 32
        (.fromArray ![192, 168, 0, 10]) = some e ∧ e.fibType = .Local := by
  have hrx : ∀ b ∈ [[arpAnnouncement 192 168 0 20]], ∀ f ∈ b, VirtioNet.Received f.buffer := by
    intro b hb f hf
    rw [List.mem_singleton.1 hb] at hf
    rw [List.mem_singleton.1 hf]
    exact DataFromNetif.ofBytes_received _ _
  refine (local_route_iff pages World.test_eq (by decide +kernel) hrx).2 ?_
  intro b hb f hf _
  rw [List.mem_singleton.1 (mem_of_mem_reached _ hb)] at hf
  rw [List.mem_singleton.1 hf]
  decide +kernel

/-- An announcement of the own address takes it away. -/
theorem local_route_taken : World.start World.testIfs = .ok World.test ∧
    (findIpv4Fib World.test.ipv4Fib (.fromArray ![192, 168, 0, 10]) 0xffffffff).map
      ForwardInformationBase.fibType = some .Local ∧
    (findIpv4Fib (World.test.after pages [[arpAnnouncement 192 168 0 10]]).ipv4Fib
      (.fromArray ![192, 168, 0, 10]) 0xffffffff).map ForwardInformationBase.fibType =
      some .AdjacentResolved := by
  refine ⟨World.test_eq, by decide +kernel, by decide +kernel⟩

end Urchin
