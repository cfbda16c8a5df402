import Urchin.Proof.LocalRoute

/-!
# Neighbours learnt by ARP

`arp-in` registers the sender of every packet in two tables. The /32 table takes the last
packet; the adjacency table takes the first one, since it is registered without an expiry
time and so is permanent (`Learnt`). The two agree on a neighbour exactly if its first
and its last packet name the same MAC address on the same interface
(`neighbours_agree_iff`); a host that changes its network card splits them
(`neighbour_moved`).

The second part follows a request and its reply through two routers (`arp_exchange`).
-/

namespace Urchin

open Exec Route

/-! ## What has been learnt -/

/-- The frames of a list that come from `x`. -/
def sentBy (x : Ipv4Address) (frames : List DataFromNetif) : List DataFromNetif :=
  frames.filter fun f => arpSender f = x

theorem sentBy_concat_self {x : Ipv4Address} {f : DataFromNetif} (h : arpSender f = x) (frames : List DataFromNetif) :
    sentBy x (frames ++ [f]) = sentBy x frames ++ [f] := by simp [sentBy, h]

theorem sentBy_concat_ne {x : Ipv4Address} {f : DataFromNetif} (h : arpSender f ≠ x) (frames : List DataFromNetif) :
    sentBy x (frames ++ [f]) = sentBy x frames := by simp [sentBy, h]

/-- The route and the adjacency that a packet gives its sender. -/
def learntRoute (f : DataFromNetif) : ForwardInformationBaseIpv4 :=
  ⟨arpSenderMac f, arpSender f, f.netif, .AdjacentResolved⟩

def learntAdjacent (f : DataFromNetif) : AdjacentInformation := ⟨arpSenderMac f, f.netif, false, none⟩

/-- The entries of `x` after `frames`: the route of the last frame from `x`, and the
adjacency of the first. -/
structure Learnt (w₀ : World) (x : Ipv4Address) (frames : List DataFromNetif) (w : World) : Prop where
  route : w.ipv4Fib 32 x = (((sentBy x frames).getLast?.map learntRoute).or (w₀.ipv4Fib 32 x))
  adjacent : w.ipv4Adjacent x = (sentBy x frames).head?.map learntAdjacent

namespace Learnt

variable {w₀ w : World} {x : Ipv4Address} {frames : List DataFromNetif}

/-- **One more frame.** -/
theorem processFrame (h : Learnt w₀ x frames w) (heap : ℕ → Block) {f : DataFromNetif}
    (hf : VirtioNet.Received f.buffer) :
    ∃ w', ArpIn.processFrame heap w f = .ok w' ∧ Learnt w₀ x (frames ++ [f]) w' := by
  obtain ⟨w', hw', hfib, hadj, -⟩ := ArpIn.processFrame_ok heap w hf
  refine ⟨w', hw', ?_, ?_⟩
  · rw [hfib, ArpIn.learn_fib]
    by_cases hs : arpSender f = x
    · rw [if_pos ⟨rfl, hs⟩, sentBy_concat_self hs]
      simp [learntRoute]
    · rw [if_neg fun h => hs h.2, sentBy_concat_ne hs]
      exact h.route
  · rw [hadj]
    unfold ArpIn.learn registerIpv4Adjacent
    simp only
    by_cases hs : arpSender f = x
    · rw [sentBy_concat_self hs, hs]
      have hx := h.adjacent
      cases hfirst : (sentBy x frames).head? with
      | some g =>
        -- the entry of the first frame is permanent
        rw [hfirst] at hx
        rw [registerAdjacent_permanent hx rfl, hx, List.head?_append_of_ne_nil]
        · rw [hfirst]
        · rintro hnil
          rw [hnil] at hfirst
          cases hfirst
      | none =>
        rw [hfirst] at hx
        rw [registerAdjacent_replaces (by rw [hx]; simp), Function.update_self, List.head?_eq_none_iff.1 hfirst]
        rfl
    · rw [sentBy_concat_ne hs, ← h.adjacent]
      exact registerAdjacent_of_ne (Ne.symm hs)

/-- **Whole batches.** -/
theorem process (h : Learnt w₀ x [] w) (heap : ℕ → Block) {batches : List (List DataFromNetif)}
    (hrx : ∀ b ∈ batches, ∀ f ∈ b, VirtioNet.Received f.buffer) :
    ∃ w', forEach (ArpIn.process heap) w batches = .ok w' ∧ Learnt w₀ x batches.flatten w' := by
  have key := forEach_ok (P := fun done w => Learnt w₀ x done.flatten w) (f := ArpIn.process heap) batches
    (fun b hb done w hw => by
      obtain ⟨w', hw', hl⟩ := forEach_ok (P := fun frames w => Learnt w₀ x frames w) b
        (fun f hf frames w hw => hw.processFrame heap (hrx b hb f hf)) done.flatten w hw
      exact ⟨w', hw', by simpa using hl⟩) [] w h
  simpa using key

end Learnt

/-! ## Start-up -/

/-- Nothing has been learnt about `x`. -/
structure Unlearnt (x : Ipv4Address) (w : World) : Prop where
  adjacent : w.ipv4Adjacent x = none
  route : ∀ e, w.ipv4Fib 32 x = some e → e.fibType ≠ .AdjacentResolved

theorem Unlearnt.setupVirtioNet {x : Ipv4Address} {w : World} (h : Unlearnt x w) {i : Interface}
    (hx : i.ipv4addr ≠ x) : ∃ w', w.setupVirtioNet i = .ok w' ∧ Unlearnt x w' := by
  obtain ⟨w', hw', hadj, hfib⟩ := w.setupVirtioNet_ipv4 i
  refine ⟨w', hw', ?_, ?_⟩
  · rw [hadj, registerAdjacent_of_ne (Ne.symm hx)]
    exact h.adjacent
  -- the subnet may have the length of a host, but it is not resolved
  intro e he
  rw [hfib] at he
  unfold registerIpv4Fib at he
  rw [Tables.insert_apply] at he
  split at he
  · rw [← Option.some.inj he]
    simp
  · rw [Tables.insert_apply] at he
    split at he
    · rw [← Option.some.inj he]
      simp
    · exact h.route e he

theorem World.start_unlearnt {ifs : List Interface} {x : Ipv4Address} (hx : x ∉ ifs.map Interface.ipv4addr)
    {w₀ : World} (h : World.start ifs = .ok w₀) : Unlearnt x w₀ := by
  refine World.start_inv (P := fun _ w => Unlearnt x w) h (fun i hi _ w hw => ?_) ⟨rfl, by simp [World.empty, Tables.empty]⟩
  exact hw.setupVirtioNet fun he => hx (he ▸ List.mem_map_of_mem hi)

/-! ## Agreement -/

/-- The adjacency table has an entry for `x` exactly if the /32 table has a resolved one,
and they name the same MAC address and interface. -/
structure NeighbourAgrees (x : Ipv4Address) (w : World) : Prop where
  both : (w.ipv4Adjacent x).isSome ↔ ∃ e, w.ipv4Fib 32 x = some e ∧ e.fibType = .AdjacentResolved
  same : ∀ adj e, w.ipv4Adjacent x = some adj → w.ipv4Fib 32 x = some e → e.fibType = .AdjacentResolved →
    adj.macAddress = e.nexthopMacaddress ∧ adj.netif = e.netif

theorem Learnt.agrees_iff {w₀ w : World} {x : Ipv4Address} {frames : List DataFromNetif}
    (h : Learnt w₀ x frames w) (h₀ : Unlearnt x w₀) : NeighbourAgrees x w ↔
      ∀ f g, (sentBy x frames).head? = some f → (sentBy x frames).getLast? = some g →
        arpSenderMac f = arpSenderMac g ∧ f.netif = g.netif := by
  have hadj := h.adjacent
  have hroute := h.route
  cases hfs : sentBy x frames with
  | nil =>
    -- no frame from `x`: neither table has learnt it
    rw [hfs] at hadj hroute
    have hroute : w.ipv4Fib 32 x = w₀.ipv4Fib 32 x := hroute
    have hadj : w.ipv4Adjacent x = none := hadj
    refine ⟨fun _ f g hf => (by cases hf), fun _ => ⟨?_, ?_⟩⟩
    · rw [hadj, hroute]
      refine ⟨fun hs => (by cases hs), ?_⟩
      rintro ⟨e, he, ht⟩
      exact absurd ht (h₀.route e he)
    · intro adj e ha
      rw [hadj] at ha
      cases ha
  | cons f fs =>
    rw [hfs] at hadj hroute
    have hadj : w.ipv4Adjacent x = some (learntAdjacent f) := hadj
    obtain ⟨g, hg⟩ : ∃ g, (f :: fs).getLast? = some g := ⟨_, List.getLast?_eq_some_getLast (by simp)⟩
    rw [hg] at hroute
    have hroute : w.ipv4Fib 32 x = some (learntRoute g) := hroute
    rw [hg]
    constructor
    · rintro hagree _ _ ⟨⟩ ⟨⟩
      exact hagree.same _ _ hadj hroute rfl
    · intro hsame
      obtain ⟨hmac, hnet⟩ := hsame f g rfl rfl
      refine ⟨?_, ?_⟩
      · rw [hadj, hroute]
        exact ⟨fun _ => ⟨_, rfl, rfl⟩, fun _ => rfl⟩
      · intro adj e ha he _
        rw [hadj] at ha
        rw [hroute] at he
        rw [← Option.some.inj ha, ← Option.some.inj he]
        exact ⟨hmac, hnet⟩

/-- **When the two tables agree on a neighbour.** After start-up and for every sequence
of batches of ARP packets, and every address that is not the router's own: the tables
agree on it if and only if the first and the last packet it was the sender of name the
same MAC address and came in on the same interface. -/
theorem neighbours_agree_iff (heap : ℕ → Block) {ifs : List Interface} {w₀ : World}
    (hstart : World.start ifs = .ok w₀) {batches : List (List DataFromNetif)}
    (hrx : ∀ b ∈ batches, ∀ f ∈ b, VirtioNet.Received f.buffer) :
    ∃ w, forEach (ArpIn.process heap) w₀ batches = .ok w ∧
      ∀ x, x ∉ ifs.map Interface.ipv4addr → (NeighbourAgrees x w ↔
        ∀ f g, (sentBy x batches.flatten).head? = some f → (sentBy x batches.flatten).getLast? = some g →
          arpSenderMac f = arpSenderMac g ∧ f.netif = g.netif) := by
  have key : ∀ x, x ∉ ifs.map Interface.ipv4addr → ∃ w', forEach (ArpIn.process heap) w₀ batches = .ok w' ∧
      Learnt w₀ x batches.flatten w' := by
    intro x hx
    have h₀ := World.start_unlearnt hx hstart
    exact Learnt.process ⟨rfl, h₀.adjacent⟩ heap hrx
  have hok : ∃ w, forEach (ArpIn.process heap) w₀ batches = .ok w := by
    obtain ⟨w, hw, -⟩ := forEach_ok (P := fun _ _ => True) (f := ArpIn.process heap) batches
      (fun b hb _ w _ => by
        obtain ⟨w', hw', -⟩ := ArpIn.process_local heap ⟨0⟩ w b (hrx b hb)
        exact ⟨w', hw', trivial⟩) [] w₀ trivial
    exact ⟨w, hw⟩
  obtain ⟨w, hw⟩ := hok
  refine ⟨w, hw, fun x hx => ?_⟩
  obtain ⟨w', hw', hl⟩ := key x hx
  rw [hw] at hw'
  obtain ⟨⟩ := hw'
  exact hl.agrees_iff (World.start_unlearnt hx hstart)

/-- An ARP announcement of `192.168.0.20` by the network card `card`. -/
def announcement (card : UInt8) : DataFromNetif :=
  .ofBytes ⟨0, .new ![2, 0, 0, 0, 0, 1]⟩
    ([0xff, 0xff, 0xff, 0xff, 0xff, 0xff, 4, 0, 0, 0, 0, card, 0x08, 0x06] ++
      [0, 1, 8, 0, 6, 4, 0, 1, 4, 0, 0, 0, 0, card, 192, 168, 0, 20, 0, 0, 0, 0, 0, 0, 192, 168, 0, 20])

theorem announcement_received (cards : List UInt8) :
    ∀ b ∈ cards.map fun c => [announcement c], ∀ f ∈ b, VirtioNet.Received f.buffer := by
  intro b hb f hf
  obtain ⟨c, -, rfl⟩ := List.mem_map.1 hb
  rw [List.mem_singleton.1 hf]
  exact DataFromNetif.ofBytes_received _ _

theorem sentBy_announcement (cards : List UInt8) :
    sentBy (.fromArray ![192, 168, 0, 20]) (cards.map fun c => [announcement c]).flatten = cards.map announcement := by
  have h : ∀ c, arpSender (announcement c) = .fromArray ![192, 168, 0, 20] := fun _ => rfl
  induction cards with
  | nil => rfl
  | cons c cards ih =>
    rw [List.map_cons, List.flatten_cons, List.map_cons, ← ih]
    simp [sentBy, h]

/-- A host that announces itself twice with the same card. -/
theorem neighbours_agree_iff_twice : ∃ w, forEach (ArpIn.process pages) World.test
    [[announcement 9], [announcement 9]] = .ok w ∧ NeighbourAgrees (.fromArray ![192, 168, 0, 20]) w := by
  obtain ⟨w, hw, hiff⟩ := neighbours_agree_iff pages World.test_eq (announcement_received [9, 9])
  refine ⟨w, hw, (hiff _ (by decide +kernel)).2 ?_⟩
  rw [sentBy_announcement]
  rintro f g ⟨⟩ ⟨⟩
  exact ⟨rfl, rfl⟩

/-- **A host that changes its network card**: the route goes to the new card and the
adjacency stays with the old one. -/
theorem neighbour_moved : ∃ w, World.start World.testIfs = .ok World.test ∧
    forEach (ArpIn.process pages) World.test [[announcement 9], [announcement 10]] = .ok w ∧
    (w.ipv4Adjacent (.fromArray ![192, 168, 0, 20])).map AdjacentInformation.macAddress =
      some (.new ![4, 0, 0, 0, 0, 9]) ∧
    (w.ipv4Fib 32 (.fromArray ![192, 168, 0, 20])).map ForwardInformationBase.nexthopMacaddress =
      some (.new ![4, 0, 0, 0, 0, 10]) ∧
    ¬ NeighbourAgrees (.fromArray ![192, 168, 0, 20]) w := by
  have h₀ := World.start_unlearnt (x := .fromArray ![192, 168, 0, 20]) (by decide +kernel) World.test_eq
  obtain ⟨w, hw, hl⟩ := Learnt.process ⟨rfl, h₀.adjacent⟩ pages (announcement_received [9, 10])
  have hadj : w.ipv4Adjacent (.fromArray ![192, 168, 0, 20]) = some (learntAdjacent (announcement 9)) := by
    rw [hl.adjacent, sentBy_announcement]
    rfl
  have hroute : w.ipv4Fib 32 (.fromArray ![192, 168, 0, 20]) = some (learntRoute (announcement 10)) := by
    rw [hl.route, sentBy_announcement]
    rfl
  refine ⟨w, World.test_eq, hw, ?_, ?_, ?_⟩
  · rw [hadj]
    decide +kernel
  · rw [hroute]
    decide +kernel
  · intro hagree
    have := (hagree.same _ _ hadj hroute rfl).1
    revert this
    decide +kernel

/-! ## A request and its reply -/

/-- The Ethernet destination of the bytes on the wire, behind the virtio header. -/
def wireDest (bytes : List UInt8) : MacAddress := .new fun i : Fin 6 => bytes.getD (12 + i) 0

/-- The frame carries the 42 bytes of an ARP frame from the wire. -/
def Carries (f : DataFromNetif) (bytes : List UInt8) : Prop :=
  ∀ j < 42, f.buffer.peek j = bytes.getD (12 + j) 0

/-- Learning the sender of a packet leaves a permanent entry alone. -/
theorem ArpIn.learn_permanent {w : World} {f : DataFromNetif} {x : Ipv4Address} {adj : AdjacentInformation}
    (h : w.ipv4Adjacent x = some adj) (hp : adj.expireTime = none) :
    (ArpIn.learn w f).ipv4Adjacent x = some adj := by
  unfold ArpIn.learn registerIpv4Adjacent
  by_cases hs : x = arpSender f
  · rw [← hs]
    simp only [registerAdjacent_permanent h hp, h]
  · simp only [registerAdjacent_of_ne hs, h]

/-- **A request for a local address** is answered with one frame, on the interface that
has the address. -/
theorem ArpIn.processFrame_request (heap : ℕ → Block) (w : World) {f : DataFromNetif}
    (hf : VirtioNet.Received f.buffer) (hop : arpOper f = leBytes 0x0100) {mac : MacAddress} {n : Netif}
    (hadj : w.ipv4Adjacent (arpTarget f) = some ⟨mac, n, true, none⟩) :
    ∃ w' r, ArpIn.processFrame heap w f = .ok w' ∧ w'.sent = w.sent ++ [(n, r)] ∧
      r.position = 12 ∧ r.getSize = 54 ∧
      ∀ j < 42, r.peek j = (ArpIn.replyBytes n (arpSenderMac f) (arpSender f) (arpTarget f)).getD j 0 := by
  obtain ⟨r, hr, hpos, hsize, hbytes⟩ := ArpIn.reply_ok heap (ArpIn.learn w f) n (arpSenderMac f) (arpSender f)
    (arpTarget f)
  refine ⟨_, r, Eq.trans ?_ hr, rfl, hpos, hsize, hbytes⟩
  rw [ArpIn.processFrame_eq heap w hf, ArpIn.learn_permanent hadj rfl]
  simp only [hop, if_true]

/-- The bytes the device reads are those of the slice, behind the virtio header. -/
theorem wire_getD {r : Buffer} (hpos : r.position = 12) (hsize : r.getSize = 54) {j : ℕ} (hj : j < 42) :
    (wire r).getD (12 + j) 0 = r.peek j := by
  unfold wire Buffer.peek
  rw [hsize, hpos, List.getD_eq_getElem?_getD, List.getElem?_map, List.getElem?_range (by simp; omega)]
  rfl

theorem replyBytes_getD (netif : Netif) (srcMac : MacAddress) (srcIp destIp : Ipv4Address) :
    (∀ i : Fin 6, (ArpIn.replyBytes netif srcMac srcIp destIp).getD i 0 = srcMac.getArray i) ∧
    (∀ i : Fin 6, (ArpIn.replyBytes netif srcMac srcIp destIp).getD (22 + i) 0 = netif.macaddr.getArray i) ∧
    (∀ i : Fin 4, (ArpIn.replyBytes netif srcMac srcIp destIp).getD (28 + i) 0 = destIp.getArray i) := by
  refine ⟨?_, ?_, ?_⟩ <;> intro i <;> fin_cases i <;> rfl

/-- **A request and its reply agree between two routers.** In every state of a router in
which `t` is a permanent local address on `n`, a request for `t` makes `arp-in` transmit
exactly one frame, to the sender's MAC address; and in every state of a second router,
`arp-in` takes that frame for a neighbour `t` with the MAC address of `n` on the
interface it came in on, and changes no other forwarding entry. -/
theorem arp_exchange (heap heap' : ℕ → Block) (w : World) {f : DataFromNetif} (hf : VirtioNet.Received f.buffer)
    (hop : arpOper f = leBytes 0x0100) {mac : MacAddress} {n : Netif}
    (hadj : w.ipv4Adjacent (arpTarget f) = some ⟨mac, n, true, none⟩) :
    ∃ w₁ r, ArpIn.process heap w [f] = .ok w₁ ∧ w₁.sent = w.sent ++ [(n, r)] ∧
      wireDest (wire r) = arpSenderMac f ∧
      ∀ (w' : World) (f' : DataFromNetif), VirtioNet.Received f'.buffer → Carries f' (wire r) →
        ∃ w₂, ArpIn.process heap' w' [f'] = .ok w₂ ∧
          w₂.ipv4Fib 32 (arpTarget f) = some ⟨n.macaddr, arpTarget f, f'.netif, .AdjacentResolved⟩ ∧
          (∀ i a, ¬ (i = 32 ∧ a = arpTarget f) → w₂.ipv4Fib i a = w'.ipv4Fib i a) ∧
          w₂.ipv6Fib = w'.ipv6Fib := by
  obtain ⟨w₁, r, hw₁, hsent, hpos, hsize, hbytes⟩ := ArpIn.processFrame_request heap w hf hop hadj
  obtain ⟨hdst, hmac, hip⟩ := replyBytes_getD n (arpSenderMac f) (arpSender f) (arpTarget f)
  have hwire : ∀ {j}, j < 42 → (wire r).getD (12 + j) 0 =
      (ArpIn.replyBytes n (arpSenderMac f) (arpSender f) (arpTarget f)).getD j 0 :=
    fun hj => (wire_getD hpos hsize hj).trans (hbytes _ hj)
  refine ⟨w₁, r, ?_, hsent, ?_, ?_⟩
  · unfold ArpIn.process
    rw [forEach_singleton, hw₁]
  · unfold wireDest
    rw [← (arpSenderMac f).new_getArray]
    congr 1
    funext i
    rw [hwire (by omega), hdst]
  · intro w' f' hf' hcarry
    -- what the second router reads is what the first one wrote
    have hsender : arpSender f' = arpTarget f := by
      rw [← (arpTarget f).fromArray_getArray]
      unfold arpSender
      congr 1
      funext i
      unfold Buffer.field
      rw [hcarry _ (by omega), hwire (by omega), hip]
    have hsmac : arpSenderMac f' = n.macaddr := by
      rw [← n.macaddr.new_getArray]
      unfold arpSenderMac
      congr 1
      funext i
      unfold Buffer.field
      rw [hcarry _ (by omega), hwire (by omega), hmac]
    obtain ⟨w₂, hw₂, hfib, -, h6⟩ := ArpIn.processFrame_ok heap' w' hf'
    refine ⟨w₂, ?_, ?_, ?_, h6⟩
    · unfold ArpIn.process
      rw [forEach_singleton, hw₂]
    · rw [hfib, ArpIn.learn_fib, if_pos ⟨rfl, hsender⟩, hsender, hsmac]
    · intro i a hne
      rw [hfib, ArpIn.learn_fib, if_neg]
      rintro ⟨hi, ha⟩
      exact hne ⟨hi, by rw [← ha, hsender]⟩

/-- A request for the router's own address on its first interface. -/
def arpRequest : DataFromNetif :=
  .ofBytes ⟨0, .new ![2, 0, 0, 0, 0, 1]⟩
    ([0xff, 0xff, 0xff, 0xff, 0xff, 0xff, 4, 0, 0, 0, 0, 9, 0x08, 0x06] ++
      [0, 1, 8, 0, 6, 4, 0, 1, 4, 0, 0, 0, 0, 9, 192, 168, 0, 20, 0, 0, 0, 0, 0, 0, 192, 168, 0, 10])

/-- The router of `start_rust` is asked for its address, and another one, with empty
tables, gets the reply on an interface of its own. -/
theorem arp_exchange_test : ∃ w₁ r, ArpIn.process pages World.test [arpRequest] = .ok w₁ ∧
    w₁.sent = [(⟨0, .new ![2, 0, 0, 0, 0, 1]⟩, r)] ∧ wireDest (wire r) = .new ![4, 0, 0, 0, 0, 9] ∧
    ∃ w₂, ArpIn.process pages World.empty [.ofBytes ⟨7, .new ![4, 0, 0, 0, 0, 9]⟩ ((wire r).drop 12)] = .ok w₂ ∧
      w₂.ipv4Fib 32 (.fromArray ![192, 168, 0, 10]) = some ⟨.new ![2, 0, 0, 0, 0, 1], .fromArray ![192, 168, 0, 10],
        ⟨7, .new ![4, 0, 0, 0, 0, 9]⟩, .AdjacentResolved⟩ := by
  have hlocal : World.test.ipv4Adjacent (arpTarget arpRequest) =
      some ⟨.new ![2, 0, 0, 0, 0, 1], ⟨0, .new ![2, 0, 0, 0, 0, 1]⟩, true, none⟩ := rfl
  obtain ⟨w₁, r, hw₁, hsent, hdst, hrecv⟩ := arp_exchange pages pages World.test
    (DataFromNetif.ofBytes_received _ _ : VirtioNet.Received arpRequest.buffer) rfl hlocal
  refine ⟨w₁, r, hw₁, hsent, hdst.trans (by decide +kernel), ?_⟩
  obtain ⟨w₂, hw₂, hfib, -, -⟩ := hrecv World.empty
    (.ofBytes ⟨7, .new ![4, 0, 0, 0, 0, 9]⟩ ((wire r).drop 12)) (DataFromNetif.ofBytes_received _ _) (by
      intro j hj
      simp [DataFromNetif.ofBytes, Buffer.peek])
  exact ⟨w₂, hw₂, hfib⟩

end Urchin
