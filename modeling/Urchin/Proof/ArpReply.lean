import Urchin.Proof.Neighbours

/-!
# Where ARP replies leave

`arp-in` answers on the interface of the target's adjacency entry, not on the one the
request came in on. The entries of the router's own addresses are permanent, so in every
run they are those of start-up (`LocalAdjacent`): the reply leaves on the first interface
that was set up with the target address. It leaves where the request came in exactly if
that is the same interface (`arp_reply_interface_iff`); a host that asks for the address of
another interface gets no answer (`arp_reply_elsewhere`).
-/

namespace Urchin

open Exec

/-! ## The router's own addresses -/

/-- The interface that has the address `x`: the first that was set up with it. -/
def ownerOf (ifs : List Interface) (x : Ipv4Address) : Option Interface := ifs.find? fun i => i.ipv4addr = x

/-- The adjacency of an interface's own address. -/
def Interface.adjacent (i : Interface) : AdjacentInformation := ⟨i.netif.macaddr, i.netif, true, none⟩

/-- Before anything is learnt, the adjacencies are those of the own addresses. -/
def StartAdjacent (ifs : List Interface) (w : World) : Prop :=
  ∀ x, w.ipv4Adjacent x = (ownerOf ifs x).map Interface.adjacent

/-- The own addresses have their adjacencies, and no other one is local. -/
structure LocalAdjacent (ifs : List Interface) (w : World) : Prop where
  own : ∀ x i, ownerOf ifs x = some i → w.ipv4Adjacent x = some i.adjacent
  others : ∀ x adj, ownerOf ifs x = none → w.ipv4Adjacent x = some adj → adj.isLocal = false

theorem StartAdjacent.setupVirtioNet {done : List Interface} {w : World} (h : StartAdjacent done w) (i : Interface) :
    ∃ w', w.setupVirtioNet i = .ok w' ∧ StartAdjacent (done ++ [i]) w' := by
  obtain ⟨w', hw', hadj, -⟩ := w.setupVirtioNet_ipv4 i
  refine ⟨w', hw', fun x => ?_⟩
  have howner : ownerOf (done ++ [i]) x = (ownerOf done x).or (if i.ipv4addr = x then some i else none) := by
    unfold ownerOf
    rw [List.find?_append, List.find?_singleton]
    simp only [decide_eq_true_eq]
  rw [hadj, howner]
  by_cases hx : i.ipv4addr = x
  · subst hx
    rw [registerAdjacent_self, h, if_pos rfl]
    cases ownerOf done i.ipv4addr with
    | none => rfl
    | some j => rfl
  · rw [registerAdjacent_of_ne (Ne.symm hx), h, if_neg hx, Option.or_none]

theorem World.start_adjacent {ifs : List Interface} {w₀ : World} (hstart : World.start ifs = .ok w₀) :
    StartAdjacent ifs w₀ :=
  World.start_inv (P := StartAdjacent) hstart (fun i _ _ _ h => h.setupVirtioNet i) fun _ => rfl

theorem StartAdjacent.localAdjacent {ifs : List Interface} {w : World} (h : StartAdjacent ifs w) :
    LocalAdjacent ifs w := by
  refine ⟨fun x i hi => by rw [h, hi]; rfl, fun x adj hx hadj => ?_⟩
  rw [h, hx] at hadj
  cases hadj

namespace LocalAdjacent

variable {ifs : List Interface} {w : World}

theorem of_adjacent {w' : World} (h : LocalAdjacent ifs w) (he : w'.ipv4Adjacent = w.ipv4Adjacent) :
    LocalAdjacent ifs w' := by
  refine ⟨?_, ?_⟩
  · rw [he]; exact h.own
  · rw [he]; exact h.others

/-- Learning a sender, whoever it claims to be. -/
theorem learn (h : LocalAdjacent ifs w) (f : DataFromNetif) : LocalAdjacent ifs (ArpIn.learn w f) := by
  refine ⟨fun x i hi => ArpIn.learn_permanent (h.own x i hi) rfl, fun x adj hx hadj => ?_⟩
  unfold ArpIn.learn registerIpv4Adjacent at hadj
  simp only at hadj
  by_cases hs : x = arpSender f
  · subst hs
    rw [registerAdjacent_self] at hadj
    split at hadj
    · rename_i old hold
      split at hadj
      · rw [← Option.some.inj hadj]
        exact h.others _ old hx hold
      · rw [← Option.some.inj hadj]
    · rw [← Option.some.inj hadj]
  · rw [registerAdjacent_of_ne hs] at hadj
    exact h.others x adj hx hadj

/-- An ARP packet, also one that panics. -/
theorem processFrame (h : LocalAdjacent ifs w) (heap : ℕ → Block) (f : DataFromNetif) :
    LocalAdjacent ifs (ArpIn.processFrame heap w f).state := by
  unfold ArpIn.processFrame
  refine attempt_inv h fun _ _ => ?_
  have hl := h.learn f
  dsimp only
  split
  · split
    · split
      · exact hl.of_adjacent (World.Keeps.of_tables (ArpIn.reply_tables ..)).adjacent
      · exact hl
    · exact hl
  · exact hl

/-- **Whole runs.** -/
theorem after (h : LocalAdjacent ifs w) (heap : ℕ → Block) (batches : List (List DataFromNetif)) :
    LocalAdjacent ifs (w.after heap batches) := by
  refine forEach_inv (P := LocalAdjacent ifs) batches (fun b _ w hw => ?_) w h
  refine ethernetIn_inv heap b ?_ ?_ ?_ hw
  · exact fun f w hw => hw.of_adjacent rfl
  · exact fun f w hw => hw.processFrame heap f
  · exact fun w w' ht hw => hw.of_adjacent (World.Keeps.of_tables ht).adjacent

end LocalAdjacent

/-! ## Replies -/

/-- The sender's hardware address of an ARP packet on the wire, behind the virtio header. -/
def wireSenderMac (bytes : List UInt8) : MacAddress := .new fun i : Fin 6 => bytes.getD (12 + (22 + i)) 0

/-- The frame leaves on the interface `netif`, with its MAC address as sender. -/
def LeavesOn (netif : Netif) (s : Netif × Buffer) : Prop :=
  s.1 = netif ∧ wireSenderMac (wire s.2) = netif.macaddr

/-- The packet is no request for an address of another interface than it came in on. -/
def AsksReceiver (ifs : List Interface) (f : DataFromNetif) : Prop :=
  arpOper f = leBytes 0x0100 → ∀ i, ownerOf ifs (arpTarget f) = some i → i.netif = f.netif

theorem wireSenderMac_reply {netif : Netif} {srcMac : MacAddress} {srcIp destIp : Ipv4Address} {r : Buffer}
    (hpos : r.position = 12) (hsize : r.getSize = 54)
    (hbytes : ∀ j < 42, r.peek j = (ArpIn.replyBytes netif srcMac srcIp destIp).getD j 0) :
    wireSenderMac (wire r) = netif.macaddr := by
  rw [← netif.macaddr.new_getArray]
  unfold wireSenderMac
  congr 1
  funext i
  rw [wire_getD hpos hsize (by omega), hbytes _ (by omega)]
  exact (replyBytes_getD netif srcMac srcIp destIp).2.1 i

/-- **One packet.** -/
theorem LocalAdjacent.reply_iff {ifs : List Interface} {w : World} (h : LocalAdjacent ifs w) (heap : ℕ → Block)
    {f : DataFromNetif} (hf : VirtioNet.Received f.buffer) :
    ∃ w' out, ArpIn.processFrame heap w f = .ok w' ∧ w'.sent = w.sent ++ out ∧
      ((∀ s ∈ out, LeavesOn f.netif s) ↔ AsksReceiver ifs f) := by
  have hl := h.learn f
  cases howner : ownerOf ifs (arpTarget f) with
  | some i =>
    by_cases hop : arpOper f = leBytes 0x0100
    · -- a request for an own address: one reply, on the interface that has it
      obtain ⟨w', r, hw', hsent, hpos, hsize, hbytes⟩ :=
        ArpIn.processFrame_request heap w hf hop (h.own _ i howner)
      have hmac := wireSenderMac_reply hpos hsize hbytes
      refine ⟨w', _, hw', hsent, ?_⟩
      simp only [List.mem_singleton, forall_eq, LeavesOn, AsksReceiver, howner, Option.some.injEq, hmac]
      constructor
      · rintro ⟨hnet, -⟩ _ j rfl
        exact hnet
      · intro hask
        have hnet := hask hop i rfl
        exact ⟨hnet, by rw [hnet]⟩
    · refine ⟨ArpIn.learn w f, [], ?_, (List.append_nil _).symm, ⟨fun _ hop' => absurd hop' hop, fun _ _ hs => by cases hs⟩⟩
      rw [ArpIn.processFrame_eq heap w hf, hl.own _ i howner]
      simp only [hop, if_false, ite_self]
  | none =>
    refine ⟨ArpIn.learn w f, [], ?_, (List.append_nil _).symm, ⟨fun _ _ i hi => ?_, fun _ _ hs => by cases hs⟩⟩
    · rw [ArpIn.processFrame_eq heap w hf]
      cases hadj : (ArpIn.learn w f).ipv4Adjacent (arpTarget f) with
      | none => rfl
      | some adj =>
        simp only [hl.others _ adj howner hadj, Bool.false_eq_true, if_false]
    · rw [howner] at hi
      cases hi

/-- **When ARP replies leave where the request came in.** For every router, every run of it
and every batch of received ARP packets in the state reached: no packet makes `arp-in`
panic, and the frames it transmits for a packet all leave on the interface the packet came
in on, with that interface's MAC address as sender, if and only if the packet is no
request for an address of another interface. -/
theorem arp_reply_interface_iff (heap : ℕ → Block) {ifs : List Interface} {w₀ : World}
    (hstart : World.start ifs = .ok w₀) (batches : List (List DataFromNetif)) (fs : List DataFromNetif)
    (hfs : ∀ f ∈ fs, VirtioNet.Received f.buffer) :
    ∃ w' outs, ArpIn.process heap (w₀.after heap batches) fs = .ok w' ∧
      w'.sent = (w₀.after heap batches).sent ++ outs.flatten ∧
      List.Forall₂ (fun f out => (∀ s ∈ out, LeavesOn f.netif s) ↔ AsksReceiver ifs f) fs outs := by
  have hreach : LocalAdjacent ifs (w₀.after heap batches) :=
    (World.start_adjacent hstart).localAdjacent.after heap batches
  generalize w₀.after heap batches = w at hreach
  unfold ArpIn.process
  induction fs generalizing w with
  | nil => exact ⟨w, [], rfl, by simp, .nil⟩
  | cons f fs ih =>
    obtain ⟨w₁, out, hw₁, hsent₁, hiff⟩ := hreach.reply_iff heap (hfs f List.mem_cons_self)
    have hreach₁ : LocalAdjacent ifs w₁ := by
      have := hreach.processFrame heap f
      rw [hw₁] at this
      exact this
    obtain ⟨w₂, outs, hw₂, hsent₂, hrel⟩ := ih (fun g hg => hfs g (List.mem_cons_of_mem _ hg)) w₁ hreach₁
    refine ⟨w₂, out :: outs, ?_, ?_, .cons hiff hrel⟩
    · unfold forEach
      rw [hw₁, Outcome.bind_ok, hw₂]
    · rw [hsent₂, hsent₁, List.append_assoc, List.flatten_cons]

/-- A request on the first interface of `start_rust` for its own address. -/
theorem arp_reply_interface_iff_own : ∃ (w' : World) (outs : List (List (Netif × Buffer))), ArpIn.process pages World.test [arpRequest] = .ok w' ∧
    w'.sent = outs.flatten ∧ outs.length = 1 ∧ ∀ out ∈ outs, ∀ s ∈ out, LeavesOn arpRequest.netif s := by
  obtain ⟨w', outs, hw', hsent, hrel⟩ := arp_reply_interface_iff pages World.test_eq [] [arpRequest]
    (List.forall_mem_singleton.2 (DataFromNetif.ofBytes_received _ _))
  refine ⟨w', outs, hw', hsent, hrel.length_eq.symm, ?_⟩
  cases hrel with
  | cons h hnil =>
    cases hnil
    refine List.forall_mem_singleton.2 (h.2 fun _ i hi => ?_)
    rw [show ownerOf World.testIfs (arpTarget arpRequest) = World.testIfs.head? from rfl] at hi
    rw [← Option.some.inj hi]
    rfl

/-- A request on the first interface of `start_rust` for the address of the second. -/
def arpRequestElsewhere : DataFromNetif :=
  .ofBytes ⟨0, .new ![2, 0, 0, 0, 0, 1]⟩
    ([0xff, 0xff, 0xff, 0xff, 0xff, 0xff, 4, 0, 0, 0, 0, 9, 0x08, 0x06] ++
      [0, 1, 8, 0, 6, 4, 0, 1, 4, 0, 0, 0, 0, 9, 192, 168, 0, 20, 0, 0, 0, 0, 0, 0, 192, 168, 10, 10])

/-- **The reply leaves on the other interface.** -/
theorem arp_reply_elsewhere : World.start World.testIfs = .ok World.test ∧
    VirtioNet.Received arpRequestElsewhere.buffer ∧ arpRequestElsewhere.netif.id = 0 ∧
    ((ArpIn.process pages World.test [arpRequestElsewhere]).state.sent.map fun s => s.1.id) = [1] :=
  ⟨World.test_eq, DataFromNetif.ofBytes_received _ _, by decide +kernel, by decide +kernel⟩

end Urchin
