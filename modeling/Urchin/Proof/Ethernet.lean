import Urchin.Proof.Adjacent
import Urchin.Spec.Boot

/-!
# What `ethernet-in` accepts

Start-up registers some MAC addresses as local and permanent; learning registers
sources as not local. A permanent entry stays as it is (`registerAdjacent_permanent`),
so learning never changes which addresses are local (`LocalSet.learn`): neither
inside a batch nor over a run (`LocalSet.after`), since the nodes behind
`ethernet-in` do not touch the MAC table. Each batch is therefore split by type and
by the start-up addresses alone (`ethernet_dispatch`).
-/

namespace Urchin

open Exec

/-! ## Local addresses -/

/-- The local addresses of a MAC table are those of `S`, and they are permanent. -/
structure LocalSet (S : List MacAddress) (t : AdjacentTable MacAddress) : Prop where
  kept : ∀ m ∈ S, ∃ adj, t m = some adj ∧ adj.isLocal = true ∧ adj.expireTime = none
  only : ∀ m adj, t m = some adj → adj.isLocal = true → m ∈ S

namespace LocalSet

variable {S : List MacAddress} {t : AdjacentTable MacAddress}

/-- **Learning a source changes nothing about the local addresses**, whatever the
source is. -/
theorem learn (h : LocalSet S t) (m : MacAddress) (netif : Netif) (e : Option UInt64) :
    LocalSet S (registerMacaddress t m netif false e) := by
  unfold registerMacaddress
  by_cases hp : ∃ adj, t m = some adj ∧ adj.expireTime = none
  · obtain ⟨adj, hm, he⟩ := hp
    rw [registerAdjacent_permanent hm he]
    exact h
  · rw [registerAdjacent_replaces fun adj hm he => hp ⟨adj, hm, he⟩]
    have hS : m ∉ S := fun hm => by
      obtain ⟨adj, h1, -, h3⟩ := h.kept m hm
      exact hp ⟨adj, h1, h3⟩
    refine ⟨fun x hx => ?_, fun x adj hx hl => ?_⟩
    · have hxm : x ≠ m := fun hxm => hS (by rw [← hxm]; exact hx)
      rw [Function.update_of_ne hxm]
      exact h.kept x hx
    · by_cases hxm : x = m
      · subst hxm
        rw [Function.update_self, Option.some.injEq] at hx
        rw [← hx] at hl
        cases hl
      · rw [Function.update_of_ne hxm] at hx
        exact h.only x adj hx hl

theorem isLocal_iff (h : LocalSet S t) (m : MacAddress) :
    (∃ adj, t m = some adj ∧ adj.isLocal = true) ↔ m ∈ S := by
  refine ⟨fun ⟨adj, h1, h2⟩ => h.only m adj h1 h2, fun hm => ?_⟩
  obtain ⟨adj, h1, h2, -⟩ := h.kept m hm
  exact ⟨adj, h1, h2⟩

end LocalSet

/-! ## Start-up -/

/-- Before anything is learnt, every entry is one of the local ones. -/
structure StartSet (S : List MacAddress) (t : AdjacentTable MacAddress) : Prop where
  kept : ∀ m ∈ S, (t m).isSome
  only : ∀ m adj, t m = some adj → m ∈ S ∧ adj.isLocal = true ∧ adj.expireTime = none

namespace StartSet

variable {S : List MacAddress} {t : AdjacentTable MacAddress}

theorem localSet (h : StartSet S t) : LocalSet S t := by
  refine ⟨fun m hm => ?_, fun m adj hm _ => (h.only m adj hm).1⟩
  obtain ⟨adj, hadj⟩ := Option.isSome_iff_exists.1 (h.kept m hm)
  exact ⟨adj, hadj, (h.only m adj hadj).2⟩

theorem register (h : StartSet S t) (m : MacAddress) (netif : Netif) :
    StartSet (S ++ [m]) (registerMacaddress t m netif true none) := by
  unfold registerMacaddress
  cases hm : t m with
  | some adj =>
    -- registered before: the table stays, and the address is in the set already
    obtain ⟨hS, -, he⟩ := h.only m adj hm
    rw [registerAdjacent_permanent hm he]
    refine ⟨fun x hx => ?_, fun x adj hx => ?_⟩
    · rcases List.mem_append.1 hx with hx | hx
      · exact h.kept x hx
      · rw [List.mem_singleton.1 hx, hm]; rfl
    · obtain ⟨h1, h2⟩ := h.only x adj hx
      exact ⟨List.mem_append_left _ h1, h2⟩
  | none =>
    rw [registerAdjacent_replaces fun adj hadj => by rw [hm] at hadj; cases hadj]
    refine ⟨fun x hx => ?_, fun x adj hx => ?_⟩
    · by_cases hxm : x = m
      · subst hxm; rw [Function.update_self]; rfl
      · rw [Function.update_of_ne hxm]
        rcases List.mem_append.1 hx with hx | hx
        · exact h.kept x hx
        · exact absurd (List.mem_singleton.1 hx) hxm
    · by_cases hxm : x = m
      · subst hxm
        rw [Function.update_self, Option.some.injEq] at hx
        rw [← hx]
        exact ⟨by simp, rfl, rfl⟩
      · rw [Function.update_of_ne hxm] at hx
        obtain ⟨h1, h2⟩ := h.only x adj hx
        exact ⟨List.mem_append_left _ h1, h2⟩

end StartSet

namespace World

/-- **Rule for start-up.** What holds of the empty tables and is kept by setting up an
interface holds when all are set up. -/
theorem start_rule {P : List Interface → World → Prop} (ifs : List Interface)
    (hs : ∀ i ∈ ifs, ∀ done w, P done w → ∃ w', w.setupVirtioNet i = .ok w' ∧ P (done ++ [i]) w')
    (h0 : P [] World.empty) : ∃ w, start ifs = .ok w ∧ P ifs w := by
  have key : ∀ (rest done : List Interface) (w : World), (∀ i ∈ rest, i ∈ ifs) → P done w →
      ∃ w', rest.foldlM setupVirtioNet w = .ok w' ∧ P (done ++ rest) w' := by
    intro rest
    induction rest with
    | nil => intro done w _ h; exact ⟨w, rfl, by simpa using h⟩
    | cons i rest ih =>
      intro done w hmem h
      obtain ⟨w₁, hw₁, h₁⟩ := hs i (hmem i List.mem_cons_self) done w h
      obtain ⟨w₂, hw₂, h₂⟩ := ih (done ++ [i]) w₁ (fun j hj => hmem j (List.mem_cons_of_mem _ hj)) h₁
      refine ⟨w₂, ?_, by simpa using h₂⟩
      rw [List.foldlM_cons, hw₁]
      exact hw₂
  exact key ifs [] World.empty (fun _ h => h) h0

/-- The same for the state that start-up has ended in. -/
theorem start_inv {P : List Interface → World → Prop} {ifs : List Interface} {w₀ : World}
    (hstart : start ifs = .ok w₀)
    (hs : ∀ i ∈ ifs, ∀ done w, P done w → ∃ w', w.setupVirtioNet i = .ok w' ∧ P (done ++ [i]) w')
    (h0 : P [] World.empty) : P ifs w₀ := by
  obtain ⟨w, hw, hP⟩ := start_rule ifs hs h0
  rw [hstart, Except.ok.injEq] at hw
  rw [hw]
  exact hP

/-- What setting up an interface does to the IPv4 tables. -/
theorem setupVirtioNet_ipv4 (w : World) (i : Interface) : ∃ w', w.setupVirtioNet i = .ok w' ∧
    w'.ipv4Adjacent = registerAdjacent w.ipv4Adjacent i.ipv4addr ⟨i.netif.macaddr, i.netif, true, none⟩ ∧
    w'.ipv4Fib = registerIpv4Fib
      (registerIpv4Fib w.ipv4Fib i.ipv4addr 0xffffffff i.netif.macaddr i.ipv4addr i.netif .Local)
      (i.ipv4addr.masked 24) ((0xffffffff : UInt32) <<< (32 - i.prefixLen)) i.netif.macaddr i.ipv4addr i.netif
      .Adjacent :=
  ⟨_, rfl, rfl, rfl⟩

/-- Setting up an interface does not panic, and adds its three MAC addresses. -/
theorem setupVirtioNet_ok {w : World} {S : List MacAddress} (h : StartSet S w.macAddrTable)
    (i : Interface) : ∃ w', w.setupVirtioNet i = .ok w' ∧ StartSet (S ++ i.localMacs) w'.macAddrTable := by
  refine ⟨_, rfl, ?_⟩
  have h1 := h.register i.netif.macaddr i.netif
  have h2 := h1.register (Interface.snmcastMacaddr i.netif) i.netif
  have h3 := h2.register Interface.allnodemcastMacaddr i.netif
  rw [List.append_assoc, List.append_assoc] at h3
  exact h3

/-- The MAC addresses registered as local at start-up. -/
def localMacs (ifs : List Interface) : List MacAddress := ifs.flatMap Interface.localMacs

theorem start_ok (ifs : List Interface) :
    ∃ w, start ifs = .ok w ∧ StartSet (localMacs ifs) w.macAddrTable := by
  refine start_rule (P := fun done w => StartSet (localMacs done) w.macAddrTable) ifs (fun i _ done w h => ?_)
    ⟨fun m hm => absurd hm (by simp [localMacs]), fun m adj hm => by cases hm⟩
  obtain ⟨w', hw', h'⟩ := setupVirtioNet_ok h i
  refine ⟨w', hw', ?_⟩
  unfold localMacs at h' ⊢
  rw [List.flatMap_append, List.flatMap_singleton]
  exact h'

end World

/-! ## One batch -/

/-- The frame is of that type, and its destination is broadcast or one of `S`. -/
def accepted (S : List MacAddress) (frameType : List UInt8) (f : DataFromNetif) : Bool :=
  decide ([f.buffer.peek 12, f.buffer.peek 13] = frameType) &&
    (decide (f.buffer.field 0 6 = fun _ => 0xff) || decide (MacAddress.new (f.buffer.field 0 6) ∈ S))

namespace EthernetIn

variable {S : List MacAddress}

/-- The loop's variables when it has seen the frames `fs`: the MAC table is `t`, and
the three lists have grown by the frames accepted. -/
def LoopState.seen (s : LoopState) (S : List MacAddress) (t : AdjacentTable MacAddress)
    (fs : List DataFromNetif) : LoopState :=
  { world := { s.world with macAddrTable := t }
    arpPkts := s.arpPkts ++ fs.filter (accepted S [0x08, 0x06])
    ipv4Pkts := s.ipv4Pkts ++ fs.filter (accepted S [0x08, 0x00])
    ipv6Pkts := s.ipv6Pkts ++ fs.filter (accepted S [0x86, 0xDD]) }

theorem LoopState.seen_nil (s : LoopState) : s.seen S s.world.macAddrTable [] = s := by
  simp [LoopState.seen]

theorem LoopState.seen_seen (s : LoopState) (t t' : AdjacentTable MacAddress)
    (fs gs : List DataFromNetif) : (s.seen S t fs).seen S t' gs = s.seen S t' (fs ++ gs) := by
  simp [LoopState.seen]

/-- Sorting a frame touches the three lists only. -/
theorem procFrame_world (s : LoopState) (f : DataFromNetif) : (procFrame s f).world = s.world := by
  unfold procFrame
  simp only
  split
  · rfl
  · split
    · rfl
    · split
      · rfl
      · split
        · rfl
        · rfl

/-- What a frame that is for us adds to the three lists. -/
theorem procFrame_eq (s : LoopState) (f : DataFromNetif) (hf : f.buffer.field 0 6 = (fun _ => 0xff) ∨
    MacAddress.new (f.buffer.field 0 6) ∈ S) :
    procFrame s f = s.seen S s.world.macAddrTable [f] := by
  have hfor : ∀ t, accepted S t f = decide ([f.buffer.peek 12, f.buffer.peek 13] = t) := by
    intro t
    unfold accepted
    rcases hf with hf | hf
    · simp [hf]
    · simp [hf]
  unfold procFrame LoopState.seen
  simp only [List.filter_cons, List.filter_nil, hfor, decide_eq_true_eq]
  split
  · rename_i h1
    simp [h1]
  · split
    · rename_i h2
      simp [h2]
    · split
      · rename_i h3
        simp [h3]
      · split
        · simp
        · simp

/-- A frame that is not for us adds nothing. -/
theorem filter_accepted_nil {f : DataFromNetif} (h1 : f.buffer.field 0 6 ≠ fun _ => 0xff)
    (h2 : MacAddress.new (f.buffer.field 0 6) ∉ S) (t : List UInt8) : [f].filter (accepted S t) = [] := by
  simp [accepted, h1, h2]

/-- **One frame**: whatever source it carries, it is kept exactly if its destination
is broadcast or local since start-up. -/
theorem processFrame_ok {s : LoopState} {f : DataFromNetif} (h : LocalSet S s.world.macAddrTable)
    (hf : 0 < f.buffer.sliceLen) : ∃ t, LocalSet S t ∧ processFrame s f = .ok (s.seen S t [f]) := by
  have ht := h.learn (.new (f.buffer.field 6 6)) f.netif none
  set t := registerMacaddress s.world.macAddrTable (.new (f.buffer.field 6 6)) f.netif false none with htdef
  refine ⟨t, ht, ?_⟩
  unfold processFrame
  rw [Buffer.read, if_pos hf, attempt_ok]
  simp only [← htdef]
  split
  · rename_i hb
    exact congrArg Outcome.ok (procFrame_eq _ f (.inl hb))
  · rename_i hb
    split
    · rename_i adj hadj
      split
      · rename_i hl
        exact congrArg Outcome.ok (procFrame_eq _ f (.inr (ht.only _ adj hadj hl)))
      · rename_i hl
        -- an address of the local set would have been found as local
        have hS : MacAddress.new (f.buffer.field 0 6) ∉ S := by
          intro hm
          obtain ⟨adj', h1, h2⟩ := (ht.isLocal_iff _).2 hm
          rw [hadj, Option.some.injEq] at h1
          exact hl (h1 ▸ h2)
        simp only [LoopState.seen, filter_accepted_nil hb hS, List.append_nil]
    · rename_i hadj
      have hS : MacAddress.new (f.buffer.field 0 6) ∉ S := by
        intro hm
        obtain ⟨adj', h1, -⟩ := (ht.isLocal_iff _).2 hm
        rw [hadj] at h1
        cases h1
      simp only [LoopState.seen, filter_accepted_nil hb hS, List.append_nil]

/-- **The loop**, by induction over the batch. -/
theorem loop_ok (buff : List DataFromNetif) : ∀ s : LoopState, LocalSet S s.world.macAddrTable →
    (∀ f ∈ buff, 0 < f.buffer.sliceLen) → ∃ t, LocalSet S t ∧ forEach processFrame s buff = .ok (s.seen S t buff) := by
  induction buff with
  | nil => intro s h _; exact ⟨_, h, by rw [s.seen_nil]; rfl⟩
  | cons f buff ih =>
    intro s h hbuff
    obtain ⟨t₁, h₁, hf⟩ := processFrame_ok h (hbuff f List.mem_cons_self)
    obtain ⟨t₂, h₂, hl⟩ := ih (s.seen S t₁ [f]) h₁ fun g hg => hbuff g (List.mem_cons_of_mem _ hg)
    refine ⟨t₂, h₂, ?_⟩
    rw [forEach, hf, Outcome.bind_ok, hl, s.seen_seen]
    rfl

/-- **A batch is split** by type and by the start-up addresses, whatever nodes are
behind `ethernet-in`. -/
theorem process_ok {w : World} {buff : List DataFromNetif} (h : LocalSet S w.macAddrTable)
    (hbuff : ∀ f ∈ buff, 0 < f.buffer.sliceLen) : ∃ t, LocalSet S t ∧
      ∀ arpIn ipv4In ipv6In : ProcessingNode, process arpIn ipv4In ipv6In w buff =
        ((arpIn.call { w with macAddrTable := t } (buff.filter (accepted S [0x08, 0x06]))).bind fun w =>
          ipv4In.call w (buff.filter (accepted S [0x08, 0x00]))).bind fun w =>
          ipv6In.call w (buff.filter (accepted S [0x86, 0xDD])) := by
  obtain ⟨t, ht, hl⟩ := loop_ok buff ⟨w, [], [], []⟩ h hbuff
  refine ⟨t, ht, fun arpIn ipv4In ipv6In => ?_⟩
  unfold process
  rw [hl]
  rfl

end EthernetIn

/-! ## The nodes behind `ethernet-in` -/

/-- The five tables. -/
def World.tables (w : World) :
    Ipv4Fib × Ipv6Fib × AdjacentTable Ipv4Address × AdjacentTable Ipv6Address × AdjacentTable MacAddress :=
  (w.ipv4Fib, w.ipv6Fib, w.ipv4Adjacent, w.ipv6Adjacent, w.macAddrTable)

/-- The two states have the same MAC and IPv4 tables. -/
structure World.Keeps (w w' : World) : Prop where
  mac : w'.macAddrTable = w.macAddrTable
  fib : w'.ipv4Fib = w.ipv4Fib
  adjacent : w'.ipv4Adjacent = w.ipv4Adjacent

theorem World.Keeps.of_tables {w w' : World} (h : w'.tables = w.tables) : w.Keeps w' := by
  simp only [World.tables, Prod.mk.injEq] at h
  exact ⟨h.2.2.2.2, h.1, h.2.2.1⟩

theorem World.Keeps.trans {w w' w'' : World} (h : w.Keeps w') (h' : w'.Keeps w'') : w.Keeps w'' :=
  ⟨h'.mac.trans h.mac, h'.fib.trans h.fib, h'.adjacent.trans h.adjacent⟩

theorem ArpIn.reply_tables (heap : ℕ → Block) (w : World) (netif : Netif) (srcMac : MacAddress)
    (srcIp destIp : Ipv4Address) : (ArpIn.reply heap w netif srcMac srcIp destIp).state.tables = w.tables := by
  unfold ArpIn.reply
  refine attempt_key rfl fun respbuff _ => ?_
  exact attempt_key rfl fun _ _ => rfl

/-- The two states have the same MAC and IPv6 tables. -/
structure World.Others (w w' : World) : Prop where
  mac : w'.macAddrTable = w.macAddrTable
  fib : w'.ipv6Fib = w.ipv6Fib
  adjacent : w'.ipv6Adjacent = w.ipv6Adjacent

theorem World.Others.tables {w w' w'' : World} (h : w.Others w') (ht : w''.tables = w'.tables) : w.Others w'' := by
  simp only [World.tables, Prod.mk.injEq] at ht
  exact ⟨ht.2.2.2.2.trans h.mac, ht.2.1.trans h.fib, ht.2.2.2.1.trans h.adjacent⟩

/-- `arp-in` writes the IPv4 tables only. -/
theorem ArpIn.processFrame_others (heap : ℕ → Block) (w : World) (f : DataFromNetif) :
    w.Others (ArpIn.processFrame heap w f).state := by
  unfold ArpIn.processFrame
  refine attempt_inv ⟨rfl, rfl, rfl⟩ fun _ _ => ?_
  simp only
  split
  · split
    · split
      · refine World.Others.tables ?_ (ArpIn.reply_tables ..)
        exact ⟨rfl, rfl, rfl⟩
      · exact ⟨rfl, rfl, rfl⟩
    · exact ⟨rfl, rfl, rfl⟩
  · exact ⟨rfl, rfl, rfl⟩

/-- `icmpv4-in-local` writes no table. -/
theorem Icmpv4InLocal.processFrame_tables (heap : ℕ → Block) (w : World) (f : DataFromNetif) :
    (Icmpv4InLocal.processFrame heap w f).state.tables = w.tables := by
  unfold Icmpv4InLocal.processFrame
  refine attempt_key rfl fun _ _ => ?_
  refine attempt_key rfl fun icmpType _ => ?_
  split
  · refine attempt_key rfl fun respbuff _ => ?_
    exact attempt_key rfl fun _ _ => rfl
  · rfl

theorem Icmpv4InLocal.process_tables (heap : ℕ → Block) (w : World) (b : List DataFromNetif) :
    (Icmpv4InLocal.process heap w b).state.tables = w.tables :=
  forEach_key (Icmpv4InLocal.processFrame_tables heap) w b

/-- **A neighbor advertisement panics**, whatever it advertises: the prefix length it is
registered under has no table. -/
theorem Icmpv6InLocal.neighborAdvertisement_panics (w : World) (f : DataFromNetif) :
    ∃ p, neighborAdvertisement w f = .panic p w := by
  have hreg : ∀ mac ip, registerIpv6Fib w.ipv6Fib ip 0xffffffff mac ip f.netif .AdjacentResolved =
      .error .bounds := fun mac ip => rfl
  unfold neighborAdvertisement
  simp only [hreg, attempt_error]
  cases f.buffer.array 62 4 with
  | error p => exact ⟨p, rfl⟩
  | ok _ =>
    cases f.buffer.array 84 6 with
    | error p => exact ⟨p, rfl⟩
    | ok mac =>
      cases f.buffer.array 66 16 with
      | error p => exact ⟨p, rfl⟩
      | ok ip => exact ⟨_, rfl⟩

/-- So `icmpv6-in-local` writes no table either. -/
theorem Icmpv6InLocal.processFrame_tables (heap : ℕ → Block) (w : World) (f : DataFromNetif) :
    (Icmpv6InLocal.processFrame heap w f).state.tables = w.tables := by
  unfold Icmpv6InLocal.processFrame
  refine attempt_key rfl fun _ _ => ?_
  refine attempt_key rfl fun icmpType _ => ?_
  split
  · refine attempt_key rfl fun respbuff _ => ?_
    exact attempt_key rfl fun _ _ => rfl
  · split
    · obtain ⟨p, hp⟩ := neighborAdvertisement_panics w f
      rw [hp]
      rfl
    · rfl

theorem Icmpv6InLocal.process_tables (heap : ℕ → Block) (w : World) (b : List DataFromNetif) :
    (Icmpv6InLocal.process heap w b).state.tables = w.tables :=
  forEach_key (Icmpv6InLocal.processFrame_tables heap) w b

theorem IpLoopState.finish_state (o : Outcome IpLoopState) : (finish o).state = o.state.world := by
  cases o <;> rfl

section

-- a part of the state that the next node leaves alone
variable {β : Type*} {key : World → β}

theorem ProcessingNode.call_key {node : ProcessingNode} (h : ∀ w b, key (node w b).state = key w) (w : World)
    (b : List DataFromNetif) : key (node.call w b).state = key w := by
  unfold ProcessingNode.call
  split
  · exact h w b
  · rfl

variable {icmpIn : ProcessingNode} (h : ∀ w b, key (icmpIn w b).state = key w)

include h

theorem IpLoopState.handOver_key (s : IpLoopState) : key (s.handOver icmpIn).state.world = key s.world := by
  have hcall := ProcessingNode.call_key h s.world s.icmpPkts
  unfold IpLoopState.handOver
  split
  · rename_i w hw; rw [hw] at hcall; exact hcall
  · rename_i p w hw; rw [hw] at hcall; exact hcall

/-- `ipv4-in` leaves alone what the node behind it does. -/
theorem Ipv4In.processFrame_key (s : IpLoopState) (f : DataFromNetif) :
    key (Ipv4In.processFrame icmpIn s f).state.world = key s.world := by
  unfold Ipv4In.processFrame
  refine attempt_key (g := fun s : IpLoopState => key s.world) rfl fun v _ => ?_
  simp only
  split
  · rfl
  · refine (IpLoopState.handOver_key h _).trans ?_
    split
    · split
      · split
        · rfl
        · rfl
      all_goals rfl
    · rfl

theorem Ipv4In.process_key (w : World) (b : List DataFromNetif) : key (Ipv4In.process icmpIn w b).state = key w := by
  unfold Ipv4In.process
  rw [IpLoopState.finish_state]
  exact forEach_key (g := fun s : IpLoopState => key s.world) (Ipv4In.processFrame_key h) ⟨w, []⟩ b

/-- `ipv6-in` leaves alone what the node behind it does. -/
theorem Ipv6In.processFrame_key (s : IpLoopState) (f : DataFromNetif) :
    key (Ipv6In.processFrame icmpIn s f).state.world = key s.world := by
  unfold Ipv6In.processFrame
  refine attempt_key (g := fun s : IpLoopState => key s.world) rfl fun v _ => ?_
  simp only
  split
  · rfl
  · refine attempt_key (g := fun s : IpLoopState => key s.world) rfl fun found _ => ?_
    refine (IpLoopState.handOver_key h _).trans ?_
    split
    · split
      · split
        · rfl
        · rfl
      all_goals rfl
    · rfl

theorem Ipv6In.process_key (w : World) (b : List DataFromNetif) : key (Ipv6In.process icmpIn w b).state = key w := by
  unfold Ipv6In.process
  rw [IpLoopState.finish_state]
  exact forEach_key (g := fun s : IpLoopState => key s.world) (Ipv6In.processFrame_key h) ⟨w, []⟩ b

end

/-- The IP nodes, as `start_rust` registers them, write no table. -/
theorem Ipv4In.call_tables (heap : ℕ → Block) (w : World) (b : List DataFromNetif) :
    (ProcessingNode.call (Ipv4In.process (Icmpv4InLocal.process heap)) w b).state.tables = w.tables :=
  ProcessingNode.call_key (Ipv4In.process_key (Icmpv4InLocal.process_tables heap)) w b

theorem Ipv6In.call_tables (heap : ℕ → Block) (w : World) (b : List DataFromNetif) :
    (ProcessingNode.call (Ipv6In.process (Icmpv6InLocal.process heap)) w b).state.tables = w.tables :=
  ProcessingNode.call_key (Ipv6In.process_key (Icmpv6InLocal.process_tables heap)) w b

/-! ## Whole runs -/

/-- The state once the source address of a frame has been learnt. -/
def EthernetIn.learn (w : World) (f : DataFromNetif) : World :=
  { w with macAddrTable := registerMacaddress w.macAddrTable (.new (f.buffer.field 6 6)) f.netif false none }

/-- **Invariant rule for a batch.** What learning a source address, an ARP packet, and
everything that writes no table keep, `ethernet-in` keeps, also when it panics. -/
theorem ethernetIn_inv {P : World → Prop} (heap : ℕ → Block) (buff : List DataFromNetif)
    (hmac : ∀ f w, P w → P (EthernetIn.learn w f))
    (harp : ∀ f w, P w → P (ArpIn.processFrame heap w f).state)
    (htables : ∀ w w' : World, w'.tables = w.tables → P w → P w') {w : World} (hw : P w) :
    P (ethernetIn heap w buff).state := by
  have hloop : P (forEach EthernetIn.processFrame ⟨w, [], [], []⟩ buff).state.world := by
    refine forEach_inv (P := fun s : EthernetIn.LoopState => P s.world) buff (fun f _ s hs => ?_) _ hw
    have hlearnt := hmac f s.world hs
    unfold EthernetIn.processFrame
    refine attempt_inv (P := fun s : EthernetIn.LoopState => P s.world) hs fun _ _ => ?_
    simp only
    split
    · rw [Outcome.state_ok, EthernetIn.procFrame_world]; exact hlearnt
    · split
      · split
        · rw [Outcome.state_ok, EthernetIn.procFrame_world]; exact hlearnt
        · exact hlearnt
      · exact hlearnt
  unfold ethernetIn EthernetIn.process
  split
  · rename_i p s hs; rw [hs] at hloop; exact hloop
  · rename_i s hs
    rw [hs] at hloop
    -- the three nodes behind, one after the other
    refine Outcome.bind_inv (Outcome.bind_inv ?_ ?_) ?_
    · unfold ProcessingNode.call
      split
      · exact forEach_inv s.arpPkts (fun f _ w hw => harp f w hw) s.world hloop
      · exact hloop
    · exact fun w hw => htables w _ (Ipv4In.call_tables heap w _) hw
    · exact fun w hw => htables w _ (Ipv6In.call_tables heap w _) hw

namespace LocalSet

variable {S : List MacAddress} {w : World}

/-- `ethernet-in` keeps the local addresses, also when it panics. -/
theorem ethernetIn (h : LocalSet S w.macAddrTable) (heap : ℕ → Block) (buff : List DataFromNetif) :
    LocalSet S (ethernetIn heap w buff).state.macAddrTable := by
  refine ethernetIn_inv (P := fun w => LocalSet S w.macAddrTable) heap buff ?_ ?_ ?_ h
  · intro f w hw
    exact hw.learn _ _ _
  · intro f w hw
    rw [(ArpIn.processFrame_others heap w f).mac]
    exact hw
  · intro w w' hw' hw
    rw [(World.Keeps.of_tables hw').mac]
    exact hw

theorem after (h : LocalSet S w.macAddrTable) (heap : ℕ → Block) (batches : List (List DataFromNetif)) :
    LocalSet S (w.after heap batches).macAddrTable :=
  forEach_inv (P := fun w : World => LocalSet S w.macAddrTable) batches
    (fun buff _ _ hw => hw.ethernetIn heap buff) w h

end LocalSet

theorem VirtioNet.Received.sliceLen {b : Buffer} (h : VirtioNet.Received b) :
    b.sliceLen = 4084 ∨ b.sliceLen = 69620 := by
  obtain ⟨hp, hl⟩ := h
  unfold Buffer.sliceLen
  rw [hp]
  rcases hl with hl | hl
  · rw [hl]; exact .inl rfl
  · rw [hl]; exact .inr rfl

/-- **Ethernet dispatch over whole runs.** After start-up and any batches of frames,
* the local addresses are those registered at start-up;
* for every batch of received frames, `ethernet-in` hands to each of the nodes
  behind it, whatever they are, exactly the frames of its type whose destination is
  broadcast or registered at start-up, in order, and calls it once if there are
  any. -/
theorem ethernet_dispatch (heap : ℕ → Block) {ifs : List Interface} {w₀ : World}
    (hstart : World.start ifs = .ok w₀) (batches : List (List DataFromNetif)) {buff : List DataFromNetif}
    (hbuff : ∀ f ∈ buff, VirtioNet.Received f.buffer) :
    (∀ m, (∃ adj, (w₀.after heap batches).macAddrTable m = some adj ∧ adj.isLocal = true) ↔
      m ∈ World.localMacs ifs) ∧
    ∃ t, (∀ m, (∃ adj, t m = some adj ∧ adj.isLocal = true) ↔ m ∈ World.localMacs ifs) ∧
      ∀ arpIn ipv4In ipv6In : ProcessingNode,
        EthernetIn.process arpIn ipv4In ipv6In (w₀.after heap batches) buff =
          ((arpIn.call { w₀.after heap batches with macAddrTable := t }
            (buff.filter (accepted (World.localMacs ifs) [0x08, 0x06]))).bind fun w =>
            ipv4In.call w (buff.filter (accepted (World.localMacs ifs) [0x08, 0x00]))).bind fun w =>
            ipv6In.call w (buff.filter (accepted (World.localMacs ifs) [0x86, 0xDD])) := by
  obtain ⟨w₁, hw₁, hs⟩ := World.start_ok ifs
  rw [hstart, Except.ok.injEq] at hw₁
  subst hw₁
  have hrun := hs.localSet.after heap batches
  have hlen : ∀ f ∈ buff, 0 < f.buffer.sliceLen := by
    intro f hf
    rcases (hbuff f hf).sliceLen with h | h
    · omega
    · omega
  obtain ⟨t, ht, hproc⟩ := EthernetIn.process_ok hrun hlen
  exact ⟨hrun.isLocal_iff, t, ht.isLocal_iff, hproc⟩

/-- A received page with the given bytes behind the virtio header, and zeros. -/
def DataFromNetif.ofBytes (netif : Netif) (bytes : List UInt8) : DataFromNetif :=
  ⟨netif, ⟨4096, 4096, 12, ⟨4096, 4096⟩, fun i => if i < 12 then 0 else bytes.getD (i - 12) 0⟩⟩

theorem DataFromNetif.ofBytes_received (netif : Netif) (bytes : List UInt8) :
    VirtioNet.Received (DataFromNetif.ofBytes netif bytes).buffer := ⟨rfl, .inl rfl⟩

/-- The interfaces of `start_rust`, with two MAC addresses. -/
def World.testIfs : List Interface := World.interfaces (.new ![2, 0, 0, 0, 0, 1]) (.new ![2, 0, 0, 0, 0, 2])

/-- An ARP frame with a local address as its source, for an address nobody has. -/
def spoofedFrame : DataFromNetif :=
  .ofBytes ⟨0, .new ![2, 0, 0, 0, 0, 1]⟩ [4, 0, 0, 0, 0, 9, 2, 0, 0, 0, 0, 2, 0x08, 0x06]

/-- An ARP broadcast. -/
def broadcastFrame : DataFromNetif :=
  .ofBytes ⟨0, .new ![2, 0, 0, 0, 0, 1]⟩
    [0xff, 0xff, 0xff, 0xff, 0xff, 0xff, 4, 0, 0, 0, 0, 9, 0x08, 0x06]

/-- Of the two frames, `arp-in` gets the broadcast. -/
theorem ethernet_dispatch_spoofed : ∃ w₀ t, World.start World.testIfs = .ok w₀ ∧
    ∀ arpIn ipv4In ipv6In : ProcessingNode,
      EthernetIn.process arpIn ipv4In ipv6In (w₀.after pages [])
        [spoofedFrame, broadcastFrame] =
      ((arpIn.call { w₀.after pages [] with macAddrTable := t }
        [broadcastFrame]).bind fun w => ipv4In.call w []).bind fun w => ipv6In.call w [] := by
  obtain ⟨w₀, hw₀, -⟩ := World.start_ok World.testIfs
  have hbuff : ∀ f ∈ [spoofedFrame, broadcastFrame], VirtioNet.Received f.buffer := by
    intro f hf
    simp only [List.mem_cons, List.not_mem_nil, or_false] at hf
    rcases hf with rfl | rfl
    · exact DataFromNetif.ofBytes_received _ _
    · exact DataFromNetif.ofBytes_received _ _
  obtain ⟨-, t, -, h⟩ := ethernet_dispatch pages hw₀ [] hbuff
  refine ⟨w₀, t, hw₀, fun arpIn ipv4In ipv6In => (h arpIn ipv4In ipv6In).trans ?_⟩
  have h1 : ∀ t, accepted (World.localMacs World.testIfs) t spoofedFrame = false := by
    intro t
    have hd : (decide (spoofedFrame.buffer.field 0 6 = fun _ => 0xff) ||
      decide (MacAddress.new (spoofedFrame.buffer.field 0 6) ∈ World.localMacs World.testIfs)) = false := by
      decide +kernel
    unfold accepted
    rw [hd, Bool.and_false]
  have h2 : accepted (World.localMacs World.testIfs) [0x08, 0x06] broadcastFrame = true := by decide +kernel
  have h3 : accepted (World.localMacs World.testIfs) [0x08, 0x00] broadcastFrame = false := by decide +kernel
  have h4 : accepted (World.localMacs World.testIfs) [0x86, 0xDD] broadcastFrame = false := by decide +kernel
  simp only [List.filter_cons, List.filter_nil, h1, h2, h3, h4, Bool.false_eq_true, if_false, if_true]

end Urchin
