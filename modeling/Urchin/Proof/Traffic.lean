import Urchin.Proof.HandOver
import Urchin.Proof.Reply
import Urchin.Proof.Router

/-!
# How much the router sends

A batch of `n` frames makes it send `n (n + 1) / 2` at most (`ethernetIn_traffic`): one for
each ARP packet, and in round `k` of an IP node one for each of the `k` packets collected
so far. Pings reach the bound (`World.pings_amplified`): the requests of a batch are
answered again in every later round. `Router.traffic_bounded` is the bound for the router
at work, over all its interfaces and batches.
-/

namespace Urchin

open Exec

/-- `1 + 2 + … + n` -/
def triangle (n : ℕ) : ℕ := n * (n + 1) / 2

@[simp] theorem triangle_zero : triangle 0 = 0 := rfl

theorem triangle_succ (n : ℕ) : triangle (n + 1) = triangle n + (n + 1) := by
  unfold triangle
  have hprod : (n + 1) * (n + 1 + 1) = n * (n + 1) + (n + 1) * 2 := by ring
  rw [hprod, Nat.add_mul_div_right _ _ Nat.two_pos]

/-- Two batches make less than both together. -/
theorem triangle_add_le (a b : ℕ) : triangle a + triangle b ≤ triangle (a + b) := by
  induction b with
  | zero => exact le_refl _
  | succ b ih =>
    rw [triangle_succ, ← Nat.add_assoc a b 1, triangle_succ]
    omega

theorem le_triangle (n : ℕ) : n ≤ triangle n := by
  cases n with
  | zero => exact le_refl 0
  | succ n =>
    rw [triangle_succ]
    omega

theorem triangle_mono {a b : ℕ} (h : a ≤ b) : triangle a ≤ triangle b := by
  obtain ⟨c, rfl⟩ := Nat.exists_eq_add_of_le h
  exact (Nat.le_add_right _ _).trans (triangle_add_le a c)

/-! ## The bound -/

/-- One ARP packet. -/
theorem ArpIn.processFrame_sent (heap : ℕ → Block) (w : World) (f : DataFromNetif) :
    (ArpIn.processFrame heap w f).state.sent.length ≤ w.sent.length + 1 := by
  have hstay : w.sent.length ≤ w.sent.length + 1 := Nat.le_succ _
  unfold ArpIn.processFrame
  refine attempt_inv (P := fun w' : World => w'.sent.length ≤ w.sent.length + 1) hstay fun _ _ => ?_
  simp only
  split
  · split
    · split
      · unfold ArpIn.reply
        refine attempt_inv (P := fun w' : World => w'.sent.length ≤ w.sent.length + 1) hstay fun _ _ => ?_
        refine attempt_inv (P := fun w' : World => w'.sent.length ≤ w.sent.length + 1) hstay fun _ _ => ?_
        simp [World.xmit]
      · exact hstay
    · exact hstay
  · exact hstay

/-- A node that sends `k n` frames at most for a batch of `n`. -/
def ProcessingNode.Sends (k : ℕ → ℕ) (node : ProcessingNode) : Prop :=
  ∀ w b, (node w b).state.sent.length ≤ w.sent.length + k b.length

theorem sends_forEach {node : World → DataFromNetif → Outcome World}
    (h : ∀ w f, (node w f).state.sent.length ≤ w.sent.length + 1) : ProcessingNode.Sends id (forEach node) := by
  intro w b
  have hcount := forEach_count (m := fun w : World => w.sent.length) h b w
  rwa [List.map_const', List.sum_replicate, smul_eq_mul, mul_one] at hcount

theorem ArpIn.sends (heap : ℕ → Block) : ProcessingNode.Sends id (ArpIn.process heap) :=
  sends_forEach (ArpIn.processFrame_sent heap)

theorem Icmpv4InLocal.sends (heap : ℕ → Block) : ProcessingNode.Sends id (Icmpv4InLocal.process heap) := by
  refine sends_forEach fun w f => (Icmpv4InLocal.processFrame_sent heap w f).trans ?_
  split
  · exact le_refl _
  · exact Nat.le_succ _

theorem Icmpv6InLocal.sends (heap : ℕ → Block) : ProcessingNode.Sends id (Icmpv6InLocal.process heap) := by
  refine sends_forEach fun w f => (Icmpv6InLocal.processFrame_sent heap w f).trans ?_
  split
  · exact le_refl _
  · exact Nat.le_succ _

theorem ProcessingNode.Sends.call {k : ℕ → ℕ} {node : ProcessingNode} (h : node.Sends k) :
    ProcessingNode.Sends k node.call := by
  intro w b
  unfold ProcessingNode.call
  split
  · exact h w b
  · exact Nat.le_add_right _ _

section

variable {icmpIn : ProcessingNode} (h : icmpIn.Sends id)

/-- A round of an IP node: it does nothing, or hands over what was collected before it and
one frame more at most. -/
def HandsOver (icmpIn : ProcessingNode) (s : IpLoopState) (o : Outcome IpLoopState) : Prop :=
  o.state = s ∨ ∃ pkts : List DataFromNetif, pkts.length ≤ s.icmpPkts.length + 1 ∧
    o = IpLoopState.handOver { s with icmpPkts := pkts } icmpIn

theorem Ipv4In.handsOver (s : IpLoopState) (f : DataFromNetif) :
    HandsOver icmpIn s (Ipv4In.processFrame icmpIn s f) := by
  unfold Ipv4In.processFrame attempt
  split
  · simp only
    split
    · exact .inl rfl
    · refine .inr ?_
      split
      · split
        · split
          · exact ⟨s.icmpPkts ++ [f], by simp, rfl⟩
          · exact ⟨s.icmpPkts, Nat.le_succ _, rfl⟩
        all_goals exact ⟨s.icmpPkts, Nat.le_succ _, rfl⟩
      · exact ⟨s.icmpPkts, Nat.le_succ _, rfl⟩
  · exact .inl rfl

theorem Ipv6In.handsOver (s : IpLoopState) (f : DataFromNetif) :
    HandsOver icmpIn s (Ipv6In.processFrame icmpIn s f) := by
  unfold Ipv6In.processFrame attempt
  split
  · simp only
    split
    · exact .inl rfl
    · split
      · refine .inr ?_
        split
        · split
          · split
            · exact ⟨s.icmpPkts ++ [f], by simp, rfl⟩
            · exact ⟨s.icmpPkts, Nat.le_succ _, rfl⟩
          all_goals exact ⟨s.icmpPkts, Nat.le_succ _, rfl⟩
        · exact ⟨s.icmpPkts, Nat.le_succ _, rfl⟩
      · exact .inl rfl
  · exact .inl rfl

include h

theorem IpLoopState.handOver_sent (s : IpLoopState) :
    (s.handOver icmpIn).state.icmpPkts = s.icmpPkts ∧
    (s.handOver icmpIn).state.world.sent.length ≤ s.world.sent.length + s.icmpPkts.length := by
  have hcall := h.call s.world s.icmpPkts
  unfold IpLoopState.handOver
  split
  · rename_i w hw
    rw [hw] at hcall
    exact ⟨rfl, hcall⟩
  · rename_i p w hw
    rw [hw] at hcall
    exact ⟨rfl, hcall⟩

/-- **The loop of an IP node**: round `k` sends no more than was there before and `k`. -/
theorem handsOver_sent {step : IpLoopState → DataFromNetif → Outcome IpLoopState}
    (hstep : ∀ s f, HandsOver icmpIn s (step s f)) (buff : List DataFromNetif) : ∀ s : IpLoopState,
    (forEach step s buff).state.world.sent.length ≤
      s.world.sent.length + buff.length * s.icmpPkts.length + triangle buff.length := by
  induction buff with
  | nil => intro s; simp [forEach]
  | cons f buff ih =>
    intro s
    -- what the first round leaves
    have hround : (step s f).state.icmpPkts.length ≤ s.icmpPkts.length + 1 ∧
        (step s f).state.world.sent.length ≤ s.world.sent.length + s.icmpPkts.length + 1 := by
      rcases hstep s f with hstay | ⟨pkts, hlen, hover⟩
      · rw [hstay]
        omega
      · obtain ⟨hpkts, hsent⟩ := IpLoopState.handOver_sent h { s with icmpPkts := pkts }
        rw [hover, hpkts]
        exact ⟨hlen, hsent.trans (by simp only; omega)⟩
    have hrest : buff.length * (s.icmpPkts.length + 1) = buff.length * s.icmpPkts.length + buff.length := by ring
    have hall : (f :: buff).length * s.icmpPkts.length = buff.length * s.icmpPkts.length + s.icmpPkts.length := by
      rw [List.length_cons]
      ring
    rw [hall, List.length_cons, triangle_succ, forEach_cons]
    cases ho : step s f with
    | panic p s₁ =>
      rw [ho] at hround
      simp only [Outcome.bind_panic, Outcome.state_panic] at hround ⊢
      omega
    | ok s₁ =>
      rw [ho] at hround
      simp only [Outcome.bind_ok, Outcome.state_ok] at hround ⊢
      have hmul := Nat.mul_le_mul_left buff.length hround.1
      have hih := ih s₁
      omega

theorem Ipv4In.sends : ProcessingNode.Sends triangle (Ipv4In.process icmpIn) := by
  intro w b
  unfold Ipv4In.process
  rw [IpLoopState.finish_state]
  simpa using handsOver_sent h Ipv4In.handsOver b ⟨w, []⟩

theorem Ipv6In.sends : ProcessingNode.Sends triangle (Ipv6In.process icmpIn) := by
  intro w b
  unfold Ipv6In.process
  rw [IpLoopState.finish_state]
  simpa using handsOver_sent h Ipv6In.handsOver b ⟨w, []⟩

end

/-- The frames kept so far. -/
def EthernetIn.LoopState.kept (s : EthernetIn.LoopState) : ℕ :=
  s.arpPkts.length + s.ipv4Pkts.length + s.ipv6Pkts.length

theorem EthernetIn.procFrame_kept (s : EthernetIn.LoopState) (f : DataFromNetif) :
    (EthernetIn.procFrame s f).kept ≤ s.kept + 1 := by
  unfold EthernetIn.procFrame EthernetIn.LoopState.kept
  simp only
  split
  · simp only [List.length_append, List.length_singleton]
    omega
  · split
    · simp only [List.length_append, List.length_singleton]
      omega
    · split
      · omega
      · split
        · simp only [List.length_append, List.length_singleton]
          omega
        · omega

/-- Each frame goes to one of the three nodes at most. -/
theorem EthernetIn.processFrame_kept (s : EthernetIn.LoopState) (f : DataFromNetif) :
    (EthernetIn.processFrame s f).state.kept ≤ s.kept + 1 := by
  unfold EthernetIn.processFrame
  refine attempt_inv (P := fun s' : EthernetIn.LoopState => s'.kept ≤ s.kept + 1) (Nat.le_succ _) fun _ _ => ?_
  simp only
  split
  · exact EthernetIn.procFrame_kept _ f
  · split
    · split
      · exact EthernetIn.procFrame_kept _ f
      · exact Nat.le_succ _
    · exact Nat.le_succ _

theorem EthernetIn.processFrame_sent (s : EthernetIn.LoopState) (f : DataFromNetif) :
    (EthernetIn.processFrame s f).state.world.sent = s.world.sent := by
  rcases EthernetIn.processFrame_world s f with he | he
  · rw [he]
  · rw [he]
    rfl

/-- **A batch of `n` frames makes the router send `n (n + 1) / 2` at most.** -/
theorem ethernetIn_sends (heap : ℕ → Block) : ProcessingNode.Sends triangle (ethernetIn heap) := by
  intro w buff
  have hsent : (forEach EthernetIn.processFrame ⟨w, [], [], []⟩ buff).state.world.sent = w.sent :=
    forEach_key (g := fun s : EthernetIn.LoopState => s.world.sent) EthernetIn.processFrame_sent _ buff
  have hkept := forEach_count (m := EthernetIn.LoopState.kept) EthernetIn.processFrame_kept buff ⟨w, [], [], []⟩
  rw [List.map_const', List.sum_replicate, smul_eq_mul, mul_one] at hkept
  unfold ethernetIn EthernetIn.process
  split
  · rename_i p s hs
    rw [hs] at hsent
    exact (congrArg List.length hsent).le.trans (Nat.le_add_right _ _)
  · rename_i s hs
    rw [hs] at hsent hkept
    simp only [Outcome.state_ok] at hsent hkept
    have hparts : s.arpPkts.length + triangle s.ipv4Pkts.length + triangle s.ipv6Pkts.length ≤
        triangle buff.length := by
      have hle := le_triangle s.arpPkts.length
      have h4 := triangle_add_le s.arpPkts.length s.ipv4Pkts.length
      have h6 := triangle_add_le (s.arpPkts.length + s.ipv4Pkts.length) s.ipv6Pkts.length
      have hall : triangle s.kept ≤ triangle buff.length := triangle_mono (by simpa [EthernetIn.LoopState.kept] using hkept)
      unfold EthernetIn.LoopState.kept at hall
      omega
    have harp := (ArpIn.sends heap).call s.world s.arpPkts
    have hipv4 := Outcome.bind_count (m := fun w : World => w.sent.length) harp
      fun w => (Ipv4In.sends (Icmpv4InLocal.sends heap)).call w s.ipv4Pkts
    have hipv6 := Outcome.bind_count (m := fun w : World => w.sent.length) hipv4
      fun w => (Ipv6In.sends (Icmpv6InLocal.sends heap)).call w s.ipv6Pkts
    refine hipv6.trans ?_
    rw [hsent]
    simp only [id_eq]
    omega

/-- The bound for a run of batches. -/
theorem World.after_traffic (heap : ℕ → Block) (w : World) (batches : List (List DataFromNetif)) :
    (w.after heap batches).sent.length ≤ w.sent.length + (batches.map fun b => triangle b.length).sum :=
  forEach_count (m := fun w : World => w.sent.length) (ethernetIn_sends heap) batches w

/-! ## The bound is reached -/

/-- The first, the first two, and so on. -/
theorem flatten_inits_length {α : Type*} (xs : List α) : xs.inits.flatten.length = triangle xs.length := by
  induction xs with
  | nil => simp
  | cons x xs ih =>
    have hmap : (xs.inits.map (x :: ·)).map List.length = (xs.inits.map List.length).map (· + 1) := by
      rw [List.map_map, List.map_map]
      rfl
    have hsum (l : List ℕ) : (l.map (· + 1)).sum = l.sum + l.length := by
      induction l with
      | nil => rfl
      | cons n l ih =>
        rw [List.map_cons, List.sum_cons, ih, List.sum_cons, List.length_cons]
        omega
    rw [List.length_flatten] at ih ⊢
    rw [List.inits_cons, List.map_cons, List.sum_cons, hmap, hsum, ih, List.length_map, List.length_inits,
      List.length_cons, triangle_succ, List.length_nil, Nat.zero_add]

/-- If every frame is collected, each round hands over all there were. -/
theorem handed_inits {α : Type*} {counts takes : α → Bool} (xs : List α) (h : ∀ x ∈ xs, counts x = true ∧ takes x = true) :
    ∀ acc, handed counts takes acc xs = xs.inits.tail.map (acc ++ ·) := by
  induction xs with
  | nil => intro acc; rfl
  | cons x xs ih =>
    intro acc
    obtain ⟨hc, ht⟩ := h x List.mem_cons_self
    have hrest := ih (fun y hy => h y (List.mem_cons_of_mem _ hy)) (acc ++ [x])
    have hinits : xs.inits = [] :: xs.inits.tail := by cases xs <;> rfl
    unfold handed
    rw [if_pos hc, if_pos ht, if_pos (by simp), hrest, List.inits_cons, List.tail_cons, List.map_map]
    conv_rhs => rw [hinits, List.map_cons]
    congr 1
    refine List.map_congr_left fun l _ => ?_
    simp

/-- A ping for the router: it is addressed to it on both layers, and well formed. -/
structure IsPing (S : List MacAddress) (fib : Ipv4Fib) (f : DataFromNetif) : Prop where
  accepted : accepted S [0x08, 0x00] f = true
  taken : Ipv4In.takes fib f = true
  request : Icmpv4InLocal.IsRequest f

namespace IsPing

variable {S : List MacAddress} {fib : Ipv4Fib} {f : DataFromNetif}

theorem sliceLen (h : IsPing S fib f) : 14 < f.buffer.sliceLen := by
  have h1 := h.request.header
  have h2 := h.request.total
  have h3 := h.request.fits
  omega

theorem not_accepted (h : IsPing S fib f) {t : List UInt8} (ht : t ≠ [0x08, 0x00]) : ¬ Urchin.accepted S t f = true := by
  intro hacc
  have h1 := of_decide_eq_true (Bool.and_eq_true_iff.1 h.accepted).1
  have h2 := of_decide_eq_true (Bool.and_eq_true_iff.1 hacc).1
  exact ht (h2.symm.trans h1)

end IsPing

/-- The frame sent is the echo reply to the ping, on the interface it came from. -/
def IsReply (f : DataFromNetif) (s : Netif × Buffer) : Prop :=
  s.1 = f.netif ∧ Transmits s.2 (Icmpv4InLocal.replyBytes f.netif f.buffer) (Icmpv4InLocal.echo.stop f.buffer)

/-- What `ipv4-in` makes of a batch of pings: replies to the first, to the first two, and
so on. -/
theorem Ipv4In.process_pings {S : List MacAddress} (heap : ℕ → Block) {w : World} {buff : List DataFromNetif}
    (h : ∀ f ∈ buff, IsPing S w.ipv4Fib f) :
    ∃ out, Ipv4In.process (Icmpv4InLocal.process heap) w buff = .ok (w.replied out) ∧
      List.Forall₂ IsReply buff.inits.flatten out := by
  have hkeep : ∀ w' b, w'.ipv4Fib = w.ipv4Fib → (Icmpv4InLocal.process heap w' b).state.ipv4Fib = w.ipv4Fib :=
    fun w' b hw' => (World.Keeps.of_tables (Icmpv4InLocal.process_tables heap w' b)).fib.trans hw'
  have hloop : Ipv4In.process (Icmpv4InLocal.process heap) w buff =
      forEach (Icmpv4InLocal.process heap) w (Ipv4In.handed w.ipv4Fib buff) := by
    refine handOver_loop (P := fun w' => w'.ipv4Fib = w.ipv4Fib) hkeep buff (fun f hf s hs => ?_) w [] rfl
    rw [Ipv4In.processFrame_eq _ s (h f hf).sliceLen, hs]
  have hall : ∀ f ∈ buff, Ipv4In.counts f = true ∧ Ipv4In.takes w.ipv4Fib f = true := fun f hf =>
    ⟨(Bool.and_eq_true_iff.1 (h f hf).taken).1, (h f hf).taken⟩
  have hhanded : (Ipv4In.handed w.ipv4Fib buff).flatten = buff.inits.flatten := by
    unfold Ipv4In.handed
    rw [handed_inits buff hall]
    simp only [List.nil_append, List.map_id']
    cases buff with
    | nil => rfl
    | cons f buff => rw [List.inits_cons, List.tail_cons, List.flatten_cons, List.nil_append]
  rw [hloop]
  unfold Icmpv4InLocal.process
  rw [forEach_flatten, hhanded]
  refine forEach_replies (R := fun f r => Transmits r (Icmpv4InLocal.replyBytes f.netif f.buffer)
    (Icmpv4InLocal.echo.stop f.buffer)) _ (fun f hf w' => ?_) w
  -- a frame of an initial part is one of the batch
  obtain ⟨l, hl, hfl⟩ := List.mem_flatten.1 hf
  exact Icmpv4InLocal.processFrame_reply heap w' (h f (((List.mem_inits l buff).1 hl).subset hfl)).request

/-- A batch of pings. -/
theorem ethernetIn_pings {S : List MacAddress} (heap : ℕ → Block) {w : World} (hlocal : LocalSet S w.macAddrTable)
    {buff : List DataFromNetif} (h : ∀ f ∈ buff, IsPing S w.ipv4Fib f) :
    ∃ t out, ethernetIn heap w buff = .ok (World.replied { w with macAddrTable := t } out) ∧
      List.Forall₂ IsReply buff.inits.flatten out := by
  obtain ⟨t, -, hproc⟩ := EthernetIn.process_ok hlocal fun f hf => Nat.zero_lt_of_lt (h f hf).sliceLen
  have hnone {ty : List UInt8} (hty : ty ≠ [0x08, 0x00]) : buff.filter (accepted S ty) = [] :=
    List.filter_eq_nil_iff.2 fun f hf => (h f hf).not_accepted hty
  have hall : buff.filter (accepted S [0x08, 0x00]) = buff :=
    List.filter_eq_self.2 fun f hf => (h f hf).accepted
  have hskip (node : ProcessingNode) (w : World) : node.call w [] = .ok w := rfl
  have hpings : ∀ f ∈ buff, IsPing S ({ w with macAddrTable := t } : World).ipv4Fib f := h
  obtain ⟨out, hout, hrel⟩ := Ipv4In.process_pings heap hpings
  refine ⟨t, out, ?_, hrel⟩
  unfold ethernetIn
  rw [hproc, hnone (by decide), hall, hnone (by decide), hskip, Outcome.bind_ok]
  have hcall : ProcessingNode.call (Ipv4In.process (Icmpv4InLocal.process heap)) { w with macAddrTable := t } buff =
      .ok (World.replied { w with macAddrTable := t } out) := by
    unfold ProcessingNode.call
    split
    · exact hout
    · rename_i hlen
      obtain rfl : buff = [] := List.length_eq_zero_iff.1 (Nat.eq_zero_of_not_pos hlen)
      exact hout
  rw [hcall, Outcome.bind_ok, hskip]

/-- **Traffic is quadratic, and no more.** After start-up and any run of batches of any frames,
* the router has sent no more than `n (n + 1) / 2` frames for each batch of `n`;
* it sends as many for a next batch of `n` pings: the replies to the first, then to the
  first two, and so on, each on the interface of its ping. -/
theorem World.pings_amplified (heap : ℕ → Block) {ifs : List Interface} {w₀ : World} (hstart : World.start ifs = .ok w₀)
    (batches : List (List DataFromNetif)) {buff : List DataFromNetif}
    (hbuff : ∀ f ∈ buff, IsPing (World.localMacs ifs) (w₀.after heap batches).ipv4Fib f) :
    (w₀.after heap batches).sent.length ≤ w₀.sent.length + (batches.map fun b => triangle b.length).sum ∧
    ∃ t out, ethernetIn heap (w₀.after heap batches) buff =
        .ok (World.replied { w₀.after heap batches with macAddrTable := t } out) ∧
      List.Forall₂ IsReply buff.inits.flatten out ∧ out.length = triangle buff.length := by
  obtain ⟨w₁, hw₁, hs⟩ := World.start_ok ifs
  obtain rfl := Except.ok.inj (hstart.symm.trans hw₁)
  obtain ⟨t, out, hout, hrel⟩ := ethernetIn_pings heap (hs.localSet.after heap batches) hbuff
  refine ⟨w₀.after_traffic heap batches, t, out, hout, hrel, ?_⟩
  rw [← hrel.length_eq, flatten_inits_length]

/-- 23 pings in one batch make more frames than a ring of 256 has room for. -/
theorem World.pings_amplified_ring : ∃ t out,
    ethernetIn pages (World.test.after pages [[arpAnnouncement 192 168 0 20]])
        (List.replicate 23 (pingFrame [100, 101, 102, 103])) =
      .ok (World.replied { World.test.after pages [[arpAnnouncement 192 168 0 20]] with macAddrTable := t } out) ∧
    out.length = 276 := by
  have hping : IsPing (World.localMacs World.testIfs)
      (World.test.after pages [[arpAnnouncement 192 168 0 20]]).ipv4Fib (pingFrame [100, 101, 102, 103]) :=
    ⟨by decide +kernel, by decide +kernel, by decide +kernel, by decide +kernel, by decide +kernel, by decide +kernel⟩
  have hall : ∀ f ∈ List.replicate 23 (pingFrame [100, 101, 102, 103]), IsPing (World.localMacs World.testIfs)
      (World.test.after pages [[arpAnnouncement 192 168 0 20]]).ipv4Fib f := by
    intro f hf
    rw [List.eq_of_mem_replicate hf]
    exact hping
  obtain ⟨-, t, out, hout, -, hlen⟩ := World.pings_amplified pages World.test_eq [[arpAnnouncement 192 168 0 20]] hall
  exact ⟨t, out, hout, hlen.trans (by decide)⟩

/-! ## The router at work -/

theorem sum_length_update {c : ℕ} {β : Type*} (f : Fin c → List β) (n : Fin c) (l : List β) :
    ∑ m, (Function.update f n l m).length + (f n).length = ∑ m, (f m).length + l.length := by
  have hcomp (m : Fin c) : (Function.update f n l m).length =
      Function.update (fun m => (f m).length) n l.length m := by
    by_cases hm : m = n
    · rw [hm, Function.update_self, Function.update_self]
    · rw [Function.update_of_ne hm, Function.update_of_ne hm]
  rw [Finset.sum_congr rfl fun m _ => hcomp m, Finset.sum_update_of_mem (Finset.mem_univ n),
    ← Finset.add_sum_erase Finset.univ _ (Finset.mem_univ n), Finset.sdiff_singleton_eq_erase]
  omega

/-- A frame is posted, or the queue refuses it. -/
theorem TxSys.xmit_sent_le {s t : TxSys} {b : Buffer} (h : s.step (.xmit b) = .ok t) :
    t.sent.length ≤ s.sent.length + 1 := by
  obtain ⟨r, -, rfl⟩ := map_eq_ok.1 h
  split
  · exact (List.length_append ..).le
  · exact Nat.le_succ _

namespace Router

variable {c : ℕ} {heap : Fin c → ℕ → Block} {txHeap : ℕ → Block} {w₀ : World} {s s' : Router c}

/-- The frames posted, and those that wait, have been sent; and what has been sent is bounded. -/
structure TrafficOK (w₀ : World) (s : Router c) : Prop where
  posted : w₀.sent.length + (∑ n, (s.posted n).length + s.pending.length) ≤ s.world.sent.length
  sent : s.world.sent.length ≤ w₀.sent.length + (s.batches.map fun b => triangle b.length).sum

/-- A step at which no frame is sent. -/
theorem TrafficOK.of_eq (h : TrafficOK w₀ s) (hposted : s'.posted = s.posted) (hpending : s'.pending = s.pending)
    (hworld : s'.world = s.world) (hbatches : s'.batches = s.batches) : TrafficOK w₀ s' := by
  refine ⟨?_, ?_⟩
  · rw [hposted, hpending, hworld]
    exact h.posted
  · rw [hworld, hbatches]
    exact h.sent

theorem TrafficOK.process (h : TrafficOK w₀ s) (hpending : s.pending = []) (batch : List DataFromNetif) :
    TrafficOK w₀ (s.process txHeap batch) := by
  obtain ⟨more, hmore⟩ := ethernetIn_sent txHeap s.world batch
  have hlen : (ethernetIn txHeap s.world batch).state.sent.length = s.world.sent.length + more.length := by
    rw [← hmore, List.length_append]
  have hbound := ethernetIn_sends txHeap s.world batch
  have hposted := h.posted
  have hsent := h.sent
  rw [hpending, List.length_nil] at hposted
  refine ⟨?_, ?_⟩
  · show w₀.sent.length + (∑ n, (s.posted n).length +
      ((ethernetIn txHeap s.world batch).state.sent.drop s.world.sent.length).length) ≤ _
    rw [List.length_drop]
    show _ ≤ (ethernetIn txHeap s.world batch).state.sent.length
    omega
  · show (ethernetIn txHeap s.world batch).state.sent.length ≤
      _ + ((s.batches ++ [batch]).map fun b => triangle b.length).sum
    rw [List.map_append, List.sum_append, List.map_singleton, List.sum_singleton]
    omega

theorem TrafficOK.step (h : TrafficOK w₀ s) {o : RouterOp c} (he : s.step heap txHeap o = .ok s') :
    TrafficOK w₀ s' := by
  cases o with
  | rxTake n =>
    obtain rfl := Except.ok.inj he
    exact h.of_eq rfl rfl rfl rfl
  | rxComplete n bytes =>
    obtain rfl := Except.ok.inj he
    unfold Router.rxComplete
    split
    · exact h.of_eq rfl rfl rfl rfl
    · exact h
  | txTake n =>
    obtain rfl := Except.ok.inj he
    exact h.of_eq (Function.update_eq_self n _) rfl rfl rfl
  | txComplete n i len =>
    obtain rfl := Except.ok.inj he
    refine h.of_eq ?_ rfl rfl rfl
    have hsent : ((s.txView n).complete i len).sent = s.posted n := by
      unfold TxSys.complete
      split <;> rfl
    show Function.update s.posted n ((s.txView n).complete i len).sent = s.posted
    rw [hsent, Function.update_eq_self]
  | interrupt n irqed =>
    simp only [Router.step] at he
    split at he
    · obtain rfl := Except.ok.inj he
      exact h
    · rename_i hrun
      rw [Bool.or_eq_true, not_or, Bool.not_eq_true', Bool.not_eq_false] at hrun
      obtain ⟨r, -, rfl⟩ := map_eq_ok.1 he
      have hset : TrafficOK w₀ (s.setRx n ⟨r.2.1, s.rxDev n, r.2.2, s.rxDone n, s.delivered n ++ r.1⟩) :=
        h.of_eq rfl rfl rfl rfl
      dsimp only
      split
      · exact hset.process (List.isEmpty_iff.1 hrun.2) _
      · exact hset
  | flush =>
    simp only [Router.step] at he
    split at he
    rotate_left
    · obtain rfl := Except.ok.inj he
      exact h
    rename_i netif buffer rest hpend
    have hposted := h.posted
    rw [hpend, List.length_cons] at hposted
    split at he
    · obtain ⟨t, ht, rfl⟩ := map_eq_ok.1 he
      refine ⟨le_trans ?_ hposted, h.sent⟩
      have hsum := sum_length_update s.posted ⟨netif.id, ‹_›⟩ t.sent
      have hle := TxSys.xmit_sent_le ht
      show _ + (∑ m, (Function.update s.posted _ t.sent m).length + rest.length) ≤ _
      simp only [txView] at hle
      omega
    · obtain rfl := Except.ok.inj he
      refine ⟨le_trans ?_ hposted, h.sent⟩
      show _ + (∑ n, (s.posted n).length + rest.length) ≤ _
      omega

end Router

/-- **The traffic of the router at work**: in every state of every run, what all drivers together
have posted for transmission, and what the nodes have sent and is not posted, is bounded by
`n (n + 1) / 2` for each batch of `n` frames handed to `ethernet-in`. -/
theorem Router.traffic_bounded {c : ℕ} {heap : Fin c → ℕ → Block} {txHeap : ℕ → Block} {w₀ : World}
    {nets : Fin c → VirtioNet} {allocs : Fin c → ℕ} {ram : UInt64 → ℕ → UInt8} {s : Router c}
    (h : Reach (Router.step heap txHeap) (fun _ _ => True) (.init nets allocs ram w₀) s) :
    ∑ n, (s.posted n).length + s.pending.length ≤ (s.batches.map fun b => triangle b.length).sum := by
  have hinit : TrafficOK w₀ (.init nets allocs ram w₀ : Router c) := ⟨by simp [Router.init], by simp [Router.init]⟩
  have hok := h.inv hinit fun _ _ _ hs _ he => hs.step he
  have hposted := hok.posted
  have hsent := hok.sent
  omega

/-- One request, one reply. -/
theorem Router.traffic_bounded_request : ∃ s : Router 1, s.batches.length = 1 ∧ (s.txDev 0).taken = 1 ∧
    ∑ n, (s.posted n).length + s.pending.length ≤ (s.batches.map fun b => triangle b.length).sum := by
  obtain ⟨net, allocs, s, -, -, hreach, hbatches, -, htaken, -⟩ := exists_request_run
  exact ⟨s, hbatches, htaken, traffic_bounded (hreach.mono fun _ _ _ => trivial)⟩

end Urchin
