import Urchin.Proof.Echo
import Urchin.Proof.LocalRoute

/-!
# What the IP nodes hand over

`ipv4-in` and `ipv6-in` collect the local ICMP frames of a batch, and hand the collection
over at the end of every round, without clearing it. `handed` lists the batches the next
node gets, whatever that node is (`handOver_loop`). Each frame is handed over once exactly
if no frame of the right version follows one that has been collected
(`handed_flatten_iff`, `handed_once_iff`); two pings in a batch get three replies
(`handed_twice`).
-/

namespace Urchin

open Exec

/-! ## Growing batches -/

section

variable {α : Type*} (counts takes : α → Bool)

/-- The batches handed over by a loop that collects what it `takes`, and hands the
collection over in every round that `counts`, once it is not empty. -/
def handed : List α → List α → List (List α)
  | _, [] => []
  | acc, x :: xs =>
    if counts x then
      let acc := if takes x then acc ++ [x] else acc
      if acc.length > 0 then acc :: handed acc xs else handed acc xs
    else handed acc xs

variable {counts takes} (htc : ∀ x, takes x = true → counts x = true)

include htc

/-- With a collection that is not empty, every round that counts repeats an element. -/
theorem handed_length {acc : List α} (hacc : acc ≠ []) (xs : List α) :
    (xs.filter takes).length + xs.countP counts ≤ (handed counts takes acc xs).flatten.length := by
  induction xs generalizing acc with
  | nil => simp [handed]
  | cons x xs ih =>
    have hpos := List.length_pos_iff.2 hacc
    unfold handed
    cases hc : counts x with
    | false =>
      have ht : takes x = false := by
        by_contra h
        rw [htc x (by simpa using h)] at hc
        cases hc
      simpa [hc, ht, -List.length_flatten] using ih hacc
    | true =>
      cases ht : takes x with
      | false =>
        have := ih hacc
        simp [hc, ht, hpos, -List.length_flatten]
        omega
      | true =>
        have := ih (show acc ++ [x] ≠ [] by simp)
        simp [hc, ht, -List.length_flatten]
        omega

/-- After the first element collected, nothing that counts may follow. -/
theorem handed_flatten_collected {acc : List α} (hacc : acc ≠ []) (xs : List α) :
    (handed counts takes acc xs).flatten = xs.filter takes ↔ ∀ y ∈ xs, counts y ≠ true := by
  constructor
  · intro he y hy hcy
    have hlen := handed_length htc hacc xs
    have hcount := List.countP_pos_iff.2 ⟨y, hy, hcy⟩
    rw [he] at hlen
    omega
  · intro hall
    have hnil : handed counts takes acc xs = [] := by
      induction xs with
      | nil => rfl
      | cons x xs ih =>
        unfold handed
        rw [if_neg (hall x List.mem_cons_self)]
        exact ih fun y hy => hall y (List.mem_cons_of_mem _ hy)
    have hfilter : xs.filter takes = [] := by
      rw [List.filter_eq_nil_iff]
      exact fun y hy ht => hall y hy (htc y ht)
    rw [hnil, hfilter]
    rfl

/-- **When every element taken is handed over once, in order.** -/
theorem handed_flatten_iff (xs : List α) :
    (handed counts takes [] xs).flatten = xs.filter takes ↔
      xs.Pairwise fun x y => takes x = true → counts y ≠ true := by
  induction xs with
  | nil => simp [handed]
  | cons x xs ih =>
    rw [List.pairwise_cons]
    unfold handed
    by_cases ht : takes x = true
    · -- the first collection is handed over at once
      have hlater := handed_flatten_collected htc (show [x] ≠ [] by simp) xs
      simp only [htc x ht, ht, if_true, List.nil_append, List.length_singleton, gt_iff_lt, Nat.zero_lt_one,
        List.flatten_cons, List.singleton_append, List.filter_cons_of_pos, List.cons.injEq, true_and, true_implies]
      rw [hlater]
      refine ⟨fun hall => ⟨hall, ?_⟩, fun h => h.1⟩
      exact List.pairwise_of_forall_mem_list fun a ha b _ hta => absurd (htc a hta) (hall a ha)
    · have hskip : (if counts x = true then
          let acc : List α := if takes x = true then [] ++ [x] else []
          if acc.length > 0 then acc :: handed counts takes acc xs else handed counts takes acc xs
          else handed counts takes [] xs) = handed counts takes [] xs := by
        simp [ht]
      rw [hskip, List.filter_cons_of_neg ht, ih]
      refine ⟨fun h => ⟨fun _ _ hx => absurd hx ht, h⟩, fun h => h.2⟩

end

/-! ## The loops of the IP nodes -/

/-- **A loop that hands over.** If the rounds do so with predicates that do not change, the
next node is called with the batches `handed`, one after the other, until it panics. -/
theorem handOver_loop {step : IpLoopState → DataFromNetif → Outcome IpLoopState} {icmpIn : ProcessingNode}
    {counts takes : DataFromNetif → Bool} {P : World → Prop} (hnode : ∀ w b, P w → P (icmpIn w b).state)
    (buff : List DataFromNetif)
    (hstep : ∀ f ∈ buff, ∀ s : IpLoopState, P s.world → step s f = if counts f then
      IpLoopState.handOver { s with icmpPkts := if takes f then s.icmpPkts ++ [f] else s.icmpPkts } icmpIn
      else .ok s) :
    ∀ w acc, P w → IpLoopState.finish (forEach step ⟨w, acc⟩ buff) = forEach icmpIn w (handed counts takes acc buff) := by
  induction buff with
  | nil => intro w acc _; rfl
  | cons f buff ih =>
    intro w acc hw
    have hrest := ih fun g hg => hstep g (List.mem_cons_of_mem _ hg)
    unfold handed
    rw [forEach_cons, hstep f List.mem_cons_self ⟨w, acc⟩ hw]
    cases hc : counts f with
    | false => simpa using hrest w acc hw
    | true =>
      simp only [if_true]
      generalize (if takes f = true then acc ++ [f] else acc) = acc'
      unfold IpLoopState.handOver ProcessingNode.call
      by_cases hlen : acc'.length > 0
      · simp only [hlen, if_true]
        -- a call that panics ends both loops
        have hw' := hnode w acc' hw
        rw [forEach_cons]
        cases ho : icmpIn w acc' with
        | panic p w₁ => rfl
        | ok w₁ =>
          rw [ho] at hw'
          exact hrest w₁ acc' hw'
      · simp only [hlen, if_false]
        exact hrest w acc' hw

/-- The route found is a local one. -/
def foundLocal {α : Type} (found : Option (ForwardInformationBase α)) : Bool :=
  found.any fun e => decide (e.fibType = .Local)

/-- The frame is an IPv4 packet. -/
def Ipv4In.counts (f : DataFromNetif) : Bool := decide (f.buffer.peek 14 &&& 0xf0 = 0x40)

/-- The frame is an IPv4 packet for a local address, and its protocol is ICMP. -/
def Ipv4In.takes (fib : Ipv4Fib) (f : DataFromNetif) : Bool :=
  Ipv4In.counts f && (foundLocal (findIpv4Fib fib (.fromArray (f.buffer.field 30 4)) 0xffffffff) &&
    decide (f.buffer.peek 23 = 0x01))

/-- The frame is an IPv6 packet. -/
def Ipv6In.counts (f : DataFromNetif) : Bool := decide (f.buffer.peek 14 &&& 0xf0 = 0x60)

/-- The frame is an IPv6 packet for a local address, and its next header is ICMPv6. -/
def Ipv6In.takes (fib : Ipv6Fib) (f : DataFromNetif) : Bool :=
  Ipv6In.counts f && ((match findIpv6Fib fib (.fromArray (f.buffer.field 38 16)) 128 with
    | .ok found => foundLocal found
    | .error _ => false) && decide (f.buffer.peek 20 = 58))

/-- The batches `ipv4-in` hands over. -/
def Ipv4In.handed (fib : Ipv4Fib) (buff : List DataFromNetif) : List (List DataFromNetif) :=
  Urchin.handed Ipv4In.counts (Ipv4In.takes fib) [] buff

/-- The batches `ipv6-in` hands over. -/
def Ipv6In.handed (fib : Ipv6Fib) (buff : List DataFromNetif) : List (List DataFromNetif) :=
  Urchin.handed Ipv6In.counts (Ipv6In.takes fib) [] buff

theorem Ipv4In.processFrame_eq (icmpIn : ProcessingNode) (s : IpLoopState) {f : DataFromNetif}
    (hf : 14 < f.buffer.sliceLen) : Ipv4In.processFrame icmpIn s f = if Ipv4In.counts f then
      IpLoopState.handOver { s with
        icmpPkts := if Ipv4In.takes s.world.ipv4Fib f then s.icmpPkts ++ [f] else s.icmpPkts } icmpIn
      else .ok s := by
  unfold Ipv4In.processFrame
  rw [Buffer.read_ok hf, attempt_ok]
  by_cases hv : f.buffer.peek 14 &&& 0xf0 = 0x40
  · have hc : Ipv4In.counts f = true := decide_eq_true hv
    unfold Ipv4In.takes
    simp only [hv, ne_eq, not_true_eq_false, if_false, hc, if_true, Bool.true_and]
    generalize findIpv4Fib s.world.ipv4Fib (.fromArray (f.buffer.field 30 4)) 0xffffffff = found
    cases found with
    | none => rfl
    | some e =>
      obtain ⟨mac, addr, netif, fibType⟩ := e
      cases fibType with
      | Local =>
        by_cases hp : f.buffer.peek 23 = 0x01
        · simp [foundLocal, hp]
        · simp [foundLocal, hp]
      | Adjacent => rfl
      | AdjacentResolved => rfl
      | Remote => rfl
  · have hc : Ipv4In.counts f = false := decide_eq_false hv
    simp only [hv, ne_eq, not_false_eq_true, if_true, hc, Bool.false_eq_true, if_false]

theorem Ipv6In.processFrame_eq (icmpIn : ProcessingNode) (s : IpLoopState) {f : DataFromNetif}
    (hf : 14 < f.buffer.sliceLen) : Ipv6In.processFrame icmpIn s f = if Ipv6In.counts f then
      IpLoopState.handOver { s with
        icmpPkts := if Ipv6In.takes s.world.ipv6Fib f then s.icmpPkts ++ [f] else s.icmpPkts } icmpIn
      else .ok s := by
  unfold Ipv6In.processFrame
  rw [Buffer.read_ok hf, attempt_ok]
  by_cases hv : f.buffer.peek 14 &&& 0xf0 = 0x60
  · have hc : Ipv6In.counts f = true := decide_eq_true hv
    -- a query for 128 bits has a table
    obtain ⟨found, hfound⟩ : ∃ found, findIpv6Fib s.world.ipv6Fib (.fromArray (f.buffer.field 38 16)) 128 = .ok found :=
      ⟨_, rfl⟩
    unfold Ipv6In.takes
    simp only [hv, ne_eq, not_true_eq_false, if_false, hc, if_true, Bool.true_and, hfound, attempt_ok]
    cases found with
    | none => rfl
    | some e =>
      obtain ⟨mac, addr, netif, fibType⟩ := e
      cases fibType with
      | Local =>
        by_cases hp : f.buffer.peek 20 = 58
        · simp [foundLocal, hp]
        · simp [foundLocal, hp]
      | Adjacent => rfl
      | AdjacentResolved => rfl
      | Remote => rfl
  · have hc : Ipv6In.counts f = false := decide_eq_false hv
    simp only [hv, ne_eq, not_false_eq_true, if_true, hc, Bool.false_eq_true, if_false]

/-! ## Replies -/

/-- The frame is an ICMPv4 echo request. -/
def Icmpv4InLocal.isEcho (f : DataFromNetif) : Bool :=
  decide (f.buffer.peek (14 + (Icmpv4InLocal.headerLen f.buffer).toNat) = 0x08)

/-- The frame is an ICMPv6 echo request. -/
def Icmpv6InLocal.isEcho (f : DataFromNetif) : Bool := decide (f.buffer.peek 54 = 0x80)

/-- An answer is one frame, or none if it panics. -/
theorem Echo.answer_sent (E : Echo) (heap : ℕ → Block) (w : World) (f : DataFromNetif) :
    (E.answer heap w f).state.sent.length ≤ w.sent.length + 1 := by
  unfold Echo.answer
  refine attempt_inv (P := fun w' : World => w'.sent.length ≤ w.sent.length + 1) (by omega) fun r _ => ?_
  refine attempt_inv (P := fun w' : World => w'.sent.length ≤ w.sent.length + 1) (by simp) fun r' _ => ?_
  simp [World.xmit]

theorem Icmpv4InLocal.processFrame_sent (heap : ℕ → Block) (w : World) (f : DataFromNetif) :
    (Icmpv4InLocal.processFrame heap w f).state.sent.length ≤
      w.sent.length + if Icmpv4InLocal.isEcho f then 1 else 0 := by
  have hstay : w.sent.length ≤ w.sent.length + if Icmpv4InLocal.isEcho f then 1 else 0 := Nat.le_add_right _ _
  unfold Icmpv4InLocal.processFrame
  refine attempt_inv (P := fun w' : World => w'.sent.length ≤ _) hstay fun _ _ => ?_
  refine attempt_inv (P := fun w' : World => w'.sent.length ≤ _) hstay fun icmpType hread => ?_
  split
  · rename_i htype
    rw [Buffer.read_eq_ok hread] at htype
    rw [if_pos (show Icmpv4InLocal.isEcho f = true from decide_eq_true htype)]
    exact Icmpv4InLocal.echo.answer_sent heap w f
  · exact hstay

theorem Icmpv6InLocal.processFrame_sent (heap : ℕ → Block) (w : World) (f : DataFromNetif) :
    (Icmpv6InLocal.processFrame heap w f).state.sent.length ≤
      w.sent.length + if Icmpv6InLocal.isEcho f then 1 else 0 := by
  have hstay : w.sent.length ≤ w.sent.length + if Icmpv6InLocal.isEcho f then 1 else 0 := Nat.le_add_right _ _
  unfold Icmpv6InLocal.processFrame
  refine attempt_inv (P := fun w' : World => w'.sent.length ≤ _) hstay fun _ _ => ?_
  refine attempt_inv (P := fun w' : World => w'.sent.length ≤ _) hstay fun icmpType hread => ?_
  split
  · rename_i htype
    rw [Buffer.read_eq_ok hread] at htype
    rw [if_pos (show Icmpv6InLocal.isEcho f = true from decide_eq_true htype)]
    exact Icmpv6InLocal.echo.answer_sent heap w f
  · split
    · obtain ⟨p, hp⟩ := Icmpv6InLocal.neighborAdvertisement_panics w f
      rw [hp]
      exact hstay
    · exact hstay

/-- Over whole batches, there are at most as many frames sent as echo requests handed over. -/
theorem forEach_sent {node : World → DataFromNetif → Outcome World} {isEcho : DataFromNetif → Bool}
    (hnode : ∀ w f, (node w f).state.sent.length ≤ w.sent.length + if isEcho f then 1 else 0) (w : World)
    (bs : List (List DataFromNetif)) :
    (forEach (forEach node) w bs).state.sent.length ≤ w.sent.length + bs.flatten.countP isEcho := by
  have hbatch : ∀ w b, (forEach node w b).state.sent.length ≤ w.sent.length + b.countP isEcho := by
    intro w b
    have hsum : (b.map fun f => if isEcho f then 1 else 0).sum = b.countP isEcho := by
      induction b with
      | nil => rfl
      | cons f b ih => rw [List.map_cons, List.sum_cons, ih, List.countP_cons, Nat.add_comm]
    rw [← hsum]
    exact forEach_count (m := fun w : World => w.sent.length) hnode b w
  rw [List.countP_flatten]
  exact forEach_count (m := fun w : World => w.sent.length) hbatch bs w

/-- **When local ICMP frames are handed over once.** For every state and every batch of
frames, for `ipv4-in` and for `ipv6-in`:
* the next node, whatever it does as long as it leaves the forwarding base alone, is called
  with the batches `handed`;
* these contain the local ICMP frames of the batch exactly once and in order, and the
  replies of the real node are at most as many as the echo requests among them, if and only
  if no frame of the node's IP version follows a local ICMP frame in the batch. -/
theorem handed_once_iff (heap : ℕ → Block) (w : World) (buff : List DataFromNetif)
    (hbuff : ∀ f ∈ buff, 14 < f.buffer.sliceLen) :
    ((∀ icmpIn : ProcessingNode, (∀ w b, (icmpIn w b).state.ipv4Fib = w.ipv4Fib) →
        Ipv4In.process icmpIn w buff = forEach icmpIn w (Ipv4In.handed w.ipv4Fib buff)) ∧
      (((Ipv4In.handed w.ipv4Fib buff).flatten = buff.filter (Ipv4In.takes w.ipv4Fib) ∧
        (Ipv4In.process (Icmpv4InLocal.process heap) w buff).state.sent.length ≤
          w.sent.length + (buff.filter (Ipv4In.takes w.ipv4Fib)).countP Icmpv4InLocal.isEcho) ↔
        buff.Pairwise fun f g => Ipv4In.takes w.ipv4Fib f = true → Ipv4In.counts g ≠ true)) ∧
    ((∀ icmpIn : ProcessingNode, (∀ w b, (icmpIn w b).state.ipv6Fib = w.ipv6Fib) →
        Ipv6In.process icmpIn w buff = forEach icmpIn w (Ipv6In.handed w.ipv6Fib buff)) ∧
      (((Ipv6In.handed w.ipv6Fib buff).flatten = buff.filter (Ipv6In.takes w.ipv6Fib) ∧
        (Ipv6In.process (Icmpv6InLocal.process heap) w buff).state.sent.length ≤
          w.sent.length + (buff.filter (Ipv6In.takes w.ipv6Fib)).countP Icmpv6InLocal.isEcho) ↔
        buff.Pairwise fun f g => Ipv6In.takes w.ipv6Fib f = true → Ipv6In.counts g ≠ true)) := by
  have h4 : ∀ icmpIn : ProcessingNode, (∀ w b, (icmpIn w b).state.ipv4Fib = w.ipv4Fib) →
      Ipv4In.process icmpIn w buff = forEach icmpIn w (Ipv4In.handed w.ipv4Fib buff) := by
    intro icmpIn hkeep
    refine handOver_loop (P := fun w' => w'.ipv4Fib = w.ipv4Fib) (fun w' b h => (hkeep w' b).trans h) buff
      (fun f hf s hs => ?_) w [] rfl
    rw [Ipv4In.processFrame_eq icmpIn s (hbuff f hf), hs]
  have h6 : ∀ icmpIn : ProcessingNode, (∀ w b, (icmpIn w b).state.ipv6Fib = w.ipv6Fib) →
      Ipv6In.process icmpIn w buff = forEach icmpIn w (Ipv6In.handed w.ipv6Fib buff) := by
    intro icmpIn hkeep
    refine handOver_loop (P := fun w' => w'.ipv6Fib = w.ipv6Fib) (fun w' b h => (hkeep w' b).trans h) buff
      (fun f hf s hs => ?_) w [] rfl
    rw [Ipv6In.processFrame_eq icmpIn s (hbuff f hf), hs]
  have hiff4 : (Ipv4In.handed w.ipv4Fib buff).flatten = buff.filter (Ipv4In.takes w.ipv4Fib) ↔ _ :=
    handed_flatten_iff (fun f ht => (Bool.and_eq_true_iff.1 ht).1) buff
  have hiff6 : (Ipv6In.handed w.ipv6Fib buff).flatten = buff.filter (Ipv6In.takes w.ipv6Fib) ↔ _ :=
    handed_flatten_iff (fun f ht => (Bool.and_eq_true_iff.1 ht).1) buff
  -- what is handed over once is answered at most once
  refine ⟨⟨h4, fun h => hiff4.1 h.1, fun h => ⟨hiff4.2 h, ?_⟩⟩, h6, fun h => hiff6.1 h.1, fun h => ⟨hiff6.2 h, ?_⟩⟩
  · rw [h4 _ fun w b => (World.Keeps.of_tables (Icmpv4InLocal.process_tables heap w b)).fib, ← hiff4.2 h]
    exact forEach_sent (Icmpv4InLocal.processFrame_sent heap) w _
  · rw [h6 _ fun w b => congrArg (fun t => t.2.1) (Icmpv6InLocal.process_tables heap w b), ← hiff6.2 h]
    exact forEach_sent (Icmpv6InLocal.processFrame_sent heap) w _

/-- A ping as the last frame of a batch. -/
theorem handed_once_iff_last :
    (Ipv4In.handed World.test.ipv4Fib [ping6Frame, pingFrame []]).flatten =
      [ping6Frame, pingFrame []].filter (Ipv4In.takes World.test.ipv4Fib) ∧
    (Ipv4In.process (Icmpv4InLocal.process pages) World.test [ping6Frame, pingFrame []]).state.sent.length ≤
      World.test.sent.length +
        ([ping6Frame, pingFrame []].filter (Ipv4In.takes World.test.ipv4Fib)).countP Icmpv4InLocal.isEcho := by
  refine (handed_once_iff pages World.test [ping6Frame, pingFrame []] ?_).1.2.2 ?_
  · simp only [List.mem_cons, List.not_mem_nil, or_false, forall_eq_or_imp, forall_eq]
    exact ⟨by decide +kernel, by decide +kernel⟩
  · simp only [List.pairwise_cons, List.mem_singleton, forall_eq, List.not_mem_nil, false_implies, implies_true,
      List.Pairwise.nil, and_true]
    decide +kernel

/-- **Two pings in a batch**: the first is handed over twice, and three replies go out. -/
theorem handed_twice : World.start World.testIfs = .ok World.test ∧
    ([pingFrame [], pingFrame [1]].filter (Ipv4In.takes World.test.ipv4Fib)).length = 2 ∧
    (Ipv4In.handed World.test.ipv4Fib [pingFrame [], pingFrame [1]]).flatten.length = 3 ∧
    (Ipv4In.process (Icmpv4InLocal.process pages) World.test [pingFrame [], pingFrame [1]]).state.sent.length = 3 :=
  ⟨World.test_eq, by decide +kernel, by decide +kernel, by decide +kernel⟩

end Urchin
