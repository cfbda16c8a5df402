import Urchin.Proof.Mmio
import Urchin.Proof.Refill

/-!
# No entry is forgotten

`interrupt_handler` reads the interrupt status register, writes back what it read, refills
the queue and pops until it has met `used.idx`. Between any two of these the device may
return an entry, whose bit in the register is then cleared by the write, or not seen by
the loop. `IsrOK` says that never both happen: when the handler is not at work, an entry
that `pop` has not handed over still has its bit, so the interrupt is still pending
(`nothing_forgotten`); and the handler, called then, comes to an end and has handed over
the buffer of every entry that was left (`Virtqueue.unmet`), once for each descriptor and in
the order the device returned them.
-/

namespace Urchin

open Exec

/-! ## The lowest bit of a register -/

theorem bit_iff (x : UInt32) : x &&& 1 ≠ 0 ↔ x.toNat % 2 = 1 := by
  have hand : (x &&& 1).toNat = x.toNat % 2 := by
    rw [UInt32.toNat_and]
    exact Nat.and_one_is_mod _
  rw [Ne, ← UInt32.toNat_inj, hand, UInt32.toNat_zero]
  omega

/-- Writing back what was read clears the bit only if it was read. -/
theorem ack_bit (isr v : UInt32) : isr &&& ~~~v &&& 1 ≠ 0 ↔ isr &&& 1 ≠ 0 ∧ ¬ v &&& 1 ≠ 0 := by
  have hlt := v.toNat_lt
  rw [bit_iff, bit_iff, bit_iff, UInt32.toNat_and, Nat.and_mod_two_eq_one, UInt32.toNat_not]
  simp only [UInt32.size]
  omega

/-- Setting bits keeps it. -/
theorem or_bit (isr v : UInt32) : (isr ||| v) &&& 1 ≠ 0 ↔ isr &&& 1 ≠ 0 ∨ v &&& 1 ≠ 0 := by
  rw [bit_iff, bit_iff, bit_iff, UInt32.toNat_or, Nat.or_mod_two_eq_one]

/-- The handler looks at this bit. -/
theorem irqed_iff (v : UInt32) : (v &&& 0x01).toUInt8 > 0 ↔ v &&& 1 ≠ 0 := by
  have hand : (v &&& 0x01).toNat = v.toNat % 2 := by
    rw [UInt32.toNat_and]
    exact Nat.and_one_is_mod _
  show (0 : UInt8) < (v &&& 0x01).toUInt8 ↔ _
  rw [bit_iff, UInt8.lt_iff_toNat_lt, UInt32.toNat_toUInt8, hand]
  simp only [UInt8.toNat_zero]
  omega

/-! ## The invariant -/

/-- What the device and the handler agree on, and a refill leaves alone. -/
def Virtqueue.usedSide (q : Virtqueue) : UInt16 × VirtqueueUsed × (ℕ → VirtqueueUsedElement) × UInt16 :=
  (q.size, q.used, q.usedRing, q.lastUsedIdx)

/-- The queue has entries, and its free head is one of them. -/
def Virtqueue.Usable (q : Virtqueue) : Prop := q.HeadOK ∧ 0 < q.size.toNat

theorem fillLoop_usedSide {heap : ℕ → Block} {size : UInt64} {count : ℕ} {q q' : Virtqueue} {a a' : ℕ}
    (h : q.Usable) (hfill : VirtioNet.fillLoop heap size count q a = .ok (q', a')) :
    q'.Usable ∧ q'.usedSide = q.usedSide := by
  refine fillLoop_inv (P := fun q' => q'.Usable ∧ q'.usedSide = q.usedSide) ?_ heap size count q q' a a'
    ⟨h, rfl⟩ hfill
  rintro q₁ b ⟨⟨hhead, hpos⟩, hside⟩
  refine ⟨⟨(Virtqueue.push_ok hhead hpos b false).2, ?_⟩, ?_⟩
  · rw [q₁.stores_eq]
    exact hpos
  · rw [← hside, q₁.stores_eq]
    rfl

/-- A refill ends well. -/
theorem fillRxQueue_usedSide {net : VirtioNet} (h : net.rxq.Usable) (heap : ℕ → Block) (allocs : ℕ) :
    ∃ net' a, net.fillRxQueue heap allocs = .ok (net', a) ∧ net'.rxq.Usable ∧
      net'.rxq.usedSide = net.rxq.usedSide := by
  obtain ⟨net', hfill, -⟩ := VirtioNet.fillRxQueue_posts heap allocs h.1 h.2
  refine ⟨net', _, hfill, ?_⟩
  unfold VirtioNet.fillRxQueue at hfill
  simp only at hfill
  split at hfill
  · obtain ⟨⟨q, n⟩, hloop, hr⟩ := bind_eq_ok.1 hfill
    obtain ⟨rfl, -⟩ := Prod.mk.inj (Except.ok.inj hr)
    exact fillLoop_usedSide h hloop
  · obtain ⟨rfl, -⟩ := Prod.mk.inj (Except.ok.inj hfill)
    exact ⟨h, rfl⟩

/-- One round of `pop` leaves the queue usable. -/
theorem popOne_usable {q q' : Virtqueue} {b : Option Buffer} (h : q.Usable) (hp : q.popOne = .ok (b, q')) :
    q'.Usable := by
  unfold Virtqueue.popOne at hp
  simp only at hp
  split at hp
  · split at hp
    · obtain ⟨-, rfl⟩ := Prod.mk.inj (Except.ok.inj hp)
      exact h
    · cases hp
  · cases hp

/-- An entry that is not handed over shows in the status register, unless the handler is
on its way to it. -/
structure IsrOK (s : IsrSys) : Prop where
  usable : s.net.rxq.Usable
  bit : s.net.rxq.lastUsedIdx ≠ s.net.rxq.used.idx → s.regs.interruptStatus &&& 1 ≠ 0 ∨ s.pc = .refill ∨
    s.pc = .pop ∨ ∃ v, s.pc = .isrRead v ∧ v &&& 1 ≠ 0

namespace IsrOK

variable {d : MmioDevice} {heap : ℕ → Block} {s s' : IsrSys}

/-- A fresh driver. -/
theorem init {id : ℕ} {dev : DeviceConfig} {mem : ℕ → QueueMem} {net : VirtioNet} {allocs : ℕ} (regs : MmioRegs)
    (hpos : 0 < (dev.queueSize 0).toNat) (hnew : VirtioNet.new id dev mem heap = .ok (some (net, allocs))) :
    IsrOK (.init net regs allocs) := by
  obtain ⟨g, q, hq, hfill, -⟩ := VirtioNet.new_queues hnew
  obtain ⟨hsize, -, hused, hfree, hlast⟩ := Virtqueue.new_fields hq
  obtain ⟨husable, hside⟩ := fillLoop_usedSide ⟨.inl hfree, by rw [hsize]; exact hpos⟩ hfill
  simp only [Virtqueue.usedSide, Prod.mk.injEq] at hside
  refine ⟨husable, fun hne => absurd ?_ hne⟩
  show net.rxq.lastUsedIdx = net.rxq.used.idx
  rw [hside.2.2.2, hside.2.1, hlast, hused]

theorem handler (h : IsrOK s) (he : s.handler d heap = .ok s') : IsrOK s' := by
  unfold IsrSys.handler at he
  split at he
  · -- the register is read
    rename_i hpc
    obtain rfl := Except.ok.inj he
    refine ⟨h.usable, fun hne => ?_⟩
    rcases h.bit hne with hbit | hpc' | hpc' | ⟨v, hpc', -⟩
    · exact .inl hbit
    all_goals
      rw [hpc] at hpc'
      cases hpc'
  · -- and written back
    rename_i v hpc
    obtain rfl := Except.ok.inj he
    refine ⟨h.usable, fun hne => ?_⟩
    by_cases hv : v &&& 1 ≠ 0
    · exact .inr (.inl (if_pos ((irqed_iff v).2 hv)))
    · rcases h.bit hne with hbit | hpc' | hpc' | ⟨v', hpc', hv'⟩
      · exact .inl ((ack_bit _ v).2 ⟨hbit, hv⟩)
      · rw [hpc] at hpc'
        cases hpc'
      · rw [hpc] at hpc'
        cases hpc'
      · rw [hpc] at hpc'
        cases hpc'
        exact absurd hv' hv
  · obtain ⟨⟨net, a⟩, hfill, rfl⟩ := map_eq_ok.1 he
    obtain ⟨net', a', hfill', husable, -⟩ := fillRxQueue_usedSide h.usable heap s.allocs
    obtain ⟨rfl, -⟩ := Prod.mk.inj (Except.ok.inj (hfill.symm.trans hfill'))
    exact ⟨husable, fun _ => .inr (.inr (.inl rfl))⟩
  · rename_i hpc
    split at he
    · rename_i heq
      obtain rfl := Except.ok.inj he
      exact ⟨h.usable, fun hne => absurd heq hne⟩
    · obtain ⟨r, hp, rfl⟩ := map_eq_ok.1 he
      exact ⟨popOne_usable h.usable hp, fun _ => .inr (.inr (.inl hpc))⟩

theorem step (h : IsrOK s) {o : IsrOp} (he : s.step d heap o = .ok s') : IsrOK s' := by
  cases o with
  | handler => exact h.handler he
  | complete head len =>
    obtain rfl := Except.ok.inj he
    exact ⟨h.usable, fun _ => .inl ((or_bit _ _).2 (.inr (by decide)))⟩
  | configChange =>
    obtain rfl := Except.ok.inj he
    refine ⟨h.usable, fun hne => ?_⟩
    rcases h.bit hne with hbit | hpc
    · exact .inl ((or_bit _ _).2 (.inl hbit))
    · exact .inr hpc

end IsrOK

/-! ## What is handed over -/

/-- The descriptors of the used entries that `pop` has not met, in the order it meets them. -/
def Virtqueue.unmet (q : Virtqueue) : List ℕ :=
  (List.range (q.used.idx - q.lastUsedIdx).toNat).map fun i =>
    (q.usedRing (q.slot (q.lastUsedIdx + UInt16.ofNat i))).id.toNat

/-- A slot that is emptied at the first mention of its descriptor gives nothing at the others. -/
theorem filterMap_eraseDups_update {β : Type*} (f : ℕ → Option β) (i : ℕ) (l : List ℕ) :
    l.eraseDups.filterMap (Function.update f i none) = (l.filter fun j => !j == i).eraseDups.filterMap f := by
  induction hn : l.length using Nat.strong_induction_on generalizing l with
  | _ n ih =>
    cases l with
    | nil => rfl
    | cons j l =>
      have hlen : (l.filter fun j' => !j' == j).length < n := by
        rw [← hn, List.length_cons]
        exact Nat.lt_succ_of_le (List.length_filter_le ..)
      have hrest := ih _ hlen (l.filter fun j' => !j' == j) rfl
      rw [List.eraseDups_cons]
      by_cases hj : j = i
      · subst hj
        rw [List.filterMap_cons_none (Function.update_self ..), hrest, List.filter_cons_of_neg (by simp),
          List.filter_filter]
        simp only [Bool.and_self]
      · rw [List.filter_cons_of_pos (by simpa using hj), List.eraseDups_cons, List.filter_filter, List.filterMap_cons,
          List.filterMap_cons, Function.update_of_ne hj, hrest, List.filter_filter]
        simp only [Bool.and_comm]

/-- The queue as a round of `pop` leaves it. -/
def Virtqueue.popped (q : Virtqueue) : Virtqueue :=
  { q with
    buffers := Function.update q.buffers (q.usedRing (q.slot q.lastUsedIdx)).id.toNat none
    lastUsedIdx := q.lastUsedIdx + 1 }

theorem Virtqueue.popped_count {q : Virtqueue} (hne : q.lastUsedIdx ≠ q.used.idx) :
    (q.used.idx - q.lastUsedIdx).toNat = (q.popped.used.idx - q.popped.lastUsedIdx).toNat + 1 := by
  show _ = (q.used.idx - (q.lastUsedIdx + 1)).toNat + 1
  rw [Ne, ← UInt16.toNat_inj] at hne
  rw [UInt16.toNat_sub, UInt16.toNat_sub, UInt16.toNat_add]
  have h1 := q.used.idx.toNat_lt
  have h2 := q.lastUsedIdx.toNat_lt
  have h3 : (1 : UInt16).toNat = 1 := rfl
  omega

/-- The round meets the first of the entries. -/
theorem Virtqueue.unmet_eq_cons {q : Virtqueue} (hne : q.lastUsedIdx ≠ q.used.idx) :
    q.unmet = (q.usedRing (q.slot q.lastUsedIdx)).id.toNat :: q.popped.unmet := by
  unfold Virtqueue.unmet
  rw [popped_count hne, List.range_succ_eq_map, List.map_cons, List.map_map]
  refine congrArg₂ List.cons ?_ (List.map_congr_left fun i _ => ?_)
  · rw [show UInt16.ofNat 0 = 0 from rfl, UInt16.add_zero]
  · show (q.usedRing (q.slot (q.lastUsedIdx + UInt16.ofNat (i + 1)))).id.toNat = _
    rw [UInt16.ofNat_add, UInt16.add_comm (UInt16.ofNat i), ← UInt16.add_assoc]
    rfl

/-- **A round of `pop`** hands over the buffer of the first descriptor, and empties its slot. -/
theorem popOne_unmet {q : Virtqueue} (h : q.Usable) (hhonest : ∀ j ∈ q.unmet, j < q.size.toNat)
    (hne : q.lastUsedIdx ≠ q.used.idx) : ∃ b, q.popOne = .ok (b, q.popped) ∧
      q.unmet.eraseDups.filterMap q.buffers = b.toList ++ q.popped.unmet.eraseDups.filterMap q.popped.buffers := by
  have hunmet := Virtqueue.unmet_eq_cons hne
  -- neither index of the round is out of bounds
  have hslot : q.slot q.lastUsedIdx < q.size.toNat := Virtqueue.masked_lt h.2 _
  have hdesc : (q.usedRing (q.slot q.lastUsedIdx)).id.toNat < q.size.toNat :=
    hhonest _ (by rw [hunmet]; exact List.mem_cons_self)
  refine ⟨q.buffers (q.usedRing (q.slot q.lastUsedIdx)).id.toNat, ?_, ?_⟩
  · unfold Virtqueue.popOne
    simp only [if_pos hslot, if_pos hdesc]
    rfl
  · rw [hunmet, List.eraseDups_cons, List.filterMap_cons, ← filterMap_eraseDups_update]
    cases q.buffers (q.usedRing (q.slot q.lastUsedIdx)).id.toNat <;> rfl

/-! ## The handler on its own -/

namespace IsrSys

variable {d : MmioDevice} {heap : ℕ → Block} {s : IsrSys}

/-- `n` steps of the handler. -/
def alone (d : MmioDevice) (heap : ℕ → Block) : ℕ → IsrSys → Except Panic IsrSys
  | 0, s => .ok s
  | n + 1, s => (s.handler d heap).bind (alone d heap n)

theorem alone_succ {s₁ : IsrSys} (h : s.handler d heap = .ok s₁) (n : ℕ) :
    s.alone d heap (n + 1) = s₁.alone d heap n := by
  show (s.handler d heap).bind (alone d heap n) = _
  rw [h]
  rfl

/-- The entries that `pop` has not met name descriptors of the queue. -/
def Honest (s : IsrSys) : Prop := ∀ j ∈ s.net.rxq.unmet, j < s.net.rxq.size.toNat

instance (s : IsrSys) : Decidable s.Honest := inferInstanceAs (Decidable (∀ j ∈ s.net.rxq.unmet, _))

/-- The loop of `pop` meets `used.idx`. -/
theorem alone_pop (k : ℕ) : ∀ s : IsrSys, s.pc = .pop → s.net.rxq.Usable → s.Honest →
    (s.net.rxq.used.idx - s.net.rxq.lastUsedIdx).toNat = k →
    ∃ s', s.alone d heap (k + 1) = .ok s' ∧ s'.pc = .idle ∧ s'.net.rxq.lastUsedIdx = s'.net.rxq.used.idx ∧
      s'.regs = s.regs ∧ s'.popped = s.popped ++ s.net.rxq.unmet.eraseDups.filterMap s.net.rxq.buffers := by
  induction k with
  | zero =>
    intro s hpc _ _ hk
    have heq : s.net.rxq.lastUsedIdx = s.net.rxq.used.idx := by
      rw [UInt16.toNat_sub] at hk
      apply UInt16.toNat_inj.1
      have h1 := s.net.rxq.used.idx.toNat_lt
      have h2 := s.net.rxq.lastUsedIdx.toNat_lt
      omega
    have hnone : s.net.rxq.unmet = [] := by
      rw [Virtqueue.unmet, hk]
      rfl
    refine ⟨{ s with pc := .idle }, ?_, rfl, heq, rfl, ?_⟩
    · simp only [alone, IsrSys.handler, hpc, if_pos heq, Except.bind]
    · rw [hnone]
      exact (List.append_nil _).symm
  | succ k ih =>
    intro s hpc husable hhonest hk
    have hne : s.net.rxq.lastUsedIdx ≠ s.net.rxq.used.idx := by
      intro heq
      rw [heq, UInt16.sub_self] at hk
      cases hk
    obtain ⟨b, hone, hout⟩ := popOne_unmet husable hhonest hne
    have hstep : s.handler d heap =
        .ok { s with net := { s.net with rxq := s.net.rxq.popped }, popped := s.popped ++ b.toList } := by
      unfold IsrSys.handler
      simp only [hpc, if_neg hne, hone, Except.map]
    have hhonest' : ∀ j ∈ s.net.rxq.popped.unmet, j < s.net.rxq.size.toNat := by
      intro j hj
      refine hhonest j ?_
      rw [Virtqueue.unmet_eq_cons hne]
      exact List.mem_cons_of_mem _ hj
    obtain ⟨s', hs', hidle, hmet, hregs, hpopped⟩ := ih { s with
        net := { s.net with rxq := s.net.rxq.popped }
        popped := s.popped ++ b.toList } hpc (popOne_usable husable hone) hhonest'
      (Nat.succ.inj ((Virtqueue.popped_count hne).symm.trans hk))
    refine ⟨s', (alone_succ hstep _).trans hs', hidle, hmet, hregs, ?_⟩
    rw [hpopped, hout, List.append_assoc]

/-- The first two steps of the handler are `read_and_ack_isr`. -/
theorem alone_readAndAckIsr (hpc : s.pc = .idle) (n : ℕ) : s.alone d heap (n + 2) = alone d heap n { s with
    regs := (VirtioMmio.readAndAckIsr d s.regs).2
    pc := if (VirtioMmio.readAndAckIsr d s.regs).1 > 0 then .refill else .idle } := by
  have hread : s.handler d heap = .ok { s with pc := .isrRead (d.read s.regs 0x060) } := by
    unfold IsrSys.handler
    rw [hpc]
  rw [alone_succ hread, alone_succ rfl]
  rfl

/-- **The handler, called with the bit set, comes to an end** and has handed over every
entry; it has cleared what it saw in the register. -/
theorem alone_drains (h : IsrOK s) (hpc : s.pc = .idle) (hbit : s.regs.interruptStatus &&& 1 ≠ 0)
    (hhonest : s.Honest) : ∃ net a n s', s.net.fillRxQueue heap s.allocs = .ok (net, a) ∧ n ≤ 65539 ∧
      s.alone d heap n = .ok s' ∧ s'.pc = .idle ∧
      s'.popped = s.popped ++ s.net.rxq.unmet.eraseDups.filterMap net.rxq.buffers ∧
      s'.net.rxq.lastUsedIdx = s'.net.rxq.used.idx ∧ ¬ s'.regs.interruptStatus &&& 1 ≠ 0 := by
  obtain ⟨net, a, hfill, husable, hside⟩ := fillRxQueue_usedSide h.usable heap s.allocs
  simp only [Virtqueue.usedSide, Prod.mk.injEq] at hside
  obtain ⟨hsize, hused, hring, hlast⟩ := hside
  have hunmet : net.rxq.unmet = s.net.rxq.unmet := by
    simp only [Virtqueue.unmet, Virtqueue.slot, Virtqueue.getSize, hsize, hused, hring, hlast]
  set isr := s.regs.interruptStatus with hisr
  -- read and write back, then refill
  have hack : VirtioMmio.readAndAckIsr d s.regs =
      ((isr &&& 0x01).toUInt8, { s.regs with interruptStatus := isr &&& ~~~isr }) := rfl
  have hrefill : IsrSys.handler d heap { s with
      regs := { s.regs with interruptStatus := isr &&& ~~~isr }
      pc := .refill } = .ok { s with
      net := net
      regs := { s.regs with interruptStatus := isr &&& ~~~isr }
      allocs := a
      pc := .pop } := by
    unfold IsrSys.handler
    simp only [hfill, Except.map]
  have hhonest' : ∀ j ∈ net.rxq.unmet, j < net.rxq.size.toNat := by
    rw [hunmet, hsize]
    exact hhonest
  obtain ⟨s', hs', hidle, hmet, hregs, hpopped⟩ := @alone_pop d heap _ { s with
      net := net
      regs := { s.regs with interruptStatus := isr &&& ~~~isr }
      allocs := a
      pc := .pop } rfl husable hhonest' rfl
  set k := (net.rxq.used.idx - net.rxq.lastUsedIdx).toNat with hk
  have hlt : k < 65536 := (net.rxq.used.idx - net.rxq.lastUsedIdx).toNat_lt
  refine ⟨net, a, k + 1 + 1 + 2, s', hfill, by omega, ?_, hidle, ?_, hmet, ?_⟩
  · rw [alone_readAndAckIsr hpc, hack, if_pos ((irqed_iff isr).2 hbit), alone_succ hrefill]
    exact hs'
  · rw [hpopped, hunmet]
  · rw [hregs]
    intro hset
    exact ((ack_bit isr isr).1 hset).2 ((ack_bit isr isr).1 hset).1

end IsrSys

/-- **No entry is forgotten.** In every state of every run, however the steps of the
handler and of the device interleave, and whatever the device returns:
* when the handler is not at work and some entry has not been handed over, the register
  has the bit that calls for the handler;
* when it has the bit, and the device has returned descriptors of the queue only, the
  handler, left alone, refills the queue and ends within `65539` steps without a panic. It has
  then met every entry, cleared the bit, and handed over, for the descriptors that the entries
  name, each once and in the order of the used ring, the buffers that their slots hold after
  the refill. -/
theorem IsrSys.nothing_forgotten {id : ℕ} {dev : DeviceConfig} {mem : ℕ → QueueMem} {heap : ℕ → Block}
    {net : VirtioNet} {allocs : ℕ} (hpos : 0 < (dev.queueSize 0).toNat)
    (hnew : VirtioNet.new id dev mem heap = .ok (some (net, allocs))) (d : MmioDevice) (regs : MmioRegs)
    {s : IsrSys} (h : Reach (IsrSys.step d heap) (fun _ _ => True) (.init net regs allocs) s)
    (hidle : s.pc = .idle) :
    (s.net.rxq.lastUsedIdx ≠ s.net.rxq.used.idx → s.regs.interruptStatus &&& 1 ≠ 0) ∧
    (s.regs.interruptStatus &&& 1 ≠ 0 → s.Honest → ∃ filled a n s',
      s.net.fillRxQueue heap s.allocs = .ok (filled, a) ∧ n ≤ 65539 ∧ s.alone d heap n = .ok s' ∧ s'.pc = .idle ∧
      s'.popped = s.popped ++ s.net.rxq.unmet.eraseDups.filterMap filled.rxq.buffers ∧
      s'.net.rxq.lastUsedIdx = s'.net.rxq.used.idx ∧ ¬ s'.regs.interruptStatus &&& 1 ≠ 0) := by
  have hok : IsrOK s := h.inv (.init regs hpos hnew) fun _ _ _ hs _ he => hs.step he
  refine ⟨fun hne => ?_, IsrSys.alone_drains hok hidle⟩
  rcases hok.bit hne with hbit | hpc | hpc | ⟨v, hpc, -⟩
  · exact hbit
  all_goals
    rw [hidle] at hpc
    cases hpc

/-- Registers of a device nobody has touched. -/
def MmioRegs.fresh : MmioRegs := ⟨0, 0, 0, 0, 0, 0, fun _ => .clear, 0, []⟩

/-- A device of the network type that accepts everything. -/
def MmioDevice.any : MmioDevice := ⟨1, 0, fun _ => true, fun _ => 0, fun _ => 64⟩

/-- An entry returned while the handler writes back the bit of an earlier one is handed
over by the same call; one returned after that leaves its bit, and the next call hands over
its page, the third. -/
theorem IsrSys.nothing_forgotten_late : ∃ s s' : IsrSys, s.popped.length = 2 ∧
    s.net.rxq.lastUsedIdx ≠ s.net.rxq.used.idx ∧ s.regs.interruptStatus &&& 1 ≠ 0 ∧
    (∃ n, s.alone .any pages n = .ok s') ∧ (s'.popped.drop 2).map Buffer.getAddress = [12288] := by
  have hrun : (runNet .rx64 (fun net allocs => .init net .fresh allocs) (IsrSys.step .any pages) (fun _ _ => True)
      [.complete 0 60, .handler, .complete 1 60, .handler, .handler, .handler, .handler, .handler,
        .complete 2 60]).map (fun s => (s.popped.length, decide (s.pc = .idle),
          decide (s.net.rxq.lastUsedIdx ≠ s.net.rxq.used.idx), decide s.Honest,
          (s.net.fillRxQueue pages s.allocs).toOption.elim [] fun r =>
            (s.net.rxq.unmet.eraseDups.filterMap r.1.rxq.buffers).map Buffer.getAddress)) =
      some (2, true, true, true, [12288]) := by decide +kernel
  obtain ⟨s, hs, hobs⟩ := Option.map_eq_some_iff.1 hrun
  simp only [Prod.mk.injEq, decide_eq_true_eq] at hobs
  obtain ⟨hlen, hidle, hne, hhonest, hpages⟩ := hobs
  obtain ⟨net, allocs, hnew, hreach⟩ := reach_runNet hs
  obtain ⟨hbit, hdrains⟩ := nothing_forgotten (by decide) hnew .any .fresh hreach hidle
  obtain ⟨filled, a, n, s', hfill, -, halone, -, hpopped, -⟩ := hdrains (hbit hne) hhonest
  refine ⟨s, s', hlen, hne, hbit hne, ⟨n, halone⟩, ?_⟩
  rw [hfill] at hpages
  rw [hpopped, ← hlen, List.drop_left]
  exact hpages

end Urchin
