import Urchin.Proof.Queue
import Urchin.Spec.PushSteps

/-!
# When the device sees a half-written entry

`push` stores the avail index before the descriptor. So the entries a device can
see are all written (`Visible`) exactly when no push is between the two, or the
device has already returned that entry, or the descriptor happened to hold the
right values from an earlier use (`visible_iff_not_exposed`).

`PushOK` is the invariant of the interleaved run: every available entry is
written, except possibly the newest one while its push is under way.
-/

namespace Urchin

open Exec Circ

namespace PushSys

def N (s : PushSys) : ℕ := s.q.size.toNat

/-- Every index between `used.idx` and `avail.idx` names, through its avail ring
slot, the descriptor its push selected, and that descriptor has the address, length
and flags of what was pushed. -/
def Visible (s : PushSys) : Prop :=
  ∀ i, i < (s.q.avail.idx - s.q.used.idx).toNat → ∃ d e, s.published[s.returned + i]? = some (d, e) ∧
    s.q.availRing (s.q.slot (s.q.used.idx + UInt16.ofNat i)) = d ∧ Describes (s.q.descriptor d.toNat) e

/-- A push has stored the avail index and not yet the descriptor, the device has
not returned the entry, and the descriptor does not hold what was pushed. -/
def Exposed (s : PushSys) : Prop :=
  ∃ st b g, s.push = some (st, b, g) ∧ st.descField = true ∧ s.returned < s.published.length ∧
    ¬ Describes (s.q.descriptor s.q.freeHead.toNat) (b, g)

/-- The newest entry is published and not completely written. -/
def pending (s : PushSys) : Bool := s.push.any (·.1.descField)

/-- The position of the push under way, or of the next one. -/
def cur (s : PushSys) : ℕ :=
  if s.push.any (·.1.published) then s.published.length - 1 else s.published.length

end PushSys

/-- What a push under way relies on, by its next store. -/
structure StageOK (s : PushSys) (st : Store) (b : Buffer) (g : Bool) : Prop where
  early : st.published = false → s.published.length < s.returned + s.N
  slotted : st = .availIdx → s.q.availRing (s.published.length % s.N) = s.q.freeHead
  newest : st.published = true → s.published.getLast? = some (s.q.freeHead, b, g)
  addr : st = .len ∨ st = .flags → (s.q.descriptor s.q.freeHead.toNat).addr = b.getAddress
  len : st = .flags → (s.q.descriptor s.q.freeHead.toNat).len = b.getSize.toUInt32

/-- The invariant of the interleaved run. -/
structure PushOK (s : PushSys) : Prop where
  pow : ∃ k, s.q.size.toNat = 2 ^ k
  avail : s.q.avail.idx = UInt16.ofNat s.published.length
  used : s.q.used.idx = UInt16.ofNat s.returned
  le : s.returned ≤ s.published.length
  room : s.published.length ≤ s.returned + s.N
  free : s.q.freeHead.toNat = s.cur % s.N
  head : ∀ j d e, s.published[j]? = some (d, e) → d.toNat = j % s.N
  ring : Holds s.N (fun i => some (s.q.availRing i)) (fun j => s.published[j]?.map Prod.fst)
    s.returned s.published.length
  desc : ∀ j d e, s.returned ≤ j → s.published[j]? = some (d, e) →
    (s.pending = true → j + 1 ≠ s.published.length) → Describes (s.q.descriptor (j % s.N)) e
  stage : ∀ st b g, s.push = some (st, b, g) → StageOK s st b g

theorem StageOK.of_push {s : PushSys} {st : Store} {b : Buffer} {g : Bool} (hp : s.push = some (st, b, g))
    (h : StageOK s st b g) : ∀ st' b' g', s.push = some (st', b', g') → StageOK s st' b' g' := by
  intro st' b' g' hp'
  rw [hp, Option.some.injEq, Prod.mk.injEq, Prod.mk.injEq] at hp'
  obtain ⟨rfl, rfl, rfl⟩ := hp'
  exact h

namespace PushOK

variable {s : PushSys}

theorem N_le (h : PushOK s) : 0 < s.N ∧ s.N ≤ 32768 := by
  obtain ⟨k, hk⟩ := h.pow
  exact word_pow_le hk

theorem slot_eq (h : PushOK s) (a : ℕ) : s.q.slot (UInt16.ofNat a) = a % s.N := by
  obtain ⟨k, hk⟩ := h.pow
  exact word_slot hk a

/-- The device reads the ring slots of the positions it has not returned. -/
theorem visible_iff (h : PushOK s) : s.Visible ↔ ∀ j d e, s.returned ≤ j →
    s.published[j]? = some (d, e) → Describes (s.q.descriptor (j % s.N)) e := by
  have hN := h.N_le
  have hlen : (s.q.avail.idx - s.q.used.idx).toNat = s.published.length - s.returned := by
    rw [h.avail, h.used]
    exact word_sub h.le (by have := h.room; omega)
  -- what the device looks at are positions of the history
  have hslot : ∀ i, s.q.slot (s.q.used.idx + UInt16.ofNat i) = (s.returned + i) % s.N := by
    intro i
    rw [h.used, ← UInt16.ofNat_add, h.slot_eq]
  constructor
  · intro hv j d e hj he
    have hlt : j < s.published.length := (List.getElem?_eq_some_iff.1 he).1
    obtain ⟨d', e', he', -, hd⟩ := hv (j - s.returned) (by rw [hlen]; omega)
    rw [Nat.add_sub_cancel' hj, he] at he'
    obtain ⟨rfl, rfl⟩ := Prod.mk.inj (Option.some.inj he')
    rw [h.head j d e he] at hd
    exact hd
  · intro hv i hi
    rw [hlen] at hi
    have hlt : s.returned + i < s.published.length := by omega
    obtain ⟨⟨d, e⟩, he⟩ : ∃ x, s.published[s.returned + i]? = some x := ⟨_, List.getElem?_eq_getElem hlt⟩
    have hring := h.ring _ (Nat.le_add_right _ _) hlt
    simp only [he, Option.map_some, Option.some.injEq] at hring
    refine ⟨d, e, he, by rw [hslot, hring], ?_⟩
    rw [h.head _ d e he]
    exact hv _ d e (Nat.le_add_right _ _) he

/-- The newest entry is that of the push under way. -/
theorem last_eq (h : PushOK s) {st : Store} {b : Buffer} {g : Bool} (hp : s.push = some (st, b, g))
    (hst : st.published = true) :
    0 < s.published.length ∧ s.published[s.published.length - 1]? = some (s.q.freeHead, b, g) ∧
      s.q.freeHead.toNat = (s.published.length - 1) % s.N := by
  have hlast := (h.stage st b g hp).newest hst
  rw [List.getLast?_eq_getElem?] at hlast
  have hpos := (List.getElem?_eq_some_iff.1 hlast).1
  refine ⟨by omega, hlast, ?_⟩
  have := h.free
  simpa [PushSys.cur, hp, hst] using this

/-- **What the device can see is written unless a push is exposed.** -/
theorem visible_iff_not_exposed (h : PushOK s) : s.Visible ↔ ¬ s.Exposed := by
  rw [h.visible_iff]
  constructor
  · rintro hv ⟨st, b, g, hp, hst, hlt, hnd⟩
    have hpub : st.published = true := by cases st <;> simp_all [Store.descField, Store.published]
    obtain ⟨-, hlast, hfree⟩ := h.last_eq hp hpub
    rw [hfree] at hnd
    exact hnd (hv _ _ _ (by omega) hlast)
  · intro hne j d e hj he
    by_cases hpend : s.pending = true ∧ j + 1 = s.published.length
    · -- the newest entry, with its push under way
      obtain ⟨⟨st, b, g⟩, hp, hst⟩ := (Option.any_eq_true _ _).1 hpend.1
      have hpub : st.published = true := by
        simp only at hst
        cases st <;> simp_all [Store.descField, Store.published]
      obtain ⟨-, hlast, hfree⟩ := h.last_eq hp hpub
      rw [show s.published.length - 1 = j by omega] at hlast hfree
      rw [he] at hlast
      obtain ⟨rfl, rfl⟩ := Prod.mk.inj (Option.some.inj hlast)
      by_contra hnd
      exact hne ⟨st, b, g, hp, hst, by omega, by rw [hfree]; exact hnd⟩
    · exact h.desc j d e hj he (fun h1 h2 => hpend ⟨h1, h2⟩)

/-! ## The steps -/

/-- Returning an element shrinks the window. -/
theorem ret_ok (h : PushOK s) (hlt : s.returned < s.published.length) (e : VirtqueueUsedElement) :
    ∃ s', s.step (.ret e) = .ok s' ∧ PushOK s' := by
  refine ⟨_, rfl, h.pow, h.avail, ?_, hlt, ?_, h.free, h.head, h.ring.mono (Nat.le_succ _) le_rfl, ?_, ?_⟩
  · simp only; rw [h.used, word_succ]
  · have := h.room
    show s.published.length ≤ s.returned + 1 + s.N
    omega
  · intro j d e hj; exact h.desc j d e (by simp only at hj; omega)
  · intro st b g hp
    obtain ⟨h1, h2, h3, h4, h5⟩ := h.stage st b g hp
    refine ⟨fun hst => ?_, h2, h3, h4, h5⟩
    have := h1 hst
    show s.published.length < s.returned + 1 + s.N
    omega

/-- Calling `push` stores nothing yet. -/
theorem call_ok (h : PushOK s) (hp : s.push = none) (hlt : s.published.length < s.returned + s.N)
    (b : Buffer) (g : Bool) : ∃ s', s.step (.call b g) = .ok s' ∧ PushOK s' := by
  have hN := h.N_le
  have hcur : s.cur = s.published.length := by simp [PushSys.cur, hp]
  have h1 : s.q.slot s.q.avail.idx < s.q.size.toNat := by
    rw [h.avail, h.slot_eq]; exact Nat.mod_lt _ hN.1
  have h2 : s.q.freeHead.toNat < s.q.size.toNat := by
    rw [h.free]; exact Nat.mod_lt _ hN.1
  refine ⟨_, if_pos ⟨h1, h2⟩, h.pow, h.avail, h.used, h.le, h.room, ?_, h.head, h.ring, ?_, ?_⟩
  · rw [h.free, hcur]; rfl
  · intro j d e hj he _
    exact h.desc j d e hj he (by simp [PushSys.pending, hp])
  · exact .of_push rfl ⟨fun _ => hlt, by simp, by simp [Store.published], by simp, by simp⟩

/-- `pop` does not touch what the device reads. -/
theorem pop_ok (h : PushOK s) {s' : PushSys} (he : s.step .pop = .ok s') : PushOK s' := by
  cases hq : s.q.pop with
  | error p => simp [PushSys.step, hq, Except.map] at he
  | ok r =>
    simp only [PushSys.step, hq, Except.map, Except.ok.injEq] at he
    obtain ⟨bufs, last, hr⟩ := Virtqueue.pop_frame hq
    rw [hr] at he
    subst he
    exact ⟨h.pow, h.avail, h.used, h.le, h.room, h.free, h.head, h.ring, h.desc, fun st b g hp =>
      have hs := h.stage st b g hp
      ⟨hs.early, hs.slotted, hs.newest, hs.addr, hs.len⟩⟩

/-- Another available entry does not use the descriptor of the newest one. -/
theorem desc_ne (h : PushOK s) {j : ℕ} (hj : s.returned ≤ j) (hjl : j + 1 < s.published.length) :
    j % s.N ≠ (s.published.length - 1) % s.N := by
  intro he
  have := h.room
  have := slot_inj s.returned hj (by omega) (by omega) (by omega) he
  omega

/-- The avail ring slot of the next entry is not one the device may read. -/
theorem storeAvailRing_ok (h : PushOK s) {b : Buffer} {g : Bool} (hp : s.push = some (.availRing, b, g)) :
    PushOK { s with q := s.q.storeAvailRing, push := some (.availIdx, b, g) } := by
  have hroom := (h.stage _ _ _ hp).early rfl
  have hcur : s.cur = s.published.length := by simp [PushSys.cur, hp, Store.published]
  have hslot : s.q.slot s.q.avail.idx = s.published.length % s.N := by rw [h.avail, h.slot_eq]
  refine ⟨h.pow, h.avail, h.used, h.le, h.room, ?_, h.head, ?_, ?_, ?_⟩
  · show s.q.freeHead.toNat = _
    rw [h.free, hcur]; rfl
  · simp only [Virtqueue.storeAvailRing, hslot]
    exact h.ring.reserve hroom _
  · intro j d e hj he _
    exact h.desc j d e hj he (by simp [PushSys.pending, hp, Store.descField])
  · refine .of_push rfl ⟨fun _ => hroom, fun _ => ?_, by simp [Store.published], by simp, by simp⟩
    simp only [Virtqueue.storeAvailRing, hslot]
    exact Function.update_self _ _ _

/-- Storing the avail index publishes the entry. -/
theorem storeAvailIdx_ok (h : PushOK s) {b : Buffer} {g : Bool} (hp : s.push = some (.availIdx, b, g)) :
    PushOK { s with
      q := s.q.storeAvailIdx
      push := some (.addr, b, g)
      published := s.published ++ [(s.q.freeHead, b, g)] } := by
  have hstage := h.stage _ _ _ hp
  have hroom := hstage.early rfl
  have hcur : s.cur = s.published.length := by simp [PushSys.cur, hp, Store.published]
  have hlen : (s.published ++ [(s.q.freeHead, b, g)]).length = s.published.length + 1 := by simp
  refine ⟨h.pow, ?_, h.used, ?_, ?_, ?_, ?_, ?_, ?_, ?_⟩
  · simp only [Virtqueue.storeAvailIdx, hlen]; rw [h.avail, word_succ]
  · simp only [hlen]; have := h.le; omega
  · simp only [hlen]; exact hroom
  · show s.q.freeHead.toNat = _
    rw [h.free, hcur]
    simp [PushSys.cur, Store.published, PushSys.N, Virtqueue.storeAvailIdx]
  · intro j d e he
    rcases lt_or_ge j s.published.length with hj | hj
    · rw [List.getElem?_append_left hj] at he; exact h.head j d e he
    · have hjlt : j < s.published.length + 1 := by rw [← hlen]; exact (List.getElem?_eq_some_iff.1 he).1
      have hj' : j = s.published.length := by omega
      subst hj'
      simp at he
      rw [← he.1, h.free, hcur]; rfl
  · simp only [hlen]
    have hring := h.ring.congr (r := fun j => (s.published ++ [(s.q.freeHead, b, g)])[j]?.map Prod.fst)
      (fun j _ hj => by rw [List.getElem?_append_left hj])
    -- the slot was written by the store before
    exact hring.extend (by simp only [hstage.slotted rfl]; simp)
  · intro j d e hj he hne
    have hjlt : j + 1 ≠ s.published.length + 1 := by
      rw [← hlen]; exact hne (by simp [PushSys.pending, Store.descField])
    have hjl : j < s.published.length := by
      have : j < s.published.length + 1 := by rw [← hlen]; exact (List.getElem?_eq_some_iff.1 he).1
      omega
    refine h.desc j d e hj ?_ (by simp [PushSys.pending, hp, Store.descField])
    rw [← he, List.getElem?_append_left hjl]
  · refine .of_push rfl ⟨by simp [Store.published], by simp, fun _ => ?_, by simp, by simp⟩
    simp [Virtqueue.storeAvailIdx]

/-- A store into the descriptor of the newest entry, by a push that has published
it. -/
theorem storeDesc_ok (h : PushOK s) {st : Store} {b : Buffer} {g : Bool}
    (hp : s.push = some (st, b, g)) (hst : st.published = true) (st' : Store) (hst' : st'.published = true)
    (f : VirtqueueDescriptor → VirtqueueDescriptor)
    (hfin : st'.descField = false → s.returned < s.published.length →
      Describes (f (s.q.descriptor s.q.freeHead.toNat)) (b, g))
    (haddr : st' = .len ∨ st' = .flags → (f (s.q.descriptor s.q.freeHead.toNat)).addr = b.getAddress)
    (hflen : st' = .flags → (f (s.q.descriptor s.q.freeHead.toNat)).len = b.getSize.toUInt32) :
    PushOK { s with q := s.q.storeDesc f, push := some (st', b, g) } := by
  obtain ⟨hpos, hlast, hfree⟩ := h.last_eq hp hst
  have hcur : s.cur = s.published.length - 1 := by simp [PushSys.cur, hp, hst]
  refine ⟨h.pow, h.avail, h.used, h.le, h.room, ?_, h.head, h.ring, ?_, ?_⟩
  · show s.q.freeHead.toNat = _
    rw [h.free, hcur]
    simp [PushSys.cur, hst', PushSys.N, Virtqueue.storeDesc]
  · intro j d e hj he hne
    show Describes (Function.update s.q.descriptor s.q.freeHead.toNat _ (j % s.N)) e
    have hj : s.returned ≤ j := hj
    have hjl : j < s.published.length := (List.getElem?_eq_some_iff.1 he).1
    rcases Nat.lt_or_ge (j + 1) s.published.length with hlt | hge
    · rw [hfree, Function.update_of_ne (h.desc_ne hj hlt)]
      exact h.desc j d e hj he (fun _ => hlt.ne)
    · -- the newest entry: it counts only once its last field is stored
      have hj' : j = s.published.length - 1 := by omega
      subst hj'
      rw [hlast] at he
      obtain ⟨rfl, rfl⟩ := Prod.mk.inj (Option.some.inj he)
      rw [← hfree, Function.update_self]
      apply hfin _ (by omega)
      cases hd : st'.descField with
      | false => rfl
      | true =>
        have hne' : s.published.length - 1 + 1 ≠ s.published.length := hne (by simp [PushSys.pending, hd])
        omega
  · refine .of_push rfl ⟨fun hpub => ?_, fun hidx => ?_, fun _ => (h.stage st b g hp).newest hst,
      fun h' => ?_, fun h' => ?_⟩
    · rw [hst'] at hpub; cases hpub
    · rw [hidx] at hst'; cases hst'
    · simp only [Virtqueue.storeDesc, Function.update_self]
      exact haddr h'
    · simp only [Virtqueue.storeDesc, Function.update_self]
      exact hflen h'

/-- The driver's own `buffers` slot is not read by the device. -/
theorem storeBuffer_ok (h : PushOK s) {b : Buffer} {g : Bool} (hp : s.push = some (.buffer, b, g)) :
    PushOK { s with q := s.q.storeBuffer b, push := some (.next, b, g) } := by
  have hcur : s.cur = s.published.length - 1 := by simp [PushSys.cur, hp, Store.published]
  refine ⟨h.pow, h.avail, h.used, h.le, h.room, ?_, h.head, h.ring, ?_, ?_⟩
  · show s.q.freeHead.toNat = _
    rw [h.free, hcur]
    simp [PushSys.cur, Store.published, PushSys.N, Virtqueue.storeBuffer]
  · intro j d e hj he _
    exact h.desc j d e hj he (by simp [PushSys.pending, hp, Store.descField])
  · exact .of_push rfl ⟨by simp [Store.published], by simp, fun _ => (h.stage _ _ _ hp).newest rfl, by simp,
      by simp⟩

/-- The last store of a push frees the next descriptor number. -/
theorem storeFreeHead_ok (h : PushOK s) {b : Buffer} {g : Bool} (hp : s.push = some (.freeHead, b, g)) :
    PushOK { s with q := s.q.storeFreeHead, push := none } := by
  obtain ⟨hpos, -, hfree⟩ := h.last_eq hp rfl
  refine ⟨h.pow, h.avail, h.used, h.le, h.room, ?_, h.head, h.ring, ?_, fun _ _ _ hnone => by cases hnone⟩
  · have hw : s.q.freeHead = UInt16.ofNat ((s.published.length - 1) % s.N) := by
      rw [← hfree, UInt16.ofNat_toNat]
    have hslot := h.slot_eq ((s.published.length - 1) % s.N + 1)
    unfold Virtqueue.slot Virtqueue.getSize at hslot
    simp only [Virtqueue.storeFreeHead, PushSys.cur, Option.any_none, Bool.false_eq_true, if_false]
    rw [hw, word_succ, hslot, Nat.mod_add_mod, Nat.sub_add_cancel hpos]; rfl
  · intro j d e hj he _
    exact h.desc j d e hj he (by simp [PushSys.pending, hp, Store.descField])

/-- **Every store keeps the invariant.** -/
theorem store_ok (h : PushOK s) : PushOK s.store := by
  unfold PushSys.store
  split
  · exact h
  rename_i st b g hp
  cases st with
  | availRing => exact h.storeAvailRing_ok hp
  | availIdx => exact h.storeAvailIdx_ok hp
  | addr =>
    exact h.storeDesc_ok hp rfl .len rfl (fun d => { d with addr := b.getAddress })
      (by simp [Store.descField]) (fun _ => rfl) (by simp)
  | len =>
    exact h.storeDesc_ok hp rfl .flags rfl (fun d => { d with len := b.getSize.toUInt32 })
      (by simp [Store.descField]) (fun _ => (h.stage _ b g hp).addr (.inl rfl)) (fun _ => rfl)
  | flags =>
    exact h.storeDesc_ok hp rfl .buffer rfl (fun d => { d with flags := Virtqueue.descFlags g })
      (fun _ _ => ⟨(h.stage _ b g hp).addr (.inr rfl), (h.stage _ b g hp).len rfl, rfl⟩) (by simp) (by simp)
  | buffer => exact h.storeBuffer_ok hp
  | next =>
    refine h.storeDesc_ok hp rfl .freeHead rfl
      (fun d => { d with next := (s.q.freeHead + 1) &&& (s.q.size - 1) }) (fun _ hlt => ?_) (by simp) (by simp)
    obtain ⟨hpos, hlast, hfree⟩ := h.last_eq hp rfl
    have := h.desc _ _ _ (by omega) hlast (by simp [PushSys.pending, hp, Store.descField])
    rw [hfree]; exact this
  | freeHead => exact h.storeFreeHead_ok hp

theorem step_ok (h : PushOK s) {o : PushOp} {s' : PushSys} (ho : s.Allowed o) (he : s.step o = .ok s') :
    PushOK s' := by
  cases o with
  | call b g =>
    obtain ⟨s'', h1, h2⟩ := h.call_ok ho.1 ho.2 b g
    rw [h1] at he
    rw [← Except.ok.inj he]; exact h2
  | store => rw [← Except.ok.inj he]; exact h.store_ok
  | pop => exact h.pop_ok he
  | ret e =>
    obtain ⟨s'', h1, h2⟩ := h.ret_ok ho e
    rw [h1] at he
    rw [← Except.ok.inj he]; exact h2

theorem init {q : Virtqueue} {size : UInt16} {k : ℕ} {isIndirect usedInterrupt : Bool} {m : QueueMem}
    (hk : size.toNat = 2 ^ k) (hq : Virtqueue.new size isIndirect usedInterrupt m = some q) :
    PushOK (.init q) := by
  obtain ⟨rfl, h1, h2, h3, -⟩ := Virtqueue.new_fields hq
  refine ⟨⟨k, hk⟩, h1, h2, le_rfl, Nat.zero_le _, ?_, ?_, Holds.empty _ _ _, ?_, ?_⟩
  · simp only [PushSys.init]; rw [h3]; simp [PushSys.cur]
  all_goals intros; simp_all [PushSys.init]

end PushOK

/-- The stores of a push, run one by one with nothing in between, are `push`. -/
theorem PushSys.stores_run (s : PushSys) (b : Buffer) (g : Bool) :
    (PushSys.store^[8] { s with push := some (.availRing, b, g) }).q = s.q.stores b g := rfl

/-- **What the device sees during `push`.** In every state of every interleaving of
the stores of `push` with device steps, every entry between `used.idx` and
`avail.idx` is written, unless a push has stored the avail index and not yet the
descriptor, the device has not returned that entry, and the descriptor does not
hold the pushed values from before. -/
theorem push_visibility {size : UInt16} {k : ℕ} (hk : size.toNat = 2 ^ k)
    {isIndirect usedInterrupt : Bool} {m : QueueMem} {q : Virtqueue}
    (hq : Virtqueue.new size isIndirect usedInterrupt m = some q) {s : PushSys}
    (h : Reach PushSys.step PushSys.Allowed (.init q) s) : s.Visible ↔ ¬ s.Exposed :=
  (h.inv (PushOK.init hk hq) fun _ _ _ hs ho he => hs.step_ok ho he).visible_iff_not_exposed

/-- A push after its first two stores. -/
def halfPushed : Option PushSys :=
  runIf PushSys.step PushSys.Allowed (.init .two) [.call (.page 4096) false, .store, .store]

/-- After all its stores. -/
theorem push_visibility_two : ∃ s, Reach PushSys.step PushSys.Allowed (.init .two) s ∧
    s.push.isNone ∧ s.published.length = 1 ∧ (s.Visible ↔ ¬ s.Exposed) := by
  have hrun : (runIf PushSys.step PushSys.Allowed (.init .two) [.call (.page 4096) false, .store, .store,
      .store, .store, .store, .store, .store, .store]).map (fun s => (s.push.isNone, s.published.length)) =
      some (true, 1) := by decide +kernel
  obtain ⟨s, hs, hlen⟩ := Option.map_eq_some_iff.1 hrun
  obtain ⟨h1, h2⟩ := Prod.mk.inj hlen
  have hreach := Reach.of_runIf _ hs
  exact ⟨s, hreach, h1, h2, push_visibility (k := 1) rfl Virtqueue.two_eq hreach⟩

/-- **The device sees an entry whose descriptor is not written**: after the first
two stores of the first push, the entry at index 0 names a descriptor with address
0. -/
theorem half_written_entry : ∃ s, Reach PushSys.step PushSys.Allowed (.init .two) s ∧ ¬ s.Visible := by
  have hrun : halfPushed.map (fun s => ((s.q.avail.idx - s.q.used.idx).toNat, s.returned,
      s.published.map (fun x => (x.1.toNat, x.2.1.getAddress)), (s.q.descriptor 0).addr)) =
      some (1, 0, [(0, 4096)], 0) := by decide +kernel
  obtain ⟨s, hs, hfacts⟩ := Option.map_eq_some_iff.1 hrun
  simp only [Prod.mk.injEq] at hfacts
  obtain ⟨hlen, hret, hpub, haddr⟩ := hfacts
  refine ⟨s, Reach.of_runIf _ hs, fun hv => ?_⟩
  obtain ⟨d, e, he, -, hd⟩ := hv 0 (by rw [hlen]; exact Nat.one_pos)
  rw [hret] at he
  have hget := congrArg (·[0]?) hpub
  simp only [List.getElem?_map, he, Option.map_some] at hget
  obtain ⟨hd0, hea⟩ := Prod.mk.inj (Option.some.inj hget)
  have := hd.1
  rw [hd0, haddr, hea] at this
  exact absurd this (by decide)

end Urchin
