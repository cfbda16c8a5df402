import Urchin.Circ.Window
import Urchin.Proof.Buffer
import Urchin.Spec.Virtqueue

/-!
# The invariant of a virtqueue in use

`QueueOK` ties the four counters of a queue, its two rings, the descriptor table
and the `buffers` slots to the history of the run, whatever order the device
returns descriptors in. The 16-bit counters are the lengths of the histories
modulo `2 ^ 16`, so the invariant does not see their wrap-around.

Position `p` (the `p`-th push) always uses descriptor and slot `p % N`. A push is
harmless exactly when the previous user of its descriptor, position `p - N`, has
been handed out by `pop` (`Recycled`). Each operation of driver and device keeps
the invariant: `push_ok`, `take_ok`, `complete_ok`, `pop_ok`.
-/

namespace Urchin

open Exec Circ

/-- The device-visible fields of a descriptor are those of a pushed buffer. -/
def Describes (d : VirtqueueDescriptor) (e : Buffer × Bool) : Prop :=
  d.addr = e.1.getAddress ∧ d.len = e.1.getSize.toUInt32 ∧ d.flags = Virtqueue.descFlags e.2

namespace QueueSys

/-- The queue's size. -/
def N (s : QueueSys) : ℕ := s.q.size.toNat

/-- Position `p` has been handed out by `pop`. -/
def Popped (s : QueueSys) (p : ℕ) : Prop := p ∈ (s.done.take s.popped.length).map Taken.pos

/-- The previous user of the descriptor that the next push selects, if it has
one, has been handed out by `pop`. -/
def Recycled (s : QueueSys) : Prop := ∀ p, p + s.N = s.pushed.length → s.Popped p

end QueueSys

/-- The invariant of a queue and its history. -/
structure QueueOK (s : QueueSys) : Prop where
  pow : ∃ k, s.q.size.toNat = 2 ^ k
  avail : s.q.avail.idx = UInt16.ofNat s.pushed.length
  used : s.q.used.idx = UInt16.ofNat s.done.length
  last : s.q.lastUsedIdx = UInt16.ofNat s.popped.length
  free : s.q.freeHead.toNat = s.pushed.length % s.N
  lag : s.popped.length ≤ s.done.length
  taken : s.dev.taken ≤ s.pushed.length
  split : ((s.done ++ s.dev.inflight).map Taken.pos).Perm (List.range s.dev.taken)
  entry : ∀ t ∈ s.done ++ s.dev.inflight, t.head.toNat = t.pos % s.N ∧
    ∀ e, s.pushed[t.pos]? = some e → Describes t.desc e
  posted : Holds s.N (fun i => (s.q.availRing i).toNat) (· % s.N) s.dev.taken s.pushed.length
  returned : Holds s.N (fun i => some (s.q.usedRing i).id.toNat)
    (fun i => s.done[i]?.map fun t => t.pos % s.N) s.popped.length s.done.length
  live : ∀ p e, s.pushed[p]? = some e → ¬ s.Popped p → s.pushed.length ≤ p + s.N ∧
    s.q.buffers (p % s.N) = some e.1 ∧ Describes (s.q.descriptor (p % s.N)) e
  out : s.popped.map some = (s.done.take s.popped.length).map fun t => (s.pushed[t.pos]?).map Prod.fst

namespace QueueOK

variable {s : QueueSys}

theorem N_pos (h : QueueOK s) : 0 < s.N := by
  obtain ⟨k, hk⟩ := h.pow
  exact (word_pow_le hk).1

theorem N_le (h : QueueOK s) : s.N ≤ 32768 := by
  obtain ⟨k, hk⟩ := h.pow
  exact (word_pow_le hk).2

/-- Counters are masked to slots. -/
theorem slot_eq (h : QueueOK s) (a : ℕ) : s.q.slot (UInt16.ofNat a) = a % s.N := by
  obtain ⟨k, hk⟩ := h.pow
  exact word_slot hk a

theorem slot_lt (h : QueueOK s) (a : ℕ) : s.q.slot (UInt16.ofNat a) < s.q.size.toNat := by
  rw [h.slot_eq]; exact Nat.mod_lt _ h.N_pos

/-- Positions taken by the device are taken once. -/
theorem nodup (h : QueueOK s) : ((s.done ++ s.dev.inflight).map Taken.pos).Nodup :=
  h.split.nodup_iff.2 List.nodup_range

theorem pos_lt (h : QueueOK s) {t : Taken} (ht : t ∈ s.done ++ s.dev.inflight) :
    t.pos < s.dev.taken :=
  List.mem_range.1 (h.split.mem_iff.1 (List.mem_map_of_mem ht))

/-- A position the device has not taken has not been handed out. -/
theorem not_popped_of_taken_le (h : QueueOK s) {p : ℕ} (hp : s.dev.taken ≤ p) : ¬ s.Popped p := by
  intro hpop
  obtain ⟨t, ht, rfl⟩ := List.mem_map.1 hpop
  have := h.pos_lt (List.mem_append_left s.dev.inflight (List.mem_of_mem_take ht))
  omega

/-- Positions returned and not yet handed out, or still with the device. -/
theorem not_popped_of_mem (h : QueueOK s) {t : Taken}
    (ht : t ∈ s.done.drop s.popped.length ++ s.dev.inflight) : ¬ s.Popped t.pos := by
  intro hpop
  have hnd := h.nodup
  rw [← List.take_append_drop s.popped.length s.done, List.append_assoc, List.map_append] at hnd
  exact (List.disjoint_of_nodup_append hnd) hpop (List.mem_map_of_mem ht)

theorem pushed_of_lt {p : ℕ} (hp : p < s.pushed.length) : ∃ e, s.pushed[p]? = some e :=
  ⟨_, List.getElem?_eq_getElem hp⟩

/-- An unreturned position is at most a lap behind the next push. -/
theorem lap (h : QueueOK s) {p : ℕ} (hp : p < s.pushed.length) (hnp : ¬ s.Popped p) :
    s.pushed.length ≤ p + s.N := by
  obtain ⟨e, he⟩ := pushed_of_lt hp
  exact (h.live p e he hnp).1

/-- **Everything between `push` and `pop` fits the ring.** -/
theorem outstanding_le (h : QueueOK s) :
    (s.done.drop s.popped.length).length + s.dev.inflight.length ≤ s.N := by
  set L := (s.done.drop s.popped.length ++ s.dev.inflight).map Taken.pos with hL
  have hnd : L.Nodup := by
    have hnd := h.nodup
    rw [← List.take_append_drop s.popped.length s.done, List.append_assoc, List.map_append] at hnd
    exact hnd.of_append_right
  have hsub : L.toFinset ⊆ Finset.Ico (s.pushed.length - s.N) s.pushed.length := by
    intro p hp
    rw [List.mem_toFinset, hL] at hp
    obtain ⟨t, ht, rfl⟩ := List.mem_map.1 hp
    have hmem : t ∈ s.done ++ s.dev.inflight := by
      rcases List.mem_append.1 ht with h1 | h1
      · exact List.mem_append_left _ (List.mem_of_mem_drop h1)
      · exact List.mem_append_right _ h1
    have hlt := lt_of_lt_of_le (h.pos_lt hmem) h.taken
    have := h.lap hlt (h.not_popped_of_mem ht)
    rw [Finset.mem_Ico]; omega
  have hcard := Finset.card_le_card hsub
  rw [List.toFinset_card_of_nodup hnd, Nat.card_Ico, hL, List.length_map, List.length_append] at hcard
  omega

theorem done_le (h : QueueOK s) : s.done.length ≤ s.popped.length + s.N := by
  have := h.outstanding_le
  rw [List.length_drop] at this
  omega

/-- The device returns only what it took, and takes only what was pushed. -/
theorem done_le_pushed (h : QueueOK s) : s.done.length + s.dev.inflight.length ≤ s.pushed.length := by
  have hlen := h.split.length_eq
  rw [List.length_map, List.length_append, List.length_range] at hlen
  rw [hlen]
  exact h.taken

theorem pushed_le (h : QueueOK s) : s.pushed.length ≤ s.dev.taken + s.N := by
  rcases Nat.lt_or_ge s.dev.taken s.pushed.length with hlt | hge
  · exact h.lap hlt (h.not_popped_of_taken_le le_rfl)
  · omega

/-- Two positions that are not handed out use different descriptors. -/
theorem desc_inj (h : QueueOK s) {p p' : ℕ} (hp : p < s.pushed.length) (hnp : ¬ s.Popped p)
    (hp' : p' < s.pushed.length) (hnp' : ¬ s.Popped p') (he : p % s.N = p' % s.N) : p = p' := by
  have h1 := h.lap hp hnp
  have h2 := h.lap hp' hnp'
  exact slot_inj (s.pushed.length - s.N) (by omega) (by omega) (by omega) (by omega) he

/-- A returned entry that `pop` has not handed out is no longer the device's: the
device neither holds its descriptor nor finds it in the avail ring. -/
theorem returned_free (h : QueueOK s) {t : Taken} (ht : t ∈ s.done.drop s.popped.length) :
    (∀ t' ∈ s.dev.inflight, t'.head ≠ t.head) ∧
      ∀ j, s.dev.taken ≤ j → j < s.pushed.length → s.q.availRing (j % s.N) ≠ t.head := by
  have hmem : t ∈ s.done ++ s.dev.inflight := List.mem_append_left _ (List.mem_of_mem_drop ht)
  have hlt : t.pos < s.dev.taken := h.pos_lt hmem
  have hnp : ¬ s.Popped t.pos := h.not_popped_of_mem (List.mem_append_left _ ht)
  have hhead := (h.entry t hmem).1
  constructor
  · intro t' ht' heq
    have hmem' : t' ∈ s.done ++ s.dev.inflight := List.mem_append_right _ ht'
    have hlt' : t'.pos < s.dev.taken := h.pos_lt hmem'
    have hpos : t'.pos = t.pos := by
      refine h.desc_inj (lt_of_lt_of_le hlt' h.taken) (h.not_popped_of_mem (List.mem_append_right _ ht'))
        (lt_of_lt_of_le hlt h.taken) hnp ?_
      rw [← hhead, ← (h.entry t' hmem').1, heq]
    -- the same position would have been taken twice
    have hnd := h.nodup
    rw [List.map_append] at hnd
    refine List.disjoint_of_nodup_append hnd (List.mem_map_of_mem (List.mem_of_mem_drop ht)) ?_
    rw [← hpos]
    exact List.mem_map_of_mem ht'
  · intro j hj hjp heq
    have hring : (s.q.availRing (j % s.N)).toNat = j % s.N := h.posted j hj hjp
    have hpos : j = t.pos := by
      refine h.desc_inj hjp (h.not_popped_of_taken_le hj) (lt_of_lt_of_le hlt h.taken) hnp ?_
      rw [← hring, heq, hhead]
    omega

end QueueOK

/-! ## What `push` leaves -/

namespace Virtqueue

variable (q : Virtqueue) (b : Buffer) (g : Bool)

theorem push_eq (h1 : q.slot q.avail.idx < q.size.toNat) (h2 : q.freeHead.toNat < q.size.toNat) :
    q.push b g = .ok (.ok (), q.stores b g) := if_pos ⟨h1, h2⟩

/-- The stores of a push, put together. -/
theorem stores_eq : q.stores b g = { q with
    avail := { q.avail with idx := q.avail.idx + 1 }
    availRing := Function.update q.availRing (q.slot q.avail.idx) q.freeHead
    descriptor := Function.update q.descriptor q.freeHead.toNat
      ⟨b.getAddress, b.getSize.toUInt32, descFlags g, (q.freeHead + 1) &&& (q.size - 1)⟩
    buffers := Function.update q.buffers q.freeHead.toNat (some b)
    freeHead := (q.freeHead + 1) &&& (q.size - 1) } := by
  simp only [stores, storeFreeHead, storeNext, storeBuffer, storeFlags, storeLen, storeAddr, storeDesc,
    storeAvailIdx, storeAvailRing, Function.update_self, Function.update_idem]

end Virtqueue

namespace QueueOK

variable {s : QueueSys}

/-- The free head steps to the next slot. -/
theorem free_succ (h : QueueOK s) :
    ((s.q.freeHead + 1) &&& (s.q.size - 1)).toNat = (s.pushed.length + 1) % s.N := by
  have hw : s.q.freeHead = UInt16.ofNat (s.pushed.length % s.N) := by
    rw [← h.free, UInt16.ofNat_toNat]
  rw [hw, word_succ]
  have := h.slot_eq (s.pushed.length % s.N + 1)
  unfold Virtqueue.slot Virtqueue.getSize at this
  rw [this, Nat.mod_add_mod]

theorem free_lt (h : QueueOK s) : s.q.freeHead.toNat < s.q.size.toNat := by
  rw [h.free]; exact Nat.mod_lt _ h.N_pos

/-- A push into a recycled descriptor hits no position that is still out. -/
theorem recycled_ne (h : QueueOK s) (hr : s.Recycled) {p : ℕ} (hp : p < s.pushed.length)
    (hnp : ¬ s.Popped p) : p % s.N ≠ s.pushed.length % s.N := by
  intro he
  have hlap := h.lap hp hnp
  have hne : p + s.N ≠ s.pushed.length := fun h' => hnp (hr p h')
  have := slot_inj (p + 1) (N := s.N) (i := p + s.N) (j := s.pushed.length) (by have := h.N_pos; omega)
    (by omega) (by omega) (by omega) (by rw [Nat.add_mod_right]; exact he)
  exact hne this

/-- **`push` keeps the invariant**, when the descriptor it selects is recycled. -/
theorem push_ok (h : QueueOK s) (hr : s.Recycled) (b : Buffer) (g : Bool) :
    s.step (.push b g) = .ok { s with q := s.q.stores b g, pushed := s.pushed ++ [(b, g)] } ∧
      QueueOK { s with q := s.q.stores b g, pushed := s.pushed ++ [(b, g)] } := by
  constructor
  · simp only [QueueSys.step]
    rw [s.q.push_eq b g (by rw [h.avail]; exact h.slot_lt _) h.free_lt]; rfl
  have hlen : (s.pushed ++ [(b, g)]).length = s.pushed.length + 1 := by simp
  have hold : ∀ p, p < s.pushed.length → (s.pushed ++ [(b, g)])[p]? = s.pushed[p]? :=
    fun p hp => List.getElem?_append_left hp
  have hposlt : ∀ t ∈ s.done ++ s.dev.inflight, t.pos < s.pushed.length :=
    fun t ht => lt_of_lt_of_le (h.pos_lt ht) h.taken
  rw [s.q.stores_eq]
  refine ⟨h.pow, ?_, h.used, h.last, ?_, h.lag, ?_, h.split, ?_, ?_, h.returned, ?_, ?_⟩
  · simp only [hlen]; rw [h.avail, word_succ]
  · simp only [hlen]; exact h.free_succ
  · simp only [hlen]; have := h.taken; omega
  · intro t ht
    refine ⟨(h.entry t ht).1, fun e he => (h.entry t ht).2 e ?_⟩
    rw [← hold _ (hposlt t ht)]; exact he
  · -- the new avail entry is the next one of the ring
    have hroom : s.pushed.length < s.dev.taken + s.N := by
      have := h.pushed_le
      have hne : s.pushed.length ≠ s.dev.taken + s.N :=
        fun he => h.not_popped_of_taken_le le_rfl (hr _ he.symm)
      omega
    have hpush := h.posted.push hroom h.free
    simp only [hlen, h.avail, h.slot_eq]
    exact hpush
  · intro p e he hnp
    have hplt : p < s.pushed.length + 1 := by
      rw [← hlen]; exact (List.getElem?_eq_some_iff.1 he).1
    simp only [hlen, h.free]
    rcases Nat.lt_succ_iff_lt_or_eq.1 hplt with hp | hp
    · -- an older position: its descriptor is not the one selected
      have hne := h.recycled_ne hr hp hnp
      have hl := h.live p e (by rw [← hold p hp]; exact he) hnp
      have hne' : p + s.N ≠ s.pushed.length := fun h' => hnp (hr p h')
      refine ⟨by have := hl.1; show _ ≤ p + s.N; omega, ?_, ?_⟩
      · show Function.update _ _ _ (p % s.N) = _
        rw [Function.update_of_ne hne]; exact hl.2.1
      · show Describes (Function.update s.q.descriptor _ _ (p % s.N)) e
        rw [Function.update_of_ne hne]; exact hl.2.2
    · subst hp
      have he' : e = (b, g) := by simpa using he.symm
      subst he'
      refine ⟨by have := h.N_pos; show _ ≤ s.pushed.length + s.N; omega, ?_, ?_⟩
      · show Function.update _ _ _ (s.pushed.length % s.N) = _
        rw [Function.update_self]
      · show Describes (Function.update s.q.descriptor _ _ (s.pushed.length % s.N)) _
        rw [Function.update_self]; exact ⟨rfl, rfl, rfl⟩
  · simp only
    rw [h.out]
    apply List.map_congr_left
    intro t ht
    rw [hold _ (hposlt t (List.mem_append_left _ (List.mem_of_mem_take ht)))]

/-- **Taking an entry keeps the invariant.** The entry taken is the next position,
and its descriptor is the one its push wrote. -/
theorem take_ok (h : QueueOK s) : QueueOK { s with dev := s.dev.take s.q } := by
  have hle : s.pushed.length < s.dev.taken + 65536 := by
    have := h.pushed_le; have := h.N_le; omega
  unfold Device.take
  split
  · exact h
  rename_i hne
  rw [h.avail, word_eq_iff h.taken hle] at hne
  have hlt : s.dev.taken < s.pushed.length := lt_of_le_of_ne h.taken hne
  have hslot := h.slot_eq s.dev.taken
  -- the ring slot at the taken counter names the descriptor of that position
  have hhead : (s.q.availRing (s.dev.taken % s.N)).toNat = s.dev.taken % s.N :=
    h.posted _ le_rfl hlt
  refine ⟨h.pow, h.avail, h.used, h.last, h.free, h.lag, hlt, ?_, ?_, ?_, h.returned, h.live, h.out⟩
  · simp only
    rw [← List.append_assoc, List.map_append, List.range_succ]
    exact h.split.append_right _
  · intro t ht
    simp only [← List.append_assoc] at ht
    rcases List.mem_append.1 ht with ht | ht
    · exact h.entry t ht
    · rw [List.mem_singleton] at ht
      subst ht
      simp only [hslot, hhead]
      refine ⟨rfl, fun e he => ?_⟩
      exact (h.live _ e he (h.not_popped_of_taken_le le_rfl)).2.2
  · exact h.posted.mono (Nat.le_succ _) le_rfl

/-- **Returning an entry keeps the invariant**, whichever of its entries the
device returns. -/
theorem complete_ok (h : QueueOK s) (i : ℕ) (len : UInt32) : QueueOK (s.complete i len) := by
  unfold QueueSys.complete
  split
  rotate_left
  · exact h
  rename_i t ht
  obtain ⟨hi, rfl⟩ := List.getElem?_eq_some_iff.1 ht
  have hperm : (s.dev.inflight[i] :: s.dev.inflight.eraseIdx i).Perm s.dev.inflight :=
    List.getElem_cons_eraseIdx_perm hi
  have hall : ((s.done ++ [s.dev.inflight[i]]) ++ s.dev.inflight.eraseIdx i).Perm
      (s.done ++ s.dev.inflight) := by
    rw [List.append_assoc]; exact hperm.append_left _
  have htake : (s.done ++ [s.dev.inflight[i]]).take s.popped.length = s.done.take s.popped.length :=
    List.take_append_of_le_length h.lag
  -- the used ring has room: the entry returned was itself outstanding
  have hroom : s.done.length < s.popped.length + s.N := by
    have := h.outstanding_le
    have hpos : 0 < s.dev.inflight.length := by omega
    rw [List.length_drop] at this
    omega
  refine ⟨h.pow, h.avail, ?_, h.last, h.free, ?_, h.taken, ?_, ?_, h.posted, ?_, ?_, ?_⟩
  · simp only [Virtqueue.complete, List.length_append, List.length_singleton]
    rw [h.used, word_succ]
  · simp only [List.length_append, List.length_singleton]; have := h.lag; omega
  · exact (hall.map _).trans h.split
  · intro t ht
    exact h.entry t (hall.mem_iff.1 ht)
  · have hent := (h.entry s.dev.inflight[i] (by simp)).1
    have hseq : Holds s.N (fun j => some (s.q.usedRing j).id.toNat)
        (fun j => (s.done ++ [s.dev.inflight[i]])[j]?.map fun t => t.pos % s.N)
        s.popped.length s.done.length :=
      h.returned.congr fun j _ hj => by rw [List.getElem?_append_left hj]
    have hpush := hseq.push (v := ⟨s.dev.inflight[i].head.toUInt32, len⟩)
      (π := fun e : VirtqueueUsedElement => some e.id.toNat) hroom (by simp [hent])
    simp only [Virtqueue.complete, h.used, h.slot_eq, List.length_append, List.length_singleton]
    exact hpush
  · intro p e he hnp
    refine h.live p e he ?_
    unfold QueueSys.Popped at hnp ⊢
    simp only [htake] at hnp
    exact hnp
  · simp only [htake]; exact h.out

/-- **One round of `pop`** hands out the oldest returned buffer and keeps the
invariant. -/
theorem popOne_ok (h : QueueOK s) (hlt : s.popped.length < s.done.length) :
    ∃ b q', s.q.popOne = .ok (some b, q') ∧ q'.used = s.q.used ∧
      QueueOK { s with q := q', popped := s.popped ++ [b] } := by
  set t := s.done[s.popped.length] with ht
  have hget : s.done[s.popped.length]? = some t := List.getElem?_eq_getElem hlt
  have htmem : t ∈ s.done := List.getElem_mem hlt
  have htp : t.pos < s.pushed.length :=
    lt_of_lt_of_le (h.pos_lt (List.mem_append_left _ htmem)) h.taken
  have htnp : ¬ s.Popped t.pos := h.not_popped_of_mem (List.mem_append_left _ (by
    rw [List.drop_eq_getElem_cons hlt]; exact List.mem_cons_self))
  obtain ⟨e, he⟩ := pushed_of_lt htp
  have hid : (s.q.usedRing (s.popped.length % s.N)).id.toNat = t.pos % s.N := by
    have := h.returned _ le_rfl hlt
    simpa [hget] using this
  have hdlt : t.pos % s.N < s.q.size.toNat := Nat.mod_lt _ h.N_pos
  have hbuf := (h.live t.pos e he htnp).2.1
  refine ⟨e.1, { s.q with
    buffers := Function.update s.q.buffers (t.pos % s.N) none
    lastUsedIdx := s.q.lastUsedIdx + 1 }, ?_, rfl, ?_⟩
  · unfold Virtqueue.popOne
    rw [h.last, if_pos (h.slot_lt _), h.slot_eq]
    simp only [hid, if_pos hdlt, hbuf]
  have htake : s.done.take (s.popped.length + 1) = s.done.take s.popped.length ++ [t] := by
    rw [List.take_add_one, hget]; rfl
  refine ⟨h.pow, h.avail, h.used, ?_, h.free, ?_, h.taken, h.split, h.entry, h.posted, ?_, ?_, ?_⟩
  · simp only [List.length_append, List.length_singleton]; rw [h.last, word_succ]
  · simp only [List.length_append, List.length_singleton]; omega
  · simp only [List.length_append, List.length_singleton]
    exact h.returned.mono (Nat.le_succ _) le_rfl
  · intro p e' he' hnp
    have hnp' : ¬ s.Popped p ∧ p ≠ t.pos := by
      unfold QueueSys.Popped at hnp ⊢
      simpa [htake] using hnp
    have hp : p < s.pushed.length := (List.getElem?_eq_some_iff.1 he').1
    -- two positions in use have two descriptors
    have hne : p % s.N ≠ t.pos % s.N := fun hc => hnp'.2 (h.desc_inj hp hnp'.1 htp htnp hc)
    obtain ⟨h1, h2, h3⟩ := h.live p e' he' hnp'.1
    refine ⟨h1, ?_, h3⟩
    show Function.update _ _ _ (p % s.N) = _
    rw [Function.update_of_ne hne]; exact h2
  · simp only [List.length_append, List.length_singleton, htake, List.map_append, h.out]
    simp [he]

theorem popLoop_ok (n : ℕ) : ∀ (s : QueueSys) (fuel : ℕ) (ret : List Buffer), QueueOK s →
    s.done.length - s.popped.length = n → n ≤ fuel →
    ∃ out q', s.q.popLoop fuel ret = .ok (ret ++ out, q') ∧
      (s.popped ++ out).length = s.done.length ∧
      QueueOK { s with q := q', popped := s.popped ++ out } := by
  induction n with
  | zero =>
    intro s fuel ret h hn _
    have heq : s.popped.length = s.done.length := by have := h.lag; omega
    refine ⟨[], s.q, ?_, by simpa using heq, by simpa using h⟩
    cases fuel with
    | zero => simp [Virtqueue.popLoop]
    | succ fuel => simp [Virtqueue.popLoop, h.last, h.used, heq]
  | succ n ih =>
    intro s fuel ret h hn hf
    have hlt : s.popped.length < s.done.length := by omega
    obtain ⟨b, q', hq', hu, hok⟩ := h.popOne_ok hlt
    obtain ⟨out, q'', hl, hlen, hok'⟩ := ih _ (fuel - 1) (ret ++ [b]) hok
      (by simp only [List.length_append, List.length_singleton]; omega) (by omega)
    refine ⟨b :: out, q'', ?_, by simpa using hlen, by simpa using hok'⟩
    obtain ⟨f, rfl⟩ : ∃ f, fuel = f + 1 := ⟨fuel - 1, by omega⟩
    have hne : s.q.lastUsedIdx ≠ s.q.used.idx := by
      rw [h.last, h.used, Ne, word_eq_iff hlt.le (by have := h.done_le; have := h.N_le; omega)]
      exact hlt.ne
    simp only [Virtqueue.popLoop, if_neg hne, hq']
    simpa using hl

/-- **`pop` keeps the invariant** and hands out everything the device returned. -/
theorem pop_ok (h : QueueOK s) :
    ∃ out q', s.q.pop = .ok (out, q') ∧ (s.popped ++ out).length = s.done.length ∧
      QueueOK { s with q := q', popped := s.popped ++ out } := by
  have hn : s.done.length - s.popped.length ≤ 65536 := by
    have := h.done_le; have := h.N_le; omega
  unfold Virtqueue.pop
  simpa using popLoop_ok _ s 65536 [] h rfl hn

end QueueOK

/-! ## What never changes -/

theorem Virtqueue.push_size {q q' : Virtqueue} {b : Buffer} {g : Bool} {r : Except String Unit}
    (h : q.push b g = .ok (r, q')) : q'.size = q.size := by
  unfold Virtqueue.push at h
  split at h
  · simp only [Except.ok.injEq, Prod.mk.injEq] at h
    rw [← h.2, q.stores_eq]
  · cases h

/-- `pop` changes nothing but the `buffers` slots and its own counter. -/
theorem Virtqueue.popLoop_frame (fuel : ℕ) :
    ∀ (q : Virtqueue) (ret out : List Buffer) (q' : Virtqueue), q.popLoop fuel ret = .ok (out, q') →
      ∃ bufs last, q' = { q with buffers := bufs, lastUsedIdx := last } := by
  induction fuel with
  | zero =>
    intro q ret out q' h
    simp only [Virtqueue.popLoop, Except.ok.injEq, Prod.mk.injEq] at h
    exact ⟨_, _, h.2.symm⟩
  | succ fuel ih =>
    intro q ret out q' h
    simp only [Virtqueue.popLoop] at h
    split at h
    · simp only [Except.ok.injEq, Prod.mk.injEq] at h
      exact ⟨_, _, h.2.symm⟩
    · split at h
      · rename_i b q₁ hone
        obtain ⟨bufs, last, rfl⟩ := ih _ _ _ _ h
        unfold Virtqueue.popOne at hone
        simp only at hone
        split at hone
        · split at hone
          · simp only [Except.ok.injEq, Prod.mk.injEq] at hone
            rw [← hone.2]
            exact ⟨_, _, rfl⟩
          · cases hone
        · cases hone
      · cases h

theorem Virtqueue.pop_frame {q q' : Virtqueue} {out : List Buffer} (h : q.pop = .ok (out, q')) :
    ∃ bufs last, q' = { q with buffers := bufs, lastUsedIdx := last } :=
  popLoop_frame _ _ _ _ _ h

theorem QueueSys.step_N {s s' : QueueSys} {o : QueueOp} (h : s.step o = .ok s') : s'.N = s.N := by
  cases o with
  | push b g =>
    obtain ⟨r, hp, rfl⟩ := map_eq_ok.1 h
    exact congrArg UInt16.toNat (Virtqueue.push_size (r := r.1) hp)
  | pop =>
    obtain ⟨r, hp, rfl⟩ := map_eq_ok.1 h
    obtain ⟨bufs, last, hq'⟩ := Virtqueue.pop_frame hp
    simp only [QueueSys.N, hq']
  | take =>
    simp only [QueueSys.step, Except.ok.injEq] at h
    subst h; rfl
  | complete i len =>
    simp only [QueueSys.step, Except.ok.injEq] at h
    subst h
    unfold QueueSys.complete
    split <;> rfl

theorem QueueSys.reach_N {q : Virtqueue} {allowed : QueueSys → QueueOp → Prop} {s : QueueSys}
    (h : Reach QueueSys.step allowed (.init q) s) : s.N = q.size.toNat :=
  h.inv (P := fun s => s.N = q.size.toNat) rfl fun _ _ _ hs _ he => (step_N he).trans hs

/-! ## Start -/

/-- The descriptor table and the avail ring, less the byte that rounding up takes off. -/
theorem Virtqueue.availEnd_toNat (size : UInt16) :
    (16 * size.toUInt64 + 3 * 2 + 2 * size.toUInt64 - 1).toNat = 18 * size.toNat + 5 := by
  have h := size.toNat_lt
  simp only [UInt64.toNat_add, UInt64.toNat_mul, UInt64.toNat_sub, UInt16.toNat_toUInt64,
    UInt64.reduceToNat]
  omega

theorem Virtqueue.allocSize_toNat (size : UInt16) : (Virtqueue.allocSize size).toNat =
    ((18 * size.toNat + 5) / 4096 + 1) * 4096 + ((8 * size.toNat + 5) / 4096 + 1) * 4096 := by
  have h := size.toNat_lt
  have h2 : (3 * 2 + 8 * size.toUInt64 - 1).toNat = 8 * size.toNat + 5 := by
    simp only [UInt64.toNat_add, UInt64.toNat_mul, UInt64.toNat_sub, UInt16.toNat_toUInt64,
      UInt64.reduceToNat]
    omega
  simp only [Virtqueue.allocSize]
  rw [UInt64.toNat_add, pageRound_toNat (availEnd_toNat size) (by omega), pageRound_toNat h2 (by omega)]
  omega

/-- A queue of any size gets its layout: `Virtqueue::new` does not panic. -/
theorem Virtqueue.new_isSome (size : UInt16) (isIndirect usedInterrupt : Bool) (m : QueueMem) :
    (Virtqueue.new size isIndirect usedInterrupt m).isSome := by
  have h := size.toNat_lt
  unfold Virtqueue.new
  rw [fromSizeAlign_page (by rw [Virtqueue.allocSize_toNat]; omega)]
  rfl

/-- A fresh queue starts with all its counters at zero. -/
theorem Virtqueue.new_fields {q : Virtqueue} {size : UInt16} {isIndirect usedInterrupt : Bool}
    {m : QueueMem} (hq : Virtqueue.new size isIndirect usedInterrupt m = some q) :
    q.size = size ∧ q.avail.idx = 0 ∧ q.used.idx = 0 ∧ q.freeHead = 0 ∧ q.lastUsedIdx = 0 := by
  unfold Virtqueue.new at hq
  obtain ⟨layout, -, rfl⟩ := Option.map_eq_some_iff.1 hq
  exact ⟨rfl, rfl, rfl, rfl, rfl⟩

/-- A queue of two entries. -/
def Virtqueue.two : Virtqueue :=
  (Virtqueue.new 2 false true .zero).get (Virtqueue.new_isSome 2 false true .zero)

theorem Virtqueue.two_eq : Virtqueue.new 2 false true .zero = some .two := (Option.some_get _).symm

theorem QueueOK.init {q : Virtqueue} {size : UInt16} {k : ℕ} {isIndirect usedInterrupt : Bool}
    {m : QueueMem} (hk : size.toNat = 2 ^ k)
    (hq : Virtqueue.new size isIndirect usedInterrupt m = some q) : QueueOK (.init q) := by
  obtain ⟨rfl, h1, h2, h3, h4⟩ := Virtqueue.new_fields hq
  refine ⟨⟨k, hk⟩, h1, h2, h4, ?_, le_rfl, le_rfl, ?_, ?_, Holds.empty _ _ _, Holds.empty _ _ _, ?_, rfl⟩
  · simp only [QueueSys.init]; rw [h3]; simp
  · simp [QueueSys.init]
  · intro t ht; simp [QueueSys.init] at ht
  · intro p e he; simp [QueueSys.init] at he

end Urchin
