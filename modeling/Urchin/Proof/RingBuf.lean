import Urchin.Circ.Window
import Urchin.Spec.RingBuf

/-!
# The ring buffer with several producers

`put` claims its place before it fills the slot, and decides that there is a free slot
by a read index it loaded before. Two things can therefore go wrong:
* the consumer takes a place that is claimed and not written yet;
* a producer claims a place when the ring is full: it loaded the read index before the
  others filled the ring, and the consumer has moved that index on since. The ring then
  looks empty.

In runs where neither happens (`Allowed`) every place is taken after it is written and
returned by exactly one get (`ring_exactly_once`). The invariant `RingOK` ties the two
indices, the slots and the calls in progress to the places: place `p` uses slot
`p % RINGBUF_LENGTH`. The first of the two needs one producer and one element
(`overtaken`).
-/

namespace Urchin

open Exec Circ

theorem RINGBUF_LENGTH_pos : 0 < RINGBUF_LENGTH := by
  unfold RINGBUF_LENGTH
  norm_num

/-- The call has won its place, and is about to write slot `ix`. -/
def Put.Storing {T : Type*} (ix : ℕ) : Put T → Prop
  | .store _ wix => wix = ix
  | .idle | .loadRead _ | .loadWrite _ _ | .swap _ _ => False

instance {T : Type*} (ix : ℕ) : (pc : Put T) → Decidable (pc.Storing ix)
  | .store _ wix => inferInstanceAs (Decidable (wix = ix))
  | .idle | .loadRead _ | .loadWrite _ _ | .swap _ _ => inferInstanceAs (Decidable False)

/-- The call is about to write no slot. -/
def Put.Quiet {T : Type*} (pc : Put T) : Prop := ∀ ix, ¬ pc.Storing ix

/-- The element of a call that has not won its place yet. -/
def Put.pending {T : Type*} : Put T → List T
  | .loadRead val | .loadWrite val _ | .swap val _ => [val]
  | .idle | .store _ _ => []

namespace RingSys

variable {ι T : Type*} [DecidableEq ι] {s s' : RingSys ι T}

/-- If the consumer's call is about to take a place, no producer is about to write its
slot. -/
def MayTake (s : RingSys ι T) : Get T → Prop
  | .swap rix => s.ring.readidx = rix → ∀ i, ¬ (s.put i).Storing rix
  | .loadWrite | .loadRead _ | .read _ | .done _ => True

/-- If a producer's call is about to win a place, the ring is still not full. -/
def MayClaim (s : RingSys ι T) : Put T → Prop
  | .swap _ wix => s.ring.writeidx = wix → s.ring.readidx ≠ (wix + 1) % RINGBUF_LENGTH
  | .idle | .loadRead _ | .loadWrite _ _ | .store _ _ => True

def Allowed (s : RingSys ι T) : RingOp ι T → Prop
  | .consumer => s.MayTake s.get
  | .producer i => s.MayClaim (s.put i)
  | .put _ _ | .get => True

instance [Fintype ι] (s : RingSys ι T) : (g : Get T) → Decidable (s.MayTake g)
  | .swap _ => inferInstanceAs (Decidable (_ → _))
  | .loadWrite | .loadRead _ | .read _ | .done _ => inferInstanceAs (Decidable True)

instance (s : RingSys ι T) : (pc : Put T) → Decidable (s.MayClaim pc)
  | .swap _ _ => inferInstanceAs (Decidable (_ → _))
  | .idle | .loadRead _ | .loadWrite _ _ | .store _ _ => inferInstanceAs (Decidable True)

instance [Fintype ι] (s : RingSys ι T) : (o : RingOp ι T) → Decidable (s.Allowed o)
  | .consumer => inferInstanceAs (Decidable (s.MayTake s.get))
  | .producer i => inferInstanceAs (Decidable (s.MayClaim (s.put i)))
  | .put _ _ | .get => inferInstanceAs (Decidable True)

/-! ## What a step does -/

/-- **A step of a producer** moves its own call on, wins a place, or writes a slot. -/
theorem producer_cases {i : ι} (h : s.step (.producer i) = .ok s') :
    (∃ pc, (s.put i).Quiet ∧ pc.Quiet ∧ pc.pending = (s.put i).pending ∧
      s' = { s with put := Function.update s.put i pc }) ∨
    (∃ val, s.put i = .swap val s.ring.writeidx ∧
      s' = { s with
        ring := { s.ring with writeidx := (s.ring.writeidx + 1) % RINGBUF_LENGTH }
        put := Function.update s.put i (.store val s.ring.writeidx)
        claimed := s.claimed ++ [(i, val)]
        place := Function.update s.place i s.claimed.length }) ∨
    (∃ val wix, s.put i = .store val wix ∧
      s' = { s with
        ring := { s.ring with buffer := Function.update s.ring.buffer wix (some val) }
        put := Function.update s.put i .idle
        written := s.written ++ [s.place i] }) := by
  cases hput : s.put i with
  | idle =>
    simp only [step, hput, RingBuffer.putStep, Except.map, recordPut, Except.ok.injEq] at h
    exact .inl ⟨.idle, fun _ => id, fun _ => id, rfl, h.symm⟩
  | loadRead val =>
    simp only [step, hput, RingBuffer.putStep, Except.map, recordPut, Except.ok.injEq] at h
    exact .inl ⟨.loadWrite val s.ring.readidx, fun _ => id, fun _ => id, rfl, h.symm⟩
  | loadWrite val rix =>
    simp only [step, hput, RingBuffer.putStep, Except.map, recordPut, Except.ok.injEq] at h
    split at h
    · exact .inl ⟨.swap val s.ring.writeidx, fun _ => id, fun _ => id, rfl, h.symm⟩
    · exact .inl ⟨.loadRead val, fun _ => id, fun _ => id, rfl, h.symm⟩
  | swap val wix =>
    simp only [step, hput, RingBuffer.putStep] at h
    split at h
    · rename_i heq
      subst heq
      simp only [Except.map, recordPut, hput, Except.ok.injEq] at h
      exact .inr (.inl ⟨val, rfl, h.symm⟩)
    · simp only [Except.map, recordPut, hput, Except.ok.injEq] at h
      exact .inl ⟨.loadRead val, fun _ => id, fun _ => id, rfl, h.symm⟩
  | store val wix =>
    simp only [step, hput, RingBuffer.putStep] at h
    split at h
    · simp only [Except.map, recordPut, hput, Except.ok.injEq] at h
      exact .inr (.inr ⟨val, wix, rfl, h.symm⟩)
    · cases h

/-- **A step of the consumer** moves its call on, takes a place, or reads a slot. -/
theorem consumer_cases (h : s.step .consumer = .ok s') :
    (∃ g, s' = { s with get := g } ∧
      ((g = s.get) ∨ (s.get = .loadWrite ∧ g = .loadRead s.ring.writeidx) ∨
        (s.get = .loadRead s.ring.readidx ∧ g = .done none) ∨
        (∃ wix, s.get = .loadRead wix ∧ s.ring.readidx ≠ wix ∧ g = .swap s.ring.readidx) ∨
        (∃ rix, s.get = .swap rix ∧ s.ring.readidx ≠ rix ∧ g = .loadWrite))) ∨
    (s.get = .swap s.ring.readidx ∧
      s' = { s with
        ring := { s.ring with readidx := (s.ring.readidx + 1) % RINGBUF_LENGTH }
        get := .read s.ring.readidx
        taken := s.taken + 1 }) ∨
    (∃ rix, s.get = .read rix ∧
      s' = { s with
        get := .done (s.ring.buffer rix)
        returned := s.returned ++ [s.ring.buffer rix] }) := by
  cases hget : s.get with
  | loadWrite =>
    simp only [step, hget, RingBuffer.getStep, Except.map, recordGet, Except.ok.injEq] at h
    exact .inl ⟨_, h.symm, .inr (.inl ⟨rfl, rfl⟩)⟩
  | loadRead wix =>
    simp only [step, hget, RingBuffer.getStep, Except.map, recordGet, Except.ok.injEq] at h
    split at h
    · rename_i heq
      exact .inl ⟨_, h.symm, .inr (.inr (.inl ⟨by rw [heq], rfl⟩))⟩
    · rename_i hne
      exact .inl ⟨_, h.symm, .inr (.inr (.inr (.inl ⟨wix, rfl, hne, rfl⟩)))⟩
  | swap rix =>
    simp only [step, hget, RingBuffer.getStep] at h
    split at h
    · rename_i heq
      subst heq
      simp only [Except.map, recordGet, hget, Except.ok.injEq] at h
      exact .inr (.inl ⟨rfl, h.symm⟩)
    · rename_i hne
      simp only [Except.map, recordGet, hget, Except.ok.injEq] at h
      exact .inl ⟨_, h.symm, .inr (.inr (.inr (.inr ⟨rix, rfl, hne, rfl⟩)))⟩
  | read rix =>
    simp only [step, hget, RingBuffer.getStep] at h
    split at h
    · simp only [Except.map, recordGet, hget, Except.ok.injEq] at h
      exact .inr (.inr ⟨rix, rfl, h.symm⟩)
    · cases h
  | done result =>
    simp only [step, hget, RingBuffer.getStep, Except.map, recordGet, Except.ok.injEq] at h
    exact .inl ⟨_, h.symm, .inl rfl⟩

/-! ## The invariant -/

/-- The elements that producer `i` gave to the calls in a list. -/
def elementsOf (i : ι) (calls : List (ι × T)) : List T := (calls.filter fun c => c.1 = i).map Prod.snd

theorem elementsOf_append (i : ι) (a b : List (ι × T)) :
    elementsOf i (a ++ b) = elementsOf i a ++ elementsOf i b := by
  simp [elementsOf]

theorem elementsOf_self (i : ι) (val : T) : elementsOf i [(i, val)] = [val] := by
  simp [elementsOf]

theorem elementsOf_of_ne {i j : ι} (h : j ≠ i) (val : T) : elementsOf i [(j, val)] = [] := by
  simp [elementsOf, h]

theorem elementsOf_concat_self (i : ι) (a : List (ι × T)) (val : T) :
    elementsOf i (a ++ [(i, val)]) = elementsOf i a ++ [val] := by
  rw [elementsOf_append, elementsOf_self]

theorem elementsOf_concat_of_ne {i j : ι} (h : j ≠ i) (a : List (ι × T)) (val : T) :
    elementsOf i (a ++ [(j, val)]) = elementsOf i a := by
  rw [elementsOf_append, elementsOf_of_ne h, List.append_nil]

end RingSys

/-- What the consumer's call knows, when `taken` places have been taken, `returned` of
them returned, and `claimed` claimed. -/
def Get.OK {T : Type*} (returned taken claimed : ℕ) : Get T → Prop
  | .loadWrite | .done _ => taken = returned
  | .loadRead wix => taken = returned ∧ ∃ w, taken ≤ w ∧ w ≤ claimed ∧ wix = w % RINGBUF_LENGTH
  | .swap rix => taken = returned ∧ taken < claimed ∧ rix = taken % RINGBUF_LENGTH
  | .read rix => taken = returned + 1 ∧ rix = returned % RINGBUF_LENGTH

theorem Get.OK.mono {T : Type*} {g : Get T} {returned taken claimed claimed' : ℕ}
    (h : g.OK returned taken claimed) (hle : claimed ≤ claimed') : g.OK returned taken claimed' := by
  cases g with
  | loadWrite => exact h
  | done result => exact h
  | loadRead wix =>
    obtain ⟨ht, w, h1, h2, h3⟩ := h
    exact ⟨ht, w, h1, le_trans h2 hle, h3⟩
  | swap rix => exact ⟨h.1, lt_of_lt_of_le h.2.1 hle, h.2.2⟩
  | read rix => exact h

/-- A place is taken and not returned only while the call is about to read its slot. -/
theorem Get.OK.pending {T : Type*} {g : Get T} {returned taken claimed : ℕ}
    (h : g.OK returned taken claimed) :
    (taken = returned ∧ ∀ rix, g ≠ .read rix) ∨
      ∃ rix, g = .read rix ∧ taken = returned + 1 ∧ rix = returned % RINGBUF_LENGTH := by
  cases g with
  | loadWrite => exact .inl ⟨h, by simp⟩
  | done result => exact .inl ⟨h, by simp⟩
  | loadRead wix => exact .inl ⟨h.1, by simp⟩
  | swap rix => exact .inl ⟨h.1, by simp⟩
  | read rix => exact .inr ⟨rix, rfl, h⟩

theorem Get.OK.le {T : Type*} {g : Get T} {returned taken claimed : ℕ} (h : g.OK returned taken claimed) :
    returned ≤ taken ∧ taken ≤ returned + 1 := by
  rcases h.pending with ⟨h, -⟩ | ⟨rix, -, h, -⟩ <;> omega

open RingSys in
/-- The invariant of a ring buffer in use. -/
structure RingOK {ι T : Type*} [DecidableEq ι] (s : RingSys ι T) : Prop where
  len : s.ring.length = RINGBUF_LENGTH
  write : s.ring.writeidx = s.claimed.length % RINGBUF_LENGTH
  read : s.ring.readidx = s.taken % RINGBUF_LENGTH
  room : s.claimed.length < s.taken + RINGBUF_LENGTH
  le : s.taken ≤ s.claimed.length
  writer : ∀ i val wix, s.put i = .store val wix → s.taken ≤ s.place i ∧
    wix = s.place i % RINGBUF_LENGTH ∧ s.claimed[s.place i]? = some (i, val)
  unwritten : ∀ p, p < s.claimed.length → p ∉ s.written →
    ∃ i val wix, s.put i = .store val wix ∧ s.place i = p
  slots : ∀ p ∈ s.written, p < s.claimed.length ∧ (s.returned.length ≤ p →
    s.ring.buffer (p % RINGBUF_LENGTH) = (s.claimed[p]?).map Prod.snd)
  consumed : ∀ p, p < s.taken → p ∈ s.written
  get : s.get.OK s.returned.length s.taken s.claimed.length
  out : s.returned <+: s.claimed.map fun e => some e.2
  calls : ∀ i, elementsOf i s.started = elementsOf i s.claimed ++ (s.put i).pending

namespace RingOK

variable {ι T : Type*} [DecidableEq ι] {s s' : RingSys ι T}

theorem init : RingOK (.init : RingSys ι T) := by
  refine ⟨rfl, (Nat.zero_mod _).symm, (Nat.zero_mod _).symm, ?_, le_rfl, ?_, ?_, ?_, ?_, rfl,
    List.prefix_rfl, fun i => rfl⟩
  · show 0 < 0 + RINGBUF_LENGTH
    rw [Nat.zero_add]
    exact RINGBUF_LENGTH_pos
  · intro i val wix h
    cases h
  · intro p hp
    cases hp
  · intro p hp
    cases hp
  · intro p hp
    cases hp

/-- A step of producer `i` leaves the calls of the others as they are. -/
theorem calls_update (h : RingOK s) {i : ι} {pc : Put T} {started claimed : List (ι × T)}
    (hi : RingSys.elementsOf i started = RingSys.elementsOf i claimed ++ pc.pending)
    (hne : ∀ j, j ≠ i → RingSys.elementsOf j started = RingSys.elementsOf j s.started ∧
      RingSys.elementsOf j claimed = RingSys.elementsOf j s.claimed) :
    ∀ j, RingSys.elementsOf j started =
      RingSys.elementsOf j claimed ++ (Function.update s.put i pc j).pending := by
  intro j
  by_cases hji : j = i
  · subst hji
    rw [Function.update_self]
    exact hi
  · rw [Function.update_of_ne hji, (hne j hji).1, (hne j hji).2]
    exact h.calls j

/-- A producer's call that neither is nor gets to its slot matters only for what it has
to put. -/
theorem quiet_ok (h : RingOK s) {i : ι} {pc : Put T} {started : List (ι × T)} (hq : (s.put i).Quiet)
    (hq' : pc.Quiet)
    (hcalls : ∀ j, RingSys.elementsOf j started =
      RingSys.elementsOf j s.claimed ++ (Function.update s.put i pc j).pending) :
    RingOK { s with put := Function.update s.put i pc, started := started } := by
  have hstore : ∀ j val wix, Function.update s.put i pc j = .store val wix ↔ s.put j = .store val wix := by
    intro j val wix
    by_cases hj : j = i
    · subst hj
      rw [Function.update_self]
      refine ⟨fun he => ?_, fun he => ?_⟩
      · rw [he] at hq'; exact (hq' wix rfl).elim
      · rw [he] at hq; exact (hq wix rfl).elim
    · rw [Function.update_of_ne hj]
  refine ⟨h.len, h.write, h.read, h.room, h.le, ?_, ?_, h.slots, h.consumed, h.get, h.out, hcalls⟩
  · intro j val wix hj
    exact h.writer j val wix ((hstore j val wix).1 hj)
  · intro p hp hnw
    obtain ⟨j, val, wix, hj, hplace⟩ := h.unwritten p hp hnw
    exact ⟨j, val, wix, (hstore j val wix).2 hj, hplace⟩

/-- **Winning a place** while the ring is not full. -/
theorem claim_ok (h : RingOK s) {i : ι} {val : T} (hput : s.put i = .swap val s.ring.writeidx)
    (hroom : s.ring.readidx ≠ (s.ring.writeidx + 1) % RINGBUF_LENGTH) :
    RingOK { s with
      ring := { s.ring with writeidx := (s.ring.writeidx + 1) % RINGBUF_LENGTH }
      put := Function.update s.put i (.store val s.ring.writeidx)
      claimed := s.claimed ++ [(i, val)]
      place := Function.update s.place i s.claimed.length } := by
  have hidx : (s.ring.writeidx + 1) % RINGBUF_LENGTH = (s.claimed.length + 1) % RINGBUF_LENGTH := by
    rw [h.write, Nat.mod_add_mod]
  have hlen : (s.claimed ++ [(i, val)]).length = s.claimed.length + 1 := by simp
  have hold : ∀ p, p < s.claimed.length → (s.claimed ++ [(i, val)])[p]? = s.claimed[p]? :=
    fun p hp => List.getElem?_append_left hp
  refine ⟨h.len, ?_, h.read, ?_, ?_, ?_, ?_, ?_, h.consumed, ?_, ?_, ?_⟩
  · rw [hlen]; exact hidx
  · -- the ring would be full: the read index is where the write index goes
    have hne : s.claimed.length + 1 ≠ s.taken + RINGBUF_LENGTH := by
      intro he
      rw [hidx, he, Nat.add_mod_right] at hroom
      exact hroom h.read
    have := h.room
    show (s.claimed ++ [(i, val)]).length < s.taken + RINGBUF_LENGTH
    omega
  · have := h.le
    show s.taken ≤ (s.claimed ++ [(i, val)]).length
    omega
  · intro j val' wix hj
    by_cases hji : j = i
    · subst hji
      simp only [Function.update_self, Put.store.injEq] at hj ⊢
      obtain ⟨rfl, rfl⟩ := hj
      exact ⟨h.le, h.write, by simp⟩
    · simp only [Function.update_of_ne hji] at hj ⊢
      obtain ⟨h1, h2, h3⟩ := h.writer j val' wix hj
      refine ⟨h1, h2, ?_⟩
      rw [hold _ (List.getElem?_eq_some_iff.1 h3).1]
      exact h3
  · intro p hp hnw
    by_cases hplace : p = s.claimed.length
    · exact ⟨i, val, s.ring.writeidx, Function.update_self .., by rw [hplace]; exact Function.update_self ..⟩
    · obtain ⟨j, val', wix, hj, hjp⟩ := h.unwritten p (by rw [hlen] at hp; omega) hnw
      have hji : j ≠ i := by
        intro he
        rw [he, hput] at hj
        cases hj
      refine ⟨j, val', wix, ?_, ?_⟩
      · simp only [Function.update_of_ne hji]
        exact hj
      · simp only [Function.update_of_ne hji]
        exact hjp
  · intro p hp
    obtain ⟨hlt, hslot⟩ := h.slots p hp
    refine ⟨by rw [hlen]; omega, fun hle => ?_⟩
    rw [hold p hlt]
    exact hslot hle
  · exact h.get.mono (by rw [hlen]; omega)
  · rw [List.map_append]
    exact h.out.trans (List.prefix_append _ _)
  · refine h.calls_update ?_ ?_
    · rw [h.calls i, hput, RingSys.elementsOf_concat_self]
      simp [Put.pending]
    · exact fun j hji => ⟨rfl, RingSys.elementsOf_concat_of_ne (Ne.symm hji) _ _⟩

/-- Places from the last one returned on are at most a lap apart. -/
theorem window (h : RingOK s) : s.claimed.length ≤ s.returned.length + RINGBUF_LENGTH := by
  have := h.room
  have := h.get.le
  omega

/-- **Writing a slot.** No other place in use has that slot. -/
theorem write_ok (h : RingOK s) {i : ι} {val : T} {wix : ℕ} (hput : s.put i = .store val wix) :
    RingOK { s with
      ring := { s.ring with buffer := Function.update s.ring.buffer wix (some val) }
      put := Function.update s.put i .idle
      written := s.written ++ [s.place i] } := by
  obtain ⟨htaken, hwix, hclaimed⟩ := h.writer i val wix hput
  have hplace : s.place i < s.claimed.length := (List.getElem?_eq_some_iff.1 hclaimed).1
  have hothers : ∀ j val' wix', Function.update s.put i .idle j = .store val' wix' →
      j ≠ i ∧ s.put j = .store val' wix' := by
    intro j val' wix' hj
    by_cases hji : j = i
    · subst hji
      rw [Function.update_self] at hj
      cases hj
    · rw [Function.update_of_ne hji] at hj
      exact ⟨hji, hj⟩
  refine ⟨h.len, h.write, h.read, h.room, h.le, ?_, ?_, ?_, ?_, h.get, h.out, ?_⟩
  · intro j val' wix' hj
    exact h.writer j val' wix' (hothers j val' wix' hj).2
  · intro p hp hnw
    rw [List.mem_append, List.mem_singleton, not_or] at hnw
    obtain ⟨j, val', wix', hj, hjp⟩ := h.unwritten p hp hnw.1
    have hji : j ≠ i := by
      intro he
      rw [he] at hjp
      exact hnw.2 hjp.symm
    refine ⟨j, val', wix', ?_, hjp⟩
    simp only [Function.update_of_ne hji]
    exact hj
  · intro p hp
    have hlt : p < s.claimed.length := by
      rcases List.mem_append.1 hp with hp | hp
      · exact (h.slots p hp).1
      · rw [List.mem_singleton.1 hp]; exact hplace
    refine ⟨hlt, fun hle => ?_⟩
    simp only [hwix]
    by_cases hpi : p = s.place i
    · rw [hpi, Function.update_self, hclaimed]
      rfl
    · -- both places are in the window of one lap that starts at the last one returned
      have hne : p % RINGBUF_LENGTH ≠ s.place i % RINGBUF_LENGTH := by
        intro he
        have hw := h.window
        have hg := h.get.le
        exact hpi (slot_inj s.returned.length hle (by omega) (by omega) (by omega) he)
      rw [Function.update_of_ne hne]
      rw [List.mem_append, List.mem_singleton, or_iff_left hpi] at hp
      exact (h.slots p hp).2 hle
  · intro p hp
    exact List.mem_append_left _ (h.consumed p hp)
  · refine h.calls_update ?_ fun _ _ => ⟨rfl, rfl⟩
    rw [h.calls i, hput]
    rfl

/-- **Taking a place** whose slot no producer is about to write. -/
theorem take_ok (h : RingOK s) (hget : s.get = .swap s.ring.readidx)
    (hfilled : ∀ i val, s.put i ≠ .store val s.ring.readidx) :
    RingOK { s with
      ring := { s.ring with readidx := (s.ring.readidx + 1) % RINGBUF_LENGTH }
      get := .read s.ring.readidx
      taken := s.taken + 1 } := by
  obtain ⟨hret, hlt, -⟩ : s.taken = s.returned.length ∧ s.taken < s.claimed.length ∧ _ := by
    have hg := h.get
    rw [hget] at hg
    exact hg
  -- a producer that has won the place about to be taken would be about to write this slot
  have hwriter : ∀ i val wix, s.put i = .store val wix → s.place i ≠ s.taken := by
    intro i val wix hi he
    obtain ⟨-, hwix, -⟩ := h.writer i val wix hi
    rw [he, ← h.read] at hwix
    rw [hwix] at hi
    exact hfilled i val hi
  refine ⟨h.len, h.write, ?_, ?_, hlt, ?_, h.unwritten, h.slots, ?_, ?_, h.out, h.calls⟩
  · show (s.ring.readidx + 1) % RINGBUF_LENGTH = (s.taken + 1) % RINGBUF_LENGTH
    rw [h.read, Nat.mod_add_mod]
  · have := h.room
    show s.claimed.length < s.taken + 1 + RINGBUF_LENGTH
    omega
  · intro i val wix hi
    obtain ⟨h1, h2, h3⟩ := h.writer i val wix hi
    exact ⟨lt_of_le_of_ne h1 (hwriter i val wix hi).symm, h2, h3⟩
  · intro p hp
    rcases Nat.lt_succ_iff_lt_or_eq.1 hp with hp | hp
    · exact h.consumed p hp
    · -- the place just taken: if it were not written, a producer would be at its slot
      by_contra hnw
      rw [hp] at hnw
      obtain ⟨i, val, wix, hi, hplace⟩ := h.unwritten s.taken hlt hnw
      exact hwriter i val wix hi hplace
  · refine ⟨?_, ?_⟩
    · show s.taken + 1 = s.returned.length + 1
      rw [hret]
    · show s.ring.readidx = s.returned.length % RINGBUF_LENGTH
      rw [h.read, hret]

/-- The slot that the consumer is about to read holds the element of the place it took. -/
theorem reading_eq (h : RingOK s) {rix : ℕ} (hget : s.get = .read rix) :
    s.taken = s.returned.length + 1 ∧ rix < RINGBUF_LENGTH ∧
      s.returned ++ [s.ring.buffer rix] <+: s.claimed.map fun e => some e.2 := by
  obtain ⟨htaken, hrix⟩ : s.taken = s.returned.length + 1 ∧ rix = s.returned.length % RINGBUF_LENGTH := by
    have hg := h.get
    rw [hget] at hg
    exact hg
  have hlt : s.returned.length < s.claimed.length := by
    have := h.le
    omega
  have hslot := (h.slots _ (h.consumed s.returned.length (by omega))).2 le_rfl
  rw [List.getElem?_eq_getElem hlt] at hslot
  refine ⟨htaken, by rw [hrix]; exact Nat.mod_lt _ RINGBUF_LENGTH_pos, ?_⟩
  rw [hrix, hslot, List.prefix_iff_eq_take, List.length_append, List.length_singleton, List.take_add_one,
    ← List.prefix_iff_eq_take.1 h.out, List.getElem?_map, List.getElem?_eq_getElem hlt]
  rfl

/-- **Reading a slot** returns the element of the place taken. -/
theorem read_ok (h : RingOK s) {rix : ℕ} (hget : s.get = .read rix) :
    RingOK { s with
      get := .done (s.ring.buffer rix)
      returned := s.returned ++ [s.ring.buffer rix] } := by
  obtain ⟨htaken, -, hout⟩ := h.reading_eq hget
  have hlen : (s.returned ++ [s.ring.buffer rix]).length = s.returned.length + 1 := by simp
  refine ⟨h.len, h.write, h.read, h.room, h.le, h.writer, h.unwritten, ?_, h.consumed, ?_, hout, h.calls⟩
  · intro p hp
    obtain ⟨hlt, hslot⟩ := h.slots p hp
    refine ⟨hlt, fun hle => hslot ?_⟩
    rw [hlen] at hle
    omega
  · rw [hlen]
    exact htaken

/-- The consumer's call moves on without touching the ring. -/
theorem get_ok (h : RingOK s) {g : Get T} (hg : g.OK s.returned.length s.taken s.claimed.length) :
    RingOK { s with get := g } :=
  ⟨h.len, h.write, h.read, h.room, h.le, h.writer, h.unwritten, h.slots, h.consumed, hg, h.out, h.calls⟩

/-- **An allowed step keeps the invariant.** -/
theorem step (h : RingOK s) {o : RingOp ι T} (ho : s.Allowed o) (he : s.step o = .ok s') : RingOK s' := by
  cases o with
  | put i val =>
    cases hput : s.put i with
    | idle =>
      simp only [RingSys.step, hput, Except.ok.injEq] at he
      subst he
      refine h.quiet_ok (by rw [hput]; exact fun _ => id) (fun _ => id) ?_
      refine h.calls_update ?_ ?_
      · rw [RingSys.elementsOf_concat_self, h.calls i, hput]
        simp [Put.pending]
      · exact fun j hji => ⟨RingSys.elementsOf_concat_of_ne (Ne.symm hji) _ _, rfl⟩
    | loadRead _ | loadWrite _ _ | swap _ _ | store _ _ =>
      simp only [RingSys.step, hput, Except.ok.injEq] at he
      rw [← he]
      exact h
  | producer i =>
    obtain ⟨pc, hq, hq', hpend, rfl⟩ | ⟨val, hput, rfl⟩ | ⟨val, wix, hput, rfl⟩ := RingSys.producer_cases he
    · refine h.quiet_ok hq hq' (h.calls_update ?_ fun _ _ => ⟨rfl, rfl⟩)
      rw [hpend]
      exact h.calls i
    · have hmay : s.MayClaim (s.put i) := ho
      rw [hput] at hmay
      exact h.claim_ok hput (hmay rfl)
    · exact h.write_ok hput
  | get =>
    cases hget : s.get with
    | done result =>
      simp only [RingSys.step, hget, Except.ok.injEq] at he
      rw [← he]
      refine h.get_ok ?_
      have hg := h.get
      rw [hget] at hg
      exact hg
    | loadWrite | loadRead _ | swap _ | read _ =>
      simp only [RingSys.step, hget, Except.ok.injEq] at he
      rw [← he]
      exact h
  | consumer =>
    have hg := h.get
    obtain ⟨g, rfl, hcase⟩ | ⟨hget, rfl⟩ | ⟨rix, hget, rfl⟩ := RingSys.consumer_cases he
    · refine h.get_ok ?_
      obtain rfl | ⟨hget, rfl⟩ | ⟨hget, rfl⟩ | ⟨wix, hget, hne, rfl⟩ | ⟨rix, hget, -, rfl⟩ := hcase
      · exact hg
      · rw [hget] at hg
        exact ⟨hg, s.claimed.length, h.le, le_rfl, h.write⟩
      · rw [hget] at hg
        exact hg.1
      · -- the write index it has loaded is not behind what is claimed by now
        rw [hget] at hg
        obtain ⟨hret, w, h1, h2, hwix⟩ := hg
        refine ⟨hret, ?_, h.read⟩
        have hw : w ≠ s.taken := by
          intro hw
          rw [hw, ← h.read] at hwix
          exact hne hwix.symm
        omega
      · rw [hget] at hg
        exact hg.1
    · refine h.take_ok hget ?_
      have hmay : s.MayTake s.get := ho
      rw [hget] at hmay
      intro i val hi
      have hfree := hmay rfl i
      rw [hi] at hfree
      exact hfree rfl
    · exact h.read_ok hget

theorem putStep_total (h : RingOK s) (i : ι) : ∃ r, s.ring.putStep (s.put i) = .ok r := by
  cases hput : s.put i with
  | idle => exact ⟨_, rfl⟩
  | loadRead val => exact ⟨_, rfl⟩
  | loadWrite val rix => exact ⟨_, rfl⟩
  | swap val wix =>
    by_cases hwon : s.ring.writeidx = wix
    · exact ⟨_, if_pos hwon⟩
    · exact ⟨_, if_neg hwon⟩
  | store val wix =>
    obtain ⟨-, hwix, -⟩ := h.writer i val wix hput
    exact ⟨_, if_pos (by rw [h.len, hwix]; exact Nat.mod_lt _ RINGBUF_LENGTH_pos)⟩

theorem getStep_total (h : RingOK s) : ∃ r, s.ring.getStep s.get = .ok r := by
  cases hget : s.get with
  | loadWrite => exact ⟨_, rfl⟩
  | loadRead wix => exact ⟨_, rfl⟩
  | swap rix =>
    by_cases hwon : s.ring.readidx = rix
    · exact ⟨_, if_pos hwon⟩
    · exact ⟨_, if_neg hwon⟩
  | read rix =>
    obtain ⟨-, hrix, -⟩ := h.reading_eq hget
    exact ⟨_, if_pos (by rw [h.len]; exact hrix)⟩
  | done result => exact ⟨_, rfl⟩

/-- **No step panics**: the slots that calls are about to use are in the buffer. -/
theorem step_total (h : RingOK s) (o : RingOp ι T) : ∃ s', s.step o = .ok s' := by
  cases o with
  | put i val => cases hput : s.put i <;> exact ⟨_, by simp only [RingSys.step, hput]; rfl⟩
  | get => cases hget : s.get <;> exact ⟨_, by simp only [RingSys.step, hget]; rfl⟩
  | producer i =>
    obtain ⟨r, hr⟩ := h.putStep_total i
    exact ⟨_, by simp only [RingSys.step, hr]; rfl⟩
  | consumer =>
    obtain ⟨r, hr⟩ := h.getStep_total
    exact ⟨_, by simp only [RingSys.step, hr]; rfl⟩

/-- In an empty ring every place claimed has been taken. -/
theorem empty (h : RingOK s) (hidx : s.ring.readidx = s.ring.writeidx) : s.taken = s.claimed.length := by
  rw [h.read, h.write] at hidx
  have hroom := h.room
  have hpos := RINGBUF_LENGTH_pos
  exact slot_inj s.taken le_rfl (by omega) h.le hroom hidx

/-- In an empty ring everything claimed has been returned, or is about to be. -/
theorem drained (h : RingOK s) (hidx : s.ring.readidx = s.ring.writeidx) :
    s.returned ++ s.reading = s.claimed.map fun e => some e.2 := by
  have htaken := h.empty hidx
  rcases h.get.pending with ⟨hret, hget⟩ | ⟨rix, hget, hret, -⟩
  · have hnil : s.reading = [] := by
      unfold RingSys.reading
      split
      · rename_i rix hrix
        exact absurd hrix (hget rix)
      · rfl
    rw [hnil, List.append_nil]
    exact h.out.eq_of_length (by rw [List.length_map]; omega)
  · have hone : s.reading = [s.ring.buffer rix] := by
      unfold RingSys.reading
      rw [hget]
    rw [hone]
    refine (h.reading_eq hget).2.2.eq_of_length ?_
    rw [List.length_append, List.length_singleton, List.length_map]
    omega

end RingOK

namespace RingSys

variable {ι T : Type*} [DecidableEq ι]

/-- Lists of calls in which every producer made the same calls in the same order. -/
theorem perm_of_elementsOf {a b : List (ι × T)} (h : ∀ i, elementsOf i a = elementsOf i b) : a.Perm b := by
  classical
  have hcount : ∀ (i : ι) (v : T) (l : List (ι × T)), l.count (i, v) = (elementsOf i l).count v := by
    intro i v l
    induction l with
    | nil => rfl
    | cons c cs ih =>
      obtain ⟨j, w⟩ := c
      rw [← List.singleton_append, List.count_append, elementsOf_append, List.count_append, ih]
      by_cases hj : j = i
      · subst hj
        rw [elementsOf_self]
        by_cases hw : w = v
        · simp [hw]
        · simp [hw]
      · rw [elementsOf_of_ne hj]
        simp [hj]
  rw [List.perm_iff_count]
  rintro ⟨i, v⟩
  rw [hcount, hcount, h i]

/-- What a ring buffer between producers and a consumer is for:
* no get has taken a place whose slot is not written;
* the `i`-th get that took a place returned the element of place `i`;
* so no element was returned by two gets;
* when all calls of `put` have ended and the ring is empty, the elements put are those
  returned, each by one get (the last of them may be about to return it). -/
structure ExactlyOnce (s : RingSys ι T) : Prop where
  written : ∀ p, p < s.taken → p ∈ s.written
  order : s.returned <+: s.claimed.map fun e => some e.2
  once : (s.claimed.map Prod.snd).Nodup → s.returned.Nodup
  all : (∀ i, s.put i = .idle) → s.ring.readidx = s.ring.writeidx →
    (s.returned ++ s.reading).Perm (s.started.map fun e => some e.2)

/-- **Every element is returned exactly once.** For any number of producers and one
consumer, in every state of every run in which no get takes a place whose slot a
producer is about to write, and no put wins a place in a ring that has become full. No
step of such a run panics. -/
theorem ring_exactly_once {s : RingSys ι T} (h : Reach RingSys.step Allowed .init s) :
    s.ExactlyOnce ∧ ∀ o, ∃ s', s.step o = .ok s' := by
  have hok : RingOK s := h.inv .init fun _ _ _ hs ho he => hs.step ho he
  refine ⟨⟨hok.consumed, hok.out, ?_, ?_⟩, hok.step_total⟩
  · intro hnd
    have hsome : (s.claimed.map fun e => some e.2).Nodup := by
      have := hnd.map (Option.some_injective T)
      rwa [List.map_map] at this
    exact hsome.sublist hok.out.sublist
  · intro hidle hidx
    rw [hok.drained hidx]
    refine (perm_of_elementsOf fun i => ?_).symm.map _
    have hcalls := hok.calls i
    rw [hidle i] at hcalls
    simpa [Put.pending] using hcalls

/-- Two producers, whose steps take turns, and then two gets. -/
def turns : List (RingOp Bool ℕ) :=
  [.put true 7, .put false 8, .producer true, .producer false, .producer true, .producer false,
    .producer true, .producer false, .producer false, .producer false, .producer false, .producer true,
    .producer false, .get, .consumer, .consumer, .consumer, .consumer, .get, .consumer, .consumer,
    .consumer, .consumer]

theorem ring_exactly_once_turns : ∃ s : RingSys Bool ℕ, Reach RingSys.step Allowed .init s ∧
    s.returned = [some 7, some 8] ∧ s.ExactlyOnce := by
  have hrun : (runIf RingSys.step Allowed (.init : RingSys Bool ℕ) turns).map (·.returned) =
      some [some 7, some 8] := by decide +kernel
  obtain ⟨s, hs, hret⟩ := Option.map_eq_some_iff.1 hrun
  have hreach := Reach.of_runIf turns hs
  exact ⟨s, hreach, hret, (ring_exactly_once hreach).1⟩

/-- The consumer overtakes a producer that has won its place and not written its slot. -/
theorem overtaken : ¬ ∀ s : RingSys Unit ℕ, Reach RingSys.step (fun _ _ => True) .init s → s.ExactlyOnce := by
  intro hall
  have hrun : (runIf RingSys.step (fun _ _ => True) (.init : RingSys Unit ℕ)
      [.put () 7, .producer (), .producer (), .producer (), .get, .consumer, .consumer, .consumer]).map
      (fun s => (s.taken, s.written)) = some (1, []) := by decide +kernel
  obtain ⟨s, hs, hobs⟩ := Option.map_eq_some_iff.1 hrun
  obtain ⟨htaken, hwritten⟩ := Prod.mk.inj hobs
  have hmem := (hall s (Reach.of_runIf _ hs)).written 0 (by omega)
  rw [hwritten] at hmem
  cases hmem

end RingSys

end Urchin
