import Urchin.Spec.Spinlock

/-!
# Sections of a spinlock do not overlap

`SpinOK`: the lock is taken exactly while a contender has a guard, which is one at most,
and the data is what the sections that are over have made of it, and the accesses of that
guard. `SpinSys.sections_serial` states it for every run, with what an attempt comes to.
-/

namespace Urchin

open Exec

variable {ι α : Type*} [DecidableEq ι]

/-- The invariant; `holder` is the contender with the guard. -/
structure SpinOK (data : α) (s : SpinSys ι α) (holder : Option ι) : Prop where
  guard : ∀ i, s.pc i = .guard ↔ holder = some i
  locked : s.raw.locked = holder.isSome
  value : s.data = (holder.elim [] s.accesses).foldl (fun d f => f d) (SpinSys.replay data s.sections)

namespace SpinOK

variable {data : α} {s s' : SpinSys ι α} {holder : Option ι}

omit [DecidableEq ι] in
theorem init (data : α) : SpinOK data (SpinSys.init data : SpinSys ι α) none :=
  ⟨fun _ => ⟨fun h => (nomatch h), fun h => (nomatch h)⟩, rfl, rfl⟩

/-- **An attempt on a free lock succeeds**, and on a taken one it changes nothing. -/
theorem spin (h : SpinOK data s holder) (i : ι) :
    s.step (.spin i) = .ok (if holder = none then { s with
      raw := ⟨true⟩
      pc := Function.update s.pc i .guard
      accesses := Function.update s.accesses i [] } else s) := by
  unfold SpinSys.step RawSpinlock.tryLock
  cases holder with
  | none =>
    have hfree : s.raw.locked = false := h.locked
    rw [if_pos hfree, if_pos rfl]
  | some j =>
    have htaken : s.raw.locked = true := h.locked
    rw [htaken]
    rfl

/-- A contender without the guard may move on or back. -/
theorem set_pc (h : SpinOK data s holder) {i : ι} {pc : Contender} (hi : s.pc i ≠ .guard) (hpc : pc ≠ .guard) :
    SpinOK data { s with pc := Function.update s.pc i pc } holder := by
  refine ⟨fun j => ?_, h.locked, h.value⟩
  by_cases hj : j = i
  · subst hj
    have hne : ¬ holder = some j := fun he => hi ((h.guard j).2 he)
    simp only [Function.update_self, hpc, hne]
  · simp only [Function.update_of_ne hj]
    exact h.guard j

/-- The lock is free, and an attempt takes it. -/
theorem taken (h : SpinOK data s none) (i : ι) : SpinOK data { s with
    raw := ⟨true⟩
    pc := Function.update s.pc i .guard
    accesses := Function.update s.accesses i [] } (some i) := by
  refine ⟨fun j => ?_, rfl, ?_⟩
  · by_cases hj : j = i
    · subst hj
      simp only [Function.update_self]
    · simp only [Function.update_of_ne hj]
      have hnone : ¬ s.pc j = .guard := fun hg => nomatch (h.guard j).1 hg
      have hne : ¬ some i = some j := fun he => hj (Option.some.inj he).symm
      simp only [hnone, hne]
  · show s.data = List.foldl _ _ (Function.update s.accesses i [] i)
    rw [Function.update_self]
    exact h.value

/-- An access by the contender with the guard. -/
theorem access {i : ι} (h : SpinOK data s (some i)) (f : α → α) : SpinOK data { s with
    data := f s.data
    accesses := Function.update s.accesses i (s.accesses i ++ [f]) } (some i) := by
  refine ⟨h.guard, h.locked, ?_⟩
  have hvalue : s.data = (s.accesses i).foldl (fun d f => f d) (SpinSys.replay data s.sections) := h.value
  show f s.data = List.foldl _ _ (Function.update s.accesses i (s.accesses i ++ [f]) i)
  rw [Function.update_self, List.foldl_append, List.foldl_cons, List.foldl_nil, ← hvalue]

/-- The guard is dropped: its accesses are a section. -/
theorem drop {i : ι} (h : SpinOK data s (some i)) : SpinOK data { s with
    raw := s.raw.unlock
    pc := Function.update s.pc i .out
    sections := s.sections ++ [(i, s.accesses i)] } none := by
  refine ⟨fun j => ?_, rfl, ?_⟩
  · by_cases hj : j = i
    · subst hj
      simp only [Function.update_self]
      exact ⟨fun he => (nomatch he), fun he => (nomatch he)⟩
    · simp only [Function.update_of_ne hj]
      have hne : ¬ s.pc j = .guard := fun hg => hj (Option.some.inj ((h.guard j).1 hg)).symm
      exact ⟨fun he => absurd he hne, fun he => (nomatch he)⟩
  · show s.data = SpinSys.replay data (s.sections ++ [(i, s.accesses i)])
    unfold SpinSys.replay
    rw [List.foldl_append]
    exact h.value

/-- **Every step keeps the invariant.** -/
theorem step (h : SpinOK data s holder) {o : SpinOp ι α} (ha : s.Allowed o) (he : s.step o = .ok s') :
    ∃ holder', SpinOK data s' holder' := by
  cases o with
  | lock i =>
    have hout : s.pc i = .out := ha
    obtain rfl := Except.ok.inj he
    refine ⟨holder, h.set_pc ?_ (by decide)⟩
    rw [hout]
    decide
  | spin i =>
    rw [h.spin i] at he
    obtain rfl := Except.ok.inj he
    cases holder with
    | none => exact ⟨some i, h.taken i⟩
    | some j => exact ⟨some j, h⟩
  | access i f =>
    obtain rfl : holder = some i := (h.guard i).1 ha
    obtain rfl := Except.ok.inj he
    exact ⟨some i, h.access f⟩
  | drop i =>
    obtain rfl : holder = some i := (h.guard i).1 ha
    obtain rfl := Except.ok.inj he
    exact ⟨none, h.drop⟩

theorem reach (h : Reach SpinSys.step SpinSys.Allowed (SpinSys.init data) s) : ∃ holder, SpinOK data s holder := by
  refine h.inv (P := fun s => ∃ holder, SpinOK data s holder) ⟨none, .init data⟩ ?_
  rintro s o s' ⟨holder, hs⟩ ha he
  exact hs.step ha he

end SpinOK

/-- **The sections of a spinlock are serial.** For any number of contenders and every
interleaving of their attempts, accesses and drops:
* two contenders never have a guard at the same time, and the lock is taken exactly while
  one has;
* the data is what the sections make of it one after the other, in the order of their
  ends, followed by the accesses of the guard there is: no access is lost or comes between
  those of another section;
* an attempt gets the guard exactly if nobody has one, so that after a drop whoever comes
  next gets it. -/
theorem SpinSys.sections_serial {ι α : Type*} [DecidableEq ι] {data : α} {s : SpinSys ι α}
    (h : Reach step Allowed (init data) s) :
    (∀ i j, s.pc i = .guard → s.pc j = .guard → i = j) ∧
    (s.raw.locked = true ↔ ∃ i, s.pc i = .guard) ∧
    (∀ i, s.pc i = .guard → s.data = (s.accesses i).foldl (fun d f => f d) (replay data s.sections)) ∧
    ((∀ i, s.pc i ≠ .guard) → s.data = replay data s.sections) ∧
    ∀ i, s.pc i = .locking → ∃ s', s.step (.spin i) = .ok s' ∧
      (s'.pc i = .guard ↔ ∀ j, s.pc j ≠ .guard) ∧
      ∀ j, s.pc j = .guard → ∃ s₁ s₂, s.step (.drop j) = .ok s₁ ∧ s₁.step (.spin i) = .ok s₂ ∧ s₂.pc i = .guard := by
  obtain ⟨holder, hok⟩ := SpinOK.reach h
  refine ⟨fun i j hi hj => ?_, ?_, fun i hi => ?_, fun hnone => ?_, fun i hi => ⟨_, hok.spin i, ?_, fun j hj => ?_⟩⟩
  · exact Option.some.inj (((hok.guard i).1 hi).symm.trans ((hok.guard j).1 hj))
  · rw [hok.locked, Option.isSome_iff_exists]
    exact exists_congr fun i => (hok.guard i).symm
  · have hvalue := hok.value
    rw [(hok.guard i).1 hi] at hvalue
    exact hvalue
  · cases holder with
    | none => exact hok.value
    | some i => exact absurd ((hok.guard i).2 rfl) (hnone i)
  · cases holder with
    | none =>
      have hfree : ∀ j, s.pc j ≠ .guard := fun j hj => nomatch (hok.guard j).1 hj
      rw [if_pos rfl]
      simp only [Function.update_self, true_iff]
      exact hfree
    | some j =>
      rw [if_neg (Option.some_ne_none j), hi]
      exact ⟨fun he => (nomatch he), fun hall => absurd ((hok.guard j).2 rfl) (hall j)⟩
  · obtain rfl : holder = some j := (hok.guard j).1 hj
    have hdrop := hok.drop
    refine ⟨_, _, rfl, hdrop.spin i, ?_⟩
    rw [if_pos rfl]
    exact Function.update_self ..

/-- Two contenders add to a counter; the second waits. -/
theorem SpinSys.sections_serial_two : ∃ s : SpinSys (Fin 2) ℕ, s.sections.length = 1 ∧ s.pc 1 = .guard ∧
    s.data = (s.accesses 1).foldl (fun d f => f d) (replay 0 s.sections) := by
  have hrun : (runIf step Allowed (init 0 : SpinSys (Fin 2) ℕ) [.lock 0, .lock 1, .spin 0, .spin 1,
      .access 0 (· + 1), .access 0 (· * 10), .drop 0, .spin 1, .access 1 (· + 1)]).map
      (fun s => (s.sections.length, s.pc 1, s.data)) = some (1, .guard, 11) := by decide
  obtain ⟨s, hs, hobs⟩ := Option.map_eq_some_iff.1 hrun
  obtain ⟨hsections, hobs⟩ := Prod.mk.inj hobs
  obtain ⟨hpc, -⟩ := Prod.mk.inj hobs
  exact ⟨s, hsections, hpc, (sections_serial (.of_runIf _ hs)).2.2.1 1 hpc⟩

end Urchin
