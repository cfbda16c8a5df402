import Mathlib

/-!
# Records under a version

A writer shares a record with readers that take no lock. It makes the version odd, writes
the record, and makes the version even again. A reader copies the record, its version first,
and looks at the version once more.

A run is the content of the memory at every moment (`Run`); the versions may wrap, but not
between the moments `start` and `stop`. While the version is even the record is the one of the last
completed update (`Run.in_force`). If a reader finds the same even version after its copy,
nothing was written in between, and the copy is that record (`Run.copy_whole`).
-/

namespace Urchin.Seqlock

variable {ρ β : Type*} (ver : ρ → ℕ) (body : ρ → β)

/-- What can happen to the record from one moment to the next. -/
inductive Step : ρ → ρ → Prop
  | idle (r : ρ) : Step r r
  | begin {r r' : ρ} (he : Even (ver r)) (ho : Odd (ver r')) (hb : body r' = body r) : Step r r'
  | write {r r' : ρ} (ho : Odd (ver r)) (hv : ver r' = ver r) : Step r r'
  | commit {r r' : ρ} (ho : Odd (ver r)) (he : Even (ver r')) (hb : body r' = body r) : Step r r'

/-- An update is completed at moment `t + 1`. -/
def Commits (mem : ℕ → ρ) (t : ℕ) : Prop := Odd (ver (mem t)) ∧ Even (ver (mem (t + 1)))

/-- The record at moment `T` is the initial one, or that of an update completed then. -/
def Published (mem : ℕ → ρ) (T : ℕ) : Prop := T = 0 ∨ ∃ t, T = t + 1 ∧ Commits ver mem t

/-- A run of the writer. From `start` to `stop`, a version that changes grows. -/
structure Run (mem : ℕ → ρ) (start stop : ℕ) : Prop where
  init : ver (mem 0) = 0
  step : ∀ t, Step ver body (mem t) (mem (t + 1))
  increasing : ∀ t, start ≤ t → t < stop → ver (mem (t + 1)) ≠ ver (mem t) →
    ver (mem t) < ver (mem (t + 1))

/-- When a copy of the record reads its fields: the version not after the others. -/
structure Copy (ι : Type*) where
  version : ℕ
  field : ι → ℕ
  first : ∀ i, version ≤ field i

/-- The copies are taken one after the other, from `start` on. -/
structure Ordered {ι : Type*} (start : ℕ) (copies : ℕ → Copy ι) : Prop where
  start : start ≤ (copies 0).version
  version : ∀ k, (copies k).version ≤ (copies (k + 1)).version
  field : ∀ k i, (copies k).field i ≤ (copies (k + 1)).version

variable {ver body} {mem : ℕ → ρ} {start stop : ℕ}

/-- From an even version to an even version, nothing has happened. -/
theorem Step.eq_of_even {r r' : ρ} (h : Step ver body r r') (he : Even (ver r)) (he' : Even (ver r')) : r' = r := by
  cases h with
  | idle => rfl
  | begin _ ho _ => exact absurd he' (Nat.not_even_iff_odd.2 ho)
  | write ho _ => exact absurd he (Nat.not_even_iff_odd.2 ho)
  | commit ho _ _ => exact absurd he (Nat.not_even_iff_odd.2 ho)

theorem Ordered.le {ι : Type*} {copies : ℕ → Copy ι} (h : Ordered start copies) (k : ℕ) :
    start ≤ (copies k).version := by
  induction k with
  | zero => exact h.start
  | succ k ih => exact le_trans ih (h.version k)

namespace Run

/-- **While the version is even, the record is that of the last completed update**, and has
been in force since then. -/
theorem in_force (h : Run ver body mem start stop) {t : ℕ} (he : Even (ver (mem t))) :
    ∃ T ≤ t, Published ver mem T ∧ ∀ u, T ≤ u → u ≤ t → mem u = mem T := by
  induction t with
  | zero => exact ⟨0, le_rfl, .inl rfl, fun u _ hu => by rw [Nat.le_zero.1 hu]⟩
  | succ t ih =>
    by_cases hodd : Odd (ver (mem t))
    · refine ⟨t + 1, le_rfl, .inr ⟨t, rfl, hodd, he⟩, fun u h1 h2 => ?_⟩
      rw [Nat.le_antisymm h2 h1]
    · have heven := Nat.not_odd_iff_even.1 hodd
      have hsame := (h.step t).eq_of_even heven he
      obtain ⟨T, hT, hpub, hstay⟩ := ih heven
      refine ⟨T, by omega, hpub, fun u h1 h2 => ?_⟩
      rcases Nat.eq_or_lt_of_le h2 with rfl | hlt
      · rw [hsame]
        exact hstay t hT le_rfl
      · exact hstay u h1 (by omega)

theorem ver_mono (h : Run ver body mem start stop) {t u : ℕ} (hs : start ≤ t) (htu : t ≤ u) (hu : u ≤ stop) :
    ver (mem t) ≤ ver (mem u) := by
  induction u, htu using Nat.le_induction with
  | base => exact le_rfl
  | succ u htu ih =>
    have hle := ih (by omega)
    by_cases hv : ver (mem (u + 1)) = ver (mem u)
    · rw [hv]
      exact hle
    · exact le_trans hle (h.increasing u (by omega) (by omega) hv).le

/-- **The same even version twice: nothing was written in between.** -/
theorem stable (h : Run ver body mem start stop) {t t' : ℕ} (hs : start ≤ t) (ht' : t' ≤ stop)
    (he : Even (ver (mem t))) (hv : ver (mem t') = ver (mem t)) : ∀ u, t ≤ u → u ≤ t' → mem u = mem t := by
  intro u hu
  induction u, hu using Nat.le_induction with
  | base => exact fun _ => rfl
  | succ u hu ih =>
    intro hle
    have hmem := ih (by omega)
    -- the version of a moment in between is bounded from both sides
    have h1 := h.ver_mono (show start ≤ u by omega) (show u ≤ u + 1 by omega) (le_trans hle ht')
    have h2 := h.ver_mono (show start ≤ u + 1 by omega) hle ht'
    rw [hmem] at h1
    have hver : ver (mem (u + 1)) = ver (mem t) := by omega
    rw [← hmem]
    exact (h.step u).eq_of_even (by rwa [hmem]) (by rwa [hver])

/-- **A copy between two reads of the same even version is whole**: all of it is the record
that was in force when the version was read. -/
theorem copy_whole {ι : Type*} {copies : ℕ → Copy ι} (h : Run ver body mem start stop) (ho : Ordered start copies)
    {k : ℕ} (hk : (copies (k + 1)).version ≤ stop) (heven : Even (ver (mem (copies (k + 1)).version)))
    (hv : ver (mem (copies (k + 1)).version) = ver (mem (copies k).version)) :
    ∃ T ≤ (copies k).version, Published ver mem T ∧ (∀ u, T ≤ u → u ≤ (copies k).version → mem u = mem T) ∧
      ∀ i, mem ((copies k).field i) = mem T := by
  have he : Even (ver (mem (copies k).version)) := by rwa [← hv]
  obtain ⟨T, hT, hpub, hstay⟩ := h.in_force he
  refine ⟨T, hT, hpub, hstay, fun i => ?_⟩
  calc mem ((copies k).field i)
      = mem (copies k).version := h.stable (ho.le k) hk he hv _ ((copies k).first i) (ho.field k i)
    _ = mem T := hstay _ hT le_rfl

end Run

end Urchin.Seqlock
