import Mathlib

/-!
# Searching a text

`find pat s` is the offset of the first occurrence of `pat` in `s`.

* `find_eq_some_iff`, `find_eq_none_iff`: what it finds.
* `find_token`: a text that starts with a token, which has no occurrence, and a delimiter.
* `find_head`: the first occurrence is where the first element of `pat` occurs first.
* `count_find`: occurrences do not overlap if no proper suffix of `pat` starts it, so
  each search passes exactly one.
-/

namespace Urchin.Text

variable {α : Type*} [DecidableEq α] {pat s t a b r : List α} {c : α} {i : ℕ}

def find (pat : List α) : List α → Option ℕ
  | [] => if pat.isPrefixOf [] then some 0 else none
  | c :: s => if pat.isPrefixOf (c :: s) then some 0 else (find pat s).map (· + 1)

theorem find_at_start (h : pat <+: s) : find pat s = some 0 := by
  cases s with
  | nil => exact if_pos (List.isPrefixOf_iff_prefix.2 h)
  | cons c s => exact if_pos (List.isPrefixOf_iff_prefix.2 h)

theorem find_cons (h : ¬ pat <+: c :: s) : find pat (c :: s) = (find pat s).map (· + 1) :=
  if_neg fun hp => h (List.isPrefixOf_iff_prefix.1 hp)

theorem find_nil (h : ¬ pat <+: []) : find pat [] = none :=
  if_neg fun hp => h (List.isPrefixOf_iff_prefix.1 hp)

theorem find_eq_zero_iff : find pat s = some 0 ↔ pat <+: s := by
  refine ⟨fun h => ?_, find_at_start⟩
  by_contra hp
  cases s with
  | nil =>
    rw [find_nil hp] at h
    cases h
  | cons c s =>
    rw [find_cons hp] at h
    obtain ⟨j, -, hj⟩ := Option.map_eq_some_iff.1 h
    exact absurd hj (Nat.succ_ne_zero j)

theorem find_cons_succ (h : ¬ pat <+: c :: s) : find pat (c :: s) = some (i + 1) ↔ find pat s = some i := by
  rw [find_cons h, Option.map_eq_some_iff]
  constructor
  · rintro ⟨j, hj, he⟩
    rw [hj, Nat.succ.inj he]
  · exact fun hi => ⟨i, hi, rfl⟩

/-- **The first occurrence.** -/
theorem find_eq_some_iff : find pat s = some i ↔ pat <+: s.drop i ∧ (∀ j < i, ¬ pat <+: s.drop j) ∧ i ≤ s.length := by
  induction i generalizing s with
  | zero =>
    rw [find_eq_zero_iff]
    exact ⟨fun h => ⟨h, fun j hj => absurd hj (Nat.not_lt_zero j), Nat.zero_le _⟩, fun h => h.1⟩
  | succ i ih =>
    by_cases hp : pat <+: s
    · rw [find_at_start hp]
      exact ⟨fun h => absurd (Option.some.inj h) (Nat.zero_ne_add_one i), fun h => absurd hp (h.2.1 0 i.succ_pos)⟩
    · cases s with
      | nil =>
        rw [find_nil hp]
        exact ⟨fun h => (nomatch h), fun h => absurd h.2.2 (Nat.not_succ_le_zero i)⟩
      | cons c s =>
        rw [find_cons_succ hp, ih, List.drop_succ_cons, List.length_cons, Nat.succ_le_succ_iff]
        constructor
        · rintro ⟨h1, h2, h3⟩
          refine ⟨h1, fun j hj => ?_, h3⟩
          cases j with
          | zero => exact hp
          | succ j => exact h2 j (Nat.lt_of_succ_lt_succ hj)
        · rintro ⟨h1, h2, h3⟩
          exact ⟨h1, fun j hj => h2 (j + 1) (Nat.succ_lt_succ hj), h3⟩

theorem find_eq_none_iff : find pat s = none ↔ ¬ pat <:+: s := by
  induction s with
  | nil =>
    by_cases hp : pat <+: []
    · rw [find_at_start hp]
      exact ⟨fun h => (nomatch h), fun h => absurd hp.isInfix h⟩
    · rw [find_nil hp, List.infix_nil]
      exact ⟨fun _ he => hp (he ▸ List.nil_prefix), fun _ => rfl⟩
  | cons c s ih =>
    rw [List.infix_cons_iff]
    by_cases hp : pat <+: c :: s
    · rw [find_at_start hp]
      exact ⟨fun h => (nomatch h), fun h => absurd (.inl hp) h⟩
    · rw [find_cons hp, Option.map_eq_none_iff, ih, not_or]
      exact ⟨fun h => ⟨hp, h⟩, fun h => h.2⟩

/-- The text is cut at the occurrence. -/
theorem find_split (h : find pat s = some i) : s = s.take i ++ (pat ++ s.drop (i + pat.length)) := by
  obtain ⟨⟨r, hr⟩, -, -⟩ := find_eq_some_iff.1 h
  have hdrop : s.drop (i + pat.length) = r := by
    rw [← List.drop_drop, ← hr, List.drop_left]
  rw [hdrop, hr, List.take_append_drop]

omit [DecidableEq α] in
/-- A pattern does not reach over an element it does not have. -/
theorem prefix_of_append_cons (hc : c ∉ pat) (h : pat <+: a ++ c :: r) : pat <+: a := by
  induction a generalizing pat with
  | nil =>
    cases pat with
    | nil => exact List.nil_prefix
    | cons d pat =>
      rw [List.nil_append, List.cons_prefix_cons] at h
      exact absurd (h.1 ▸ List.mem_cons_self) hc
  | cons d a ih =>
    cases pat with
    | nil => exact List.nil_prefix
    | cons e pat =>
      rw [List.cons_append, List.cons_prefix_cons] at h
      rw [List.cons_prefix_cons]
      exact ⟨h.1, ih (fun hin => hc (List.mem_cons_of_mem e hin)) h.2⟩

/-- **A token without an occurrence is passed over**, with the delimiter after it. -/
theorem find_token (ht : ¬ pat <:+: t) (hc : c ∉ pat) :
    find pat (t ++ c :: r) = (find pat r).map (· + (t.length + 1)) := by
  induction t with
  | nil =>
    refine find_cons fun h => ht ?_
    exact (prefix_of_append_cons hc (a := []) h).isInfix
  | cons d t ih =>
    rw [List.infix_cons_iff, not_or] at ht
    have hp : ¬ pat <+: d :: (t ++ c :: r) := fun h => ht.1 (prefix_of_append_cons hc (a := d :: t) h)
    rw [List.cons_append, find_cons hp, ih ht.2, Option.map_map, List.length_cons]
    rfl

/-- The first occurrence begins with the first `c`. -/
theorem find_head (hc : c ∉ a) : find (c :: pat) (a ++ (c :: pat ++ r)) = some a.length := by
  induction a with
  | nil => exact find_at_start (List.prefix_append _ _)
  | cons d a ih =>
    rw [List.mem_cons, not_or] at hc
    have hp : ¬ c :: pat <+: d :: (a ++ (c :: pat ++ r)) := by
      rw [List.cons_prefix_cons]
      exact fun h => hc.1 h.1
    rw [List.cons_append, find_cons hp, ih hc.2]
    rfl

/-! ## Counting occurrences -/

/-- The occurrences of `pat` that begin before offset `p`. -/
def count (pat s : List α) (p : ℕ) : ℕ := (List.range p).countP fun j => pat.isPrefixOf (s.drop j)

/-- No proper suffix of the pattern starts it. -/
def NoBorder (pat : List α) : Prop := ∀ k < pat.length, 0 < k → ¬ pat.drop k <+: pat

instance (pat : List α) : Decidable (NoBorder pat) := inferInstanceAs (Decidable (∀ k < _, _))

theorem count_add (p n : ℕ) :
    count pat s (p + n) = count pat s p + (List.range n).countP fun j => pat.isPrefixOf (s.drop (p + j)) := by
  rw [count, List.range_add, List.countP_append, List.countP_map]
  rfl

omit [DecidableEq α] in
/-- Two occurrences of a pattern without borders are apart. -/
theorem NoBorder.apart (h : NoBorder pat) (hi : pat <+: s) {k : ℕ} (hk : 0 < k) (hlt : k < pat.length) :
    ¬ pat <+: s.drop k := by
  intro hj
  refine h k hlt hk ?_
  obtain ⟨r, rfl⟩ := hi
  rw [List.drop_append_of_le_length hlt.le] at hj
  exact List.prefix_of_prefix_length_le (List.prefix_append _ r) hj (by rw [List.length_drop]; omega)

/-- **A search from offset `k` passes no occurrence, and the next search starts after exactly
one.** -/
theorem count_find (h : NoBorder pat) (hne : pat ≠ []) {k j : ℕ} (hj : find pat (s.drop k) = some j) :
    count pat s (k + j) = count pat s k ∧ count pat s (k + (j + pat.length)) = count pat s k + 1 := by
  obtain ⟨hat, hbefore, -⟩ := find_eq_some_iff.1 hj
  rw [List.drop_drop] at hat
  have hzero : count pat s (k + j) = count pat s k := by
    rw [count_add, Nat.add_eq_left, List.countP_eq_zero]
    intro m hm hp
    refine hbefore m (List.mem_range.1 hm) ?_
    rw [List.drop_drop]
    exact List.isPrefixOf_iff_prefix.1 hp
  have hpos : 0 < pat.length := List.length_pos_of_ne_nil hne
  refine ⟨hzero, ?_⟩
  rw [← add_assoc, count_add, hzero]
  congr 1
  -- the first of these offsets is the occurrence, the others are inside it
  obtain ⟨n, hn⟩ : ∃ n, pat.length = n + 1 := ⟨pat.length - 1, by omega⟩
  rw [hn, List.range_succ_eq_map, List.countP_cons, List.countP_map]
  have hfirst : pat.isPrefixOf (s.drop (k + j + 0)) = true := List.isPrefixOf_iff_prefix.2 hat
  have hrest : (List.range n).countP ((fun m => pat.isPrefixOf (s.drop (k + j + m))) ∘ Nat.succ) = 0 := by
    rw [List.countP_eq_zero]
    intro m hm hp
    rw [List.mem_range] at hm
    refine h.apart hat (Nat.succ_pos m) (by omega) ?_
    rw [List.drop_drop]
    exact List.isPrefixOf_iff_prefix.1 hp
  rw [hrest, if_pos hfirst]

end Urchin.Text
