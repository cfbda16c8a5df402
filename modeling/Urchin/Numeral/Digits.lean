import Mathlib

/-!
# Numbers with a fixed number of digits

`digits b n w` are the `n` lowest digits of `w` in base `b`, the lowest one first.

* `compare_digits`: numbers of `n` digits compare as their digits do lexicographically,
  from the highest one.
* `ofFn_eq_digits`, `ofFn_eq_reverse_digits`: an array of digits, in either order.
-/

namespace Urchin.Numeral

variable {b n w w' : ℕ}

def digits (b n w : ℕ) : List ℕ := List.ofFn fun i : Fin n => w / b ^ (i : ℕ) % b

theorem digits_length (b n w : ℕ) : (digits b n w).length = n := List.length_ofFn

/-- The lowest digit, and the digits of the rest. -/
theorem digits_succ (b n w : ℕ) : digits b (n + 1) w = w % b :: digits b n (w / b) := by
  unfold digits
  rw [List.ofFn_succ]
  congr 1
  · simp
  · congr 1
    funext i
    rw [Fin.val_succ, pow_succ', Nat.div_div_eq_div_mul]

/-! ## Comparing lists -/

section

variable {α β : Type*} [Ord α] [Ord β]

/-- Lists of one length are compared up to their last elements first. -/
theorem compare_concat {l l' : List α} (h : l.length = l'.length) (x y : α) :
    compare (l ++ [x]) (l' ++ [y]) = (compare l l').then (compare x y) := by
  induction l generalizing l' with
  | nil =>
    obtain rfl := List.length_eq_zero_iff.1 h.symm
    simp [List.compare_cons_cons, List.compare_nil_nil]
  | cons c l ih =>
    cases l' with
    | nil => cases h
    | cons c' l' =>
      rw [List.cons_append, List.cons_append, List.compare_cons_cons, List.compare_cons_cons,
        ih (Nat.succ.inj h), Ordering.then_assoc]

/-- A map that keeps comparisons keeps them on lists. -/
theorem compare_map {f : α → β} (hf : ∀ x y, compare (f x) (f y) = compare x y) (l l' : List α) :
    compare (l.map f) (l'.map f) = compare l l' := by
  induction l generalizing l' with
  | nil =>
    cases l' with
    | nil => rfl
    | cons c' l' => rfl
  | cons c l ih =>
    cases l' with
    | nil => rfl
    | cons c' l' => rw [List.map_cons, List.map_cons, List.compare_cons_cons, List.compare_cons_cons, hf, ih]

end

/-! ## Comparing numbers -/

/-- The digits above the lowest decide first. -/
theorem compare_mul_add {d e : ℕ} (hd : d < b) (he : e < b) (v v' : ℕ) :
    compare (b * v + d) (b * v' + e) = (compare v v').then (compare d e) := by
  rcases Nat.lt_trichotomy v v' with h | h | h
  · have hlt : b * v + d < b * v' + e := by nlinarith
    rw [compare_lt_iff_lt.2 hlt, compare_lt_iff_lt.2 h]
    rfl
  · subst h
    rw [compare_eq_iff_eq.2 (rfl : v = v), Nat.compare_eq_ite_lt, Nat.compare_eq_ite_lt]
    simp only [Nat.add_lt_add_iff_left]
    rfl
  · have hlt : b * v' + e < b * v + d := by nlinarith
    rw [compare_gt_iff_gt.2 hlt, compare_gt_iff_gt.2 h]
    rfl

/-- **Numbers compare as their digits**, from the highest one. -/
theorem compare_digits (hb : 0 < b) (hw : w < b ^ n) (hw' : w' < b ^ n) :
    compare w w' = compare (digits b n w).reverse (digits b n w').reverse := by
  induction n generalizing w w' with
  | zero =>
    rw [pow_zero, Nat.lt_one_iff] at hw hw'
    rw [hw, hw']
    rfl
  | succ n ih =>
    have hdiv : ∀ {v}, v < b ^ (n + 1) → v / b < b ^ n := fun hv =>
      Nat.div_lt_of_lt_mul (by rwa [pow_succ'] at hv)
    have hsplit := compare_mul_add (Nat.mod_lt w hb) (Nat.mod_lt w' hb) (w / b) (w' / b)
    rw [Nat.div_add_mod, Nat.div_add_mod] at hsplit
    rw [hsplit, ih (hdiv hw) (hdiv hw'), digits_succ, digits_succ, List.reverse_cons, List.reverse_cons,
      compare_concat (by rw [List.length_reverse, List.length_reverse, digits_length, digits_length])]

/-! ## Arrays of digits -/

theorem ofFn_eq_digits {f : Fin n → ℕ} (h : ∀ i, f i = w / b ^ (i : ℕ) % b) : List.ofFn f = digits b n w := by
  unfold digits
  rw [funext h]

theorem ofFn_eq_reverse_digits {f : Fin n → ℕ} (h : ∀ i : Fin n, f i = w / b ^ (n - 1 - i) % b) :
    List.ofFn f = (digits b n w).reverse := by
  apply List.ext_getElem
  · rw [List.length_ofFn, List.length_reverse, digits_length]
  · intro i h1 h2
    rw [List.getElem_ofFn, h, List.getElem_reverse]
    simp [digits]

end Urchin.Numeral
