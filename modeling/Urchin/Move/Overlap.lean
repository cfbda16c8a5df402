import Mathlib.Logic.Function.Basic
import Mathlib.Order.Basic
import Mathlib.Tactic.Common

/-!
# Copying cell by cell where source and target overlap

Memory is a function from addresses to values. Round `i` of a copy stores the value at
`src i` at `dst i`; `copyUp` makes the rounds `0, 1, …` and `copyDown` the same rounds
from the last one. `Moved` is what a copy is for, in whichever order it is made.

* `copyUp_moved`, `copyDown_moved`: an order is right if no round reads what an earlier
  one has stored.
* `Moved.unique`: so orders that are right leave the same memory.
-/

namespace Urchin.Move

variable {α β : Type*} [DecidableEq α] {dst src : ℕ → α} {n : ℕ} {m m' m'' : α → β}

/-- One round. -/
def copyOne (d s : α) (m : α → β) : α → β := Function.update m d (m s)

/-- The first `n` rounds, upwards. -/
def copyUp (dst src : ℕ → α) : ℕ → (α → β) → α → β
  | 0, m => m
  | n + 1, m => copyOne (dst n) (src n) (copyUp dst src n m)

/-- The first `n` rounds, downwards. -/
def copyDown (dst src : ℕ → α) : ℕ → (α → β) → α → β
  | 0, m => m
  | n + 1, m => copyDown dst src n (copyOne (dst n) (src n) m)

@[simp] theorem copyOne_same (d s : α) (m : α → β) : copyOne d s m d = m s := Function.update_self ..

theorem copyOne_of_ne {a d : α} (h : a ≠ d) (s : α) (m : α → β) : copyOne d s m a = m a :=
  Function.update_of_ne h ..

/-- The targets of the first `n` rounds hold what their sources held before, and the
other addresses are as they were. -/
structure Moved (dst src : ℕ → α) (n : ℕ) (m m' : α → β) : Prop where
  inside : ∀ i < n, m' (dst i) = m (src i)
  outside : ∀ a, (∀ i < n, a ≠ dst i) → m' a = m a

/-- A move determines the memory it leaves. -/
theorem Moved.unique (h : Moved dst src n m m') (h' : Moved dst src n m m'') : m' = m'' := by
  funext a
  by_cases ha : ∀ i < n, a ≠ dst i
  · rw [h.outside a ha, h'.outside a ha]
  · push Not at ha
    obtain ⟨i, hi, rfl⟩ := ha
    rw [h.inside i hi, h'.inside i hi]

/-- **Upwards**, no source may be the target of an earlier round. -/
theorem copyUp_moved (hdst : ∀ i j, i < j → j < n → dst i ≠ dst j) (hsrc : ∀ i j, i < j → j < n → dst i ≠ src j)
    (m : α → β) : Moved dst src n m (copyUp dst src n m) := by
  induction n with
  | zero => exact ⟨fun i hi => absurd hi (Nat.not_lt_zero i), fun _ _ => rfl⟩
  | succ n ih =>
    have hmoved := ih (fun i j hij hj => hdst i j hij (by omega)) fun i j hij hj => hsrc i j hij (by omega)
    unfold copyUp
    constructor
    · intro i hi
      rcases Nat.eq_or_lt_of_le (Nat.le_of_lt_succ hi) with rfl | hlt
      · -- the last round reads what no round before it has stored
        rw [copyOne_same]
        exact hmoved.outside _ fun j hj => (hsrc j i hj hi).symm
      · rw [copyOne_of_ne (hdst i n hlt (Nat.lt_succ_self n))]
        exact hmoved.inside i hlt
    · intro a ha
      rw [copyOne_of_ne (ha n (Nat.lt_succ_self n))]
      exact hmoved.outside a fun i hi => ha i (Nat.lt_succ_of_lt hi)

/-- **Downwards**, no source may be the target of a later one. -/
theorem copyDown_moved (hdst : ∀ i j, i < j → j < n → dst i ≠ dst j) (hsrc : ∀ i j, i < j → j < n → dst j ≠ src i)
    (m : α → β) : Moved dst src n m (copyDown dst src n m) := by
  induction n generalizing m with
  | zero => exact ⟨fun i hi => absurd hi (Nat.not_lt_zero i), fun _ _ => rfl⟩
  | succ n ih =>
    have hmoved := ih (fun i j hij hj => hdst i j hij (by omega)) (fun i j hij hj => hsrc i j hij (by omega))
      (copyOne (dst n) (src n) m)
    unfold copyDown
    constructor
    · intro i hi
      rcases Nat.eq_or_lt_of_le (Nat.le_of_lt_succ hi) with rfl | hlt
      · -- the rounds below do not store there again
        rw [hmoved.outside _ fun j hj => (hdst j i hj hi).symm, copyOne_same]
      · rw [hmoved.inside i hlt]
        exact copyOne_of_ne (hsrc i n hlt (Nat.lt_succ_self n)).symm _ _
    · intro a ha
      rw [hmoved.outside a fun i hi => ha i (Nat.lt_succ_of_lt hi)]
      exact copyOne_of_ne (ha n (Nat.lt_succ_self n)) _ _

end Urchin.Move
