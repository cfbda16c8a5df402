import Mathlib

/-!
# A ring that holds a window of a sequence

A ring of `N` slots stores entry `j` of an unbounded sequence in slot `j % N`.
At any moment only a window `lo ≤ j < hi` of the sequence is live, and as long as
the window is no longer than `N` its entries sit in different slots.

* `Holds`: the ring `f` stores the window of the sequence `s`.
* `Holds.push`: writing the next entry.
* `word_*`: free-running 16-bit counters that count the sequence modulo `2 ^ 16`,
  and their masked slot numbers when `N` is a power of two.
-/

namespace Urchin.Circ

variable {α β : Type*} {N : ℕ}

/-- Entries less than a lap apart have different slots. -/
theorem slot_inj (lo : ℕ) {i j : ℕ} (hi : lo ≤ i) (hiN : i < lo + N) (hj : lo ≤ j) (hjN : j < lo + N)
    (h : i % N = j % N) : i = j := by
  have h' : (i : ℤ) ≡ j [ZMOD N] := by exact_mod_cast (Nat.ModEq.eq_1 N i j ▸ h)
  have hd := h'.dvd
  by_contra hne
  have hle := Int.le_of_dvd (a := (N : ℤ)) (b := |(j : ℤ) - i|) (abs_pos.2 (by omega))
    ((dvd_abs _ _).2 hd)
  rcases abs_cases ((j : ℤ) - i) with ⟨h1, _⟩ | ⟨h1, _⟩ <;> omega

/-- The entries `lo ≤ j < hi` of `s` are in the slots of `f`. -/
def Holds (N : ℕ) (f : ℕ → α) (s : ℕ → α) (lo hi : ℕ) : Prop :=
  ∀ j, lo ≤ j → j < hi → f (j % N) = s j

variable {f s : ℕ → α} {lo hi : ℕ}

theorem Holds.mono (h : Holds N f s lo hi) {lo' hi' : ℕ} (hl : lo ≤ lo') (hh : hi' ≤ hi) :
    Holds N f s lo' hi' :=
  fun j h1 h2 => h j (le_trans hl h1) (lt_of_lt_of_le h2 hh)

theorem Holds.empty (f s : ℕ → α) (lo : ℕ) : Holds N f s lo lo :=
  fun j h1 h2 => absurd h1 (by omega)

/-- Only the window of the sequence matters. -/
theorem Holds.congr (h : Holds N f s lo hi) {r : ℕ → α} (hs : ∀ j, lo ≤ j → j < hi → s j = r j) :
    Holds N f r lo hi :=
  fun j h1 h2 => (h j h1 h2).trans (hs j h1 h2)

/-- While the window is shorter than a lap, the slot of the next entry is not the
slot of a live one. What the window is about may be a part `π` of what the slots
store. -/
theorem Holds.reserve {π : β → α} {f : ℕ → β} (h : Holds N (fun i => π (f i)) s lo hi)
    (hw : hi < lo + N) (v : β) : Holds N (fun i => π (Function.update f (hi % N) v i)) s lo hi := by
  intro j h1 h2
  have hne : j % N ≠ hi % N := by
    intro he
    exact absurd (slot_inj lo h1 (by omega) (by omega) hw he) (by omega)
  simp only
  rw [Function.update_of_ne hne]; exact h j h1 h2

/-- The window grows by an entry that is already in its slot. -/
theorem Holds.extend (h : Holds N f s lo hi) (hv : f (hi % N) = s hi) : Holds N f s lo (hi + 1) := by
  intro j h1 h2
  rcases Nat.lt_succ_iff_lt_or_eq.1 h2 with hj | hj
  · exact h j h1 hj
  · subst hj; exact hv

/-- **Writing the next entry.** -/
theorem Holds.push {π : β → α} {f : ℕ → β} (h : Holds N (fun i => π (f i)) s lo hi)
    (hw : hi < lo + N) {v : β} (hv : π v = s hi) :
    Holds N (fun i => π (Function.update f (hi % N) v i)) s lo (hi + 1) :=
  (h.reserve hw v).extend (by simp only [Function.update_self]; exact hv)

/-! ## Free-running 16-bit counters -/

theorem word_succ (a : ℕ) : UInt16.ofNat a + 1 = UInt16.ofNat (a + 1) := by
  rw [UInt16.ofNat_add]; rfl

theorem word_toNat (a : ℕ) : (UInt16.ofNat a).toNat = a % 65536 := UInt16.toNat_ofNat'

/-- Counters less than `2 ^ 16` apart are told apart. -/
theorem word_eq_iff {a b : ℕ} (h1 : a ≤ b) (h2 : b < a + 65536) :
    UInt16.ofNat a = UInt16.ofNat b ↔ a = b := by
  constructor
  · intro h
    have := congrArg UInt16.toNat h
    rw [word_toNat, word_toNat] at this
    omega
  · intro h; rw [h]

/-- The difference of two counters is the length of the window between them. -/
theorem word_sub {a b : ℕ} (h1 : a ≤ b) (h2 : b < a + 65536) :
    (UInt16.ofNat b - UInt16.ofNat a).toNat = b - a := by
  rw [UInt16.toNat_sub, word_toNat, word_toNat]
  omega

/-- A power of two that fits 16 bits. -/
theorem word_pow {n : UInt16} {k : ℕ} (hn : n.toNat = 2 ^ k) : k < 16 := by
  have hlt := n.toNat_lt
  rw [hn] at hlt
  exact (Nat.pow_lt_pow_iff_right (by norm_num : 1 < 2)).1 hlt

theorem word_pow_le {n : UInt16} {k : ℕ} (hn : n.toNat = 2 ^ k) : 0 < n.toNat ∧ n.toNat ≤ 32768 := by
  rw [hn]
  refine ⟨by positivity, ?_⟩
  calc 2 ^ k ≤ 2 ^ 15 := Nat.pow_le_pow_right (by norm_num) (by have := word_pow hn; omega)
    _ = 32768 := by norm_num

/-- **The masked counter is the slot number**, for a power-of-two ring. -/
theorem word_slot {n : UInt16} {k : ℕ} (hn : n.toNat = 2 ^ k) (a : ℕ) :
    (UInt16.ofNat a &&& (n - 1)).toNat = a % n.toNat := by
  have hk := word_pow hn
  have hpos : 1 ≤ n := by
    rw [UInt16.le_iff_toNat_le]
    exact (word_pow_le hn).1
  have hsub : (n - 1).toNat = 2 ^ k - 1 := by rw [UInt16.toNat_sub_of_le _ _ hpos, hn]; rfl
  rw [UInt16.toNat_and, hsub, Nat.and_two_pow_sub_one_eq_mod, word_toNat, hn]
  exact Nat.mod_mod_of_dvd a ⟨2 ^ (16 - k), by rw [← pow_add, show k + (16 - k) = 16 by omega]; rfl⟩

end Urchin.Circ
