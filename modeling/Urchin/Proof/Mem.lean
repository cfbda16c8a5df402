import Urchin.Spec.Mem

/-!
# `memmove` and overlapping ranges

* `offset_ne`: addresses in ranges that end inside the address space are told apart by
  their numbers.
* `memmove_moved`: in both directions, `memmove` moves its range.
* `memmove_correct`: the bytes after it, and that `memcpy` does the same to ranges that
  are apart.
-/

namespace Urchin

open Move Stack

variable {dest src a b : BitVec 64} {n : UInt64} {i j : ℕ}

theorem offset_toNat (h : a.toNat + i < 2 ^ 64) : (offset a i).toNat = a.toNat + i := by
  unfold offset
  rw [BitVec.toNat_add, BitVec.toNat_ofNat, Nat.add_mod_mod, Nat.mod_eq_of_lt h]

theorem offset_ne (ha : a.toNat + i < 2 ^ 64) (hb : b.toNat + j < 2 ^ 64) (h : a.toNat + i ≠ b.toNat + j) :
    offset a i ≠ offset b j := by
  intro he
  apply h
  rw [← offset_toNat ha, ← offset_toNat hb, he]

/-- The rounds of a copy store at different addresses. -/
theorem offset_injective (h : dest.toNat + n.toNat ≤ 2 ^ 64) :
    ∀ i j, i < j → j < n.toNat → offset dest i ≠ offset dest j :=
  fun i j hij hj => offset_ne (by omega) (by omega) (by omega)

/-- **`memmove` moves its range**, whichever way the ranges overlap. -/
theorem memmove_moved (m : Memory) (hdest : dest.toNat + n.toNat ≤ 2 ^ 64) (hsrc : src.toNat + n.toNat ≤ 2 ^ 64) :
    Moved (offset dest) (offset src) n.toNat m (memmove m dest src n).1 := by
  unfold memmove
  by_cases h : src < dest
  · -- a later target is above an earlier source
    rw [if_pos h]
    rw [BitVec.lt_def] at h
    apply copyDown_moved (offset_injective hdest)
    exact fun i j hij hj => offset_ne (by omega) (by omega) (by omega)
  · -- an earlier target is below a later source
    rw [if_neg h]
    rw [BitVec.lt_def] at h
    apply copyUp_moved (offset_injective hdest)
    exact fun i j hij hj => offset_ne (by omega) (by omega) (by omega)

/-- `memcpy` moves ranges that are apart. -/
theorem memcpy_moved (m : Memory) (hdest : dest.toNat + n.toNat ≤ 2 ^ 64) (hsrc : src.toNat + n.toNat ≤ 2 ^ 64)
    (hapart : Disjoint (Set.Ico dest.toNat (dest.toNat + n.toNat)) (Set.Ico src.toNat (src.toNat + n.toNat))) :
    Moved (offset dest) (offset src) n.toNat m (memcpy m dest src n).1 := by
  apply copyUp_moved (offset_injective hdest)
  intro i j hij hj
  refine offset_ne (by omega) (by omega) fun he => ?_
  have hin : dest.toNat + i ∈ Set.Ico dest.toNat (dest.toNat + n.toNat) := ⟨by omega, by omega⟩
  exact Set.disjoint_left.1 hapart hin ⟨by omega, by omega⟩

/-- **`memmove` is right for every overlap**, and `memcpy` for ranges that are apart. -/
theorem memmove_correct (m : Memory) (dest src : BitVec 64) (n : UInt64)
    (hdest : dest.toNat + n.toNat ≤ 2 ^ 64) (hsrc : src.toNat + n.toNat ≤ 2 ^ 64) :
    (∀ i < n.toNat, (memmove m dest src n).1 (offset dest i) = m (offset src i)) ∧
    (∀ a, a.toNat ∉ Set.Ico dest.toNat (dest.toNat + n.toNat) → (memmove m dest src n).1 a = m a) ∧
    (memmove m dest src n).2 = dest ∧
    (Disjoint (Set.Ico dest.toNat (dest.toNat + n.toNat)) (Set.Ico src.toNat (src.toNat + n.toNat)) →
      memcpy m dest src n = memmove m dest src n) := by
  have hmoved := memmove_moved m hdest hsrc
  have hreturn : (memmove m dest src n).2 = dest := by
    unfold memmove
    split <;> rfl
  refine ⟨hmoved.inside, fun a ha => hmoved.outside a ?_, hreturn, fun hapart => ?_⟩
  · rintro i hi rfl
    rw [offset_toNat (by omega)] at ha
    exact ha ⟨by omega, by omega⟩
  · exact Prod.ext ((memcpy_moved m hdest hsrc hapart).unique hmoved) hreturn.symm

/-- Each byte is the low byte of its address. -/
def lowBytes : Memory := fun a => a.setWidth 8

/-- Five bytes are moved up by two; and five bytes to a place apart. -/
theorem memmove_correct_five :
    ((∀ i < 5, (memmove lowBytes 0x1002 0x1000 5).1 (offset 0x1002 i) = lowBytes (offset 0x1000 i)) ∧
      ∀ a, a.toNat ∉ Set.Ico 0x1002 0x1007 → (memmove lowBytes 0x1002 0x1000 5).1 a = lowBytes a) ∧
    memcpy lowBytes 0x2000 0x1000 5 = memmove lowBytes 0x2000 0x1000 5 := by
  obtain ⟨hinside, houtside, -, -⟩ := memmove_correct lowBytes 0x1002 0x1000 5 (by decide) (by decide)
  obtain ⟨-, -, -, hmemcpy⟩ := memmove_correct lowBytes 0x2000 0x1000 5 (by decide) (by decide)
  exact ⟨⟨hinside, houtside⟩, hmemcpy (Set.Ico_disjoint_Ico.2 (by decide))⟩

end Urchin
