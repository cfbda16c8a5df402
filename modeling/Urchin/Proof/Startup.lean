import Urchin.Spec.Startup

/-!
# The first half terabyte is mapped to itself

`Startup.identity_map`: with the tables of `startup.S` an address below `2 ^ 39` is its own
physical address, and no other address has one.
-/

namespace Urchin

open Stack Paging

theorem getLsbD_eq_decide (e : BitVec 64) (i : ℕ) : e.getLsbD i = decide (e.toNat / 2 ^ i % 2 = 1) := by
  rw [BitVec.getLsbD, Nat.testBit_eq_decide_div_mod_eq]

/-! ## The words of the tables -/

theorem identPtL4_length (l3 : BitVec 64) : (identPtL4 l3).length = 512 := by
  rw [identPtL4, List.length_cons, List.length_replicate]

theorem identPt_length (l4 : BitVec 64) : (identPt l4).length = 1024 := by
  rw [identPt, List.length_append, identPtL4_length, identPtL3, List.length_map, List.length_range]

namespace IdentPt

variable {m : Memory} {l4 va : BitVec 64}

/-- The word `k` of the tables. -/
theorem word (h : IdentPt m l4) {k : ℕ} {v : BitVec 64} (hv : (identPt l4)[k]? = some v) :
    load 64 m (BitVec.ofNat 64 (l4.toNat + 8 * k)) = v := by
  obtain ⟨hk, hv⟩ := List.getElem?_eq_some_iff.1 hv
  have hload := At.quads h.holds hk
  rw [← hv, ← hload, ← BitVec.ofNat_add_ofNat, BitVec.ofNat_toNat, BitVec.setWidth_eq]

/-- The entry of the first table for the lowest addresses. -/
theorem first (h : IdentPt m l4) (hva : va.toNat / 2 ^ 39 % 512 = 0) :
    (entry m va 3 l4.toNat).toNat = l4.toNat + 4096 + 0x67 := by
  have hlow := h.low
  have hentry : entry m va 3 l4.toNat = l4 + 4096 + 0x67 := by
    unfold entry
    rw [show shift 3 = 39 from rfl, hva]
    apply h.word
    simp only [identPt, identPtL4, List.cons_append, List.getElem?_cons_zero]
  rw [hentry, BitVec.toNat_add, BitVec.toNat_add, show (4096 : BitVec 64).toNat = 4096 from rfl,
    show (0x67 : BitVec 64).toNat = 0x67 from rfl]
  omega

/-- The other entries of the first table. -/
theorem rest (h : IdentPt m l4) (hva : va.toNat / 2 ^ 39 % 512 ≠ 0) : entry m va 3 l4.toNat = 0 := by
  have hlt : va.toNat / 2 ^ 39 % 512 < 512 := Nat.mod_lt _ (by omega)
  unfold entry
  rw [show shift 3 = 39 from rfl]
  apply h.word
  unfold identPt
  rw [List.getElem?_append_left (by rw [identPtL4_length]; exact hlt)]
  obtain ⟨j, hj⟩ := Nat.exists_eq_succ_of_ne_zero hva
  rw [hj, identPtL4, Nat.succ_eq_add_one, List.getElem?_cons_succ]
  exact List.getElem?_replicate_of_lt (by omega)

/-- The entries of the second table. -/
theorem second (h : IdentPt m l4) (va : BitVec 64) :
    (entry m va 2 (l4.toNat + 4096)).toNat = va.toNat / 2 ^ 30 % 512 * 2 ^ 30 + 0x1e7 := by
  have hlt : va.toNat / 2 ^ 30 % 512 < 512 := Nat.mod_lt _ (by omega)
  set i := va.toNat / 2 ^ 30 % 512 with hi
  have hentry : entry m va 2 (l4.toNat + 4096) = (BitVec.ofNat 64 i <<< 30) + 0x1e7 := by
    unfold entry
    rw [show shift 2 = 30 from rfl, ← hi, show l4.toNat + 4096 + 8 * i = l4.toNat + 8 * (512 + i) by omega]
    apply h.word
    unfold identPt identPtL3
    rw [List.getElem?_append_right (by rw [identPtL4_length]; omega), identPtL4_length, Nat.add_sub_cancel_left,
      List.getElem?_map, List.getElem?_range hlt]
    rfl
  rw [hentry, BitVec.toNat_add, BitVec.toNat_shiftLeft, BitVec.toNat_ofNat, Nat.shiftLeft_eq,
    show (0x1e7 : BitVec 64).toNat = 0x1e7 from rfl]
  omega

end IdentPt

/-- **The kernel's address space.** With the tables at any aligned 32-bit address in `cr3`:
* every address below `2 ^ 39` is its own physical address, for reading, writing and
  execution, and the processor has nothing to mark in the tables;
* every other address faults. -/
theorem Startup.identity_map {m : Memory} {l4 : BitVec 64} (h : IdentPt m l4) (va : BitVec 64) :
    (va.toNat < 2 ^ 39 → ∃ w, resolve m l4 va = some w ∧ w.addr = va ∧ w.rights = .all ∧ w.Marked) ∧
    (2 ^ 39 ≤ va.toNat → resolve m l4 va = none) := by
  have hlow := h.low
  have haligned := h.aligned
  have hcr3 : Entry.frame l4 12 = l4.toNat := by
    unfold Entry.frame
    omega
  refine ⟨fun hva => ?_, fun hva => ?_⟩
  · have hfirst : (entry m va 3 l4.toNat).toNat = l4.toNat + 4096 + 0x67 := h.first (by omega)
    have hsecond := h.second va
    set e₁ := entry m va 3 l4.toNat with he₁
    have hframe : e₁.frame 12 = l4.toNat + 4096 := by
      unfold Entry.frame
      omega
    set e₂ := entry m va 2 (l4.toNat + 4096) with he₂
    have hwalk : resolve m l4 va = some ⟨e₂.page va 2, (Rights.all.meet e₁).meet e₂, [e₁, e₂]⟩ := by
      unfold resolve
      rw [if_pos (show Canonical va from .inl (by omega)), hcr3, walk_next, ← he₁, hframe, walk_large, ← he₂]
      · rfl
      · rw [← he₂, Entry.present, getLsbD_eq_decide]
        exact decide_eq_true (by omega)
      · rw [← he₂, Entry.large, getLsbD_eq_decide]
        exact decide_eq_true (by omega)
      · omega
      · rw [← he₂, show shift 2 = 30 from rfl]
        unfold Entry.reserved
        omega
      · rw [← he₁, Entry.present, getLsbD_eq_decide]
        exact decide_eq_true (by omega)
      · rw [← he₁, Entry.large, getLsbD_eq_decide]
        exact decide_eq_false (by omega)
    refine ⟨_, hwalk, ?_, ?_, ?_⟩
    · unfold Entry.page Entry.frame
      rw [show shift 2 = 30 from rfl, hsecond]
      apply BitVec.eq_of_toNat_eq
      rw [BitVec.toNat_ofNat]
      omega
    · unfold Rights.meet Rights.all Entry.writable Entry.user Entry.noExecute
      simp only [getLsbD_eq_decide, Rights.mk.injEq, Bool.true_and, Bool.and_eq_true, decide_eq_true_eq,
        Bool.not_eq_true', decide_eq_false_iff_not]
      omega
    · unfold Walk.Marked Entry.accessed Entry.dirty
      simp only [getLsbD_eq_decide, List.mem_cons, List.not_mem_nil, or_false, decide_eq_true_eq,
        forall_eq_or_imp, forall_eq, List.getLast?_cons_cons, List.getLast?_singleton, Option.mem_def,
        Option.some.injEq, forall_eq']
      omega
  · unfold resolve
    split
    · rename_i hcan
      have hne : va.toNat / 2 ^ 39 % 512 ≠ 0 := by
        have hlt := va.isLt
        rcases hcan with hc | hc <;> omega
      rw [hcr3]
      apply walk_absent
      rw [h.rest hne]
      rfl
    · rfl

/-- The registers of the local APIC are where the driver reads them. -/
theorem Startup.identity_map_apic : ∃ m w, resolve m 0x110000 0xfee00020 = some w ∧ w.addr = 0xfee00020 ∧
    w.rights = .all ∧ resolve m 0x110000 0xffffffff80000000 = none := by
  have hsize : size ((identPt 0x110000).map .quad) + size [] ≤ 2 ^ 64 := by
    have hquads : size ((identPt 0x110000).map .quad) = 8 * (identPt 0x110000).length := size_quads id _
    rw [hquads, identPt_length, size_nil]
    omega
  have htables : IdentPt (storeAll (fun _ => 0) 0x110000 ((identPt 0x110000).map .quad)) 0x110000 := by
    refine ⟨?_, by decide, by decide⟩
    have hholds : At (storeAll (fun _ => 0) 0x110000 ((identPt 0x110000).map .quad)) 0x110000
        ((identPt 0x110000).map .quad ++ []) := At.storeAll trivial hsize
    rw [List.append_nil] at hholds
    exact hholds
  obtain ⟨w, hw, haddr, hrights, -⟩ := (identity_map htables 0xfee00020).1 (by decide)
  exact ⟨_, w, hw, haddr, hrights, (identity_map htables 0xffffffff80000000).2 (by decide)⟩

end Urchin
