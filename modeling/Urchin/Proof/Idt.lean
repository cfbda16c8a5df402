import Urchin.Spec.Idt

/-!
# A vector enters its stub

`initIdt_gate`: the processor reads for each vector the gate that `set_offset` meant, and
nothing but the table has changed. `stubStart_eq`: the stubs lie where the gates point,
whatever the jumps take. `Idt.vector_enters_stub` puts the two together.
-/

namespace Urchin

open Stack

/-! ## One entry -/

/-- The fields of an entry for a handler at `offset`. -/
structure IDTEntry.At (m : Memory) (entry offset : BitVec 64) : Prop where
  offsetl : load 16 m (entry + BitVec.ofNat 64 0) = offset.extractLsb' 0 16
  selector : load 16 m (entry + BitVec.ofNat 64 2) = 8
  zero : load 8 m (entry + BitVec.ofNat 64 4) = 0
  attrib : load 8 m (entry + BitVec.ofNat 64 5) = 0x8e
  offsetm : load 16 m (entry + BitVec.ofNat 64 6) = offset.extractLsb' 16 16
  offseth : load 32 m (entry + BitVec.ofNat 64 8) = offset.extractLsb' 32 32

namespace IDTEntry

variable {m m' : Memory} {entry offset : BitVec 64}

/-- The distance of two fields of an entry, counted upwards. -/
theorem field_sub (entry : BitVec 64) {i k j : ℕ} (hi : i < 16) (hkj : k + j < 32) :
    (entry + BitVec.ofNat 64 k + BitVec.ofNat 64 j - (entry + BitVec.ofNat 64 i)).toNat =
      if i ≤ k + j then k + j - i else 2 ^ 64 - (i - (k + j)) := by
  rw [add_assoc, ← BitVec.ofNat_add, add_sub_add_left_eq_sub, BitVec.toNat_sub, BitVec.toNat_ofNat, BitVec.toNat_ofNat,
    Nat.mod_eq_of_lt (show i < 2 ^ 64 by omega), Nat.mod_eq_of_lt (show k + j < 2 ^ 64 by omega)]
  split <;> omega

/-- A store to one field leaves another alone. -/
theorem load_field (m : Memory) (entry : BitVec 64) {w : ℕ} (v : BitVec w) {i k n : ℕ} (hi : i < 16) (hk : 8 * k + n ≤ 128)
    (hw : w ≤ 32) (h : 8 * k + n ≤ 8 * i ∨ 8 * i + w ≤ 8 * k) :
    load n (store m (entry + BitVec.ofNat 64 i) v) (entry + BitVec.ofNat 64 k) =
      load n m (entry + BitVec.ofNat 64 k) := by
  apply load_store_apart
  intro j hj
  rw [field_sub entry hi (by omega)]
  split <;> omega

/-- What `set_offset` stores, each number as bits of the offset. -/
theorem setOffset_eq (entry offset : BitVec 64) (m : Memory) : setOffset entry offset m =
    store (store (store (store (store m (entry + BitVec.ofNat 64 0) (offset.extractLsb' 0 16))
      (entry + BitVec.ofNat 64 6) (offset.extractLsb' 16 16))
      (entry + BitVec.ofNat 64 8) (offset.extractLsb' 32 32))
      (entry + BitVec.ofNat 64 5) (0x8e : BitVec 8)) (entry + BitVec.ofNat 64 2) (8 : BitVec 16) := by
  have hl : ((offset &&& 0x000000000000ffff) >>> 0).setWidth 16 = offset.extractLsb' 0 16 := by
    ext i hi
    simp
    interval_cases i <;> simp
  have hm : ((offset &&& 0x00000000ffff0000) >>> 16).setWidth 16 = offset.extractLsb' 16 16 := by
    ext i hi
    simp
    interval_cases i <;> simp
  have hh : ((offset &&& 0xffffffff00000000) >>> 32).setWidth 32 = offset.extractLsb' 32 32 := by
    ext i hi
    simp
    interval_cases i <;> simp
  unfold setOffset
  rw [hl, hm, hh]
  rfl

/-- `set_offset` leaves the memory outside the entry alone. -/
theorem setOffset_outside {b : BitVec 64} (h : 16 ≤ (b - entry).toNat) : setOffset entry offset m b = m b := by
  have hsub : ∀ i < 16, (b - (entry + BitVec.ofNat 64 i)).toNat = (b - entry).toNat - i := by
    intro i hi
    rw [← sub_sub, BitVec.toNat_sub, BitVec.toNat_ofNat, Nat.mod_eq_of_lt (show i < 2 ^ 64 by omega)]
    omega
  rw [setOffset_eq]
  unfold store
  rw [hsub 2 (by omega), hsub 5 (by omega), hsub 8 (by omega), hsub 6 (by omega), hsub 0 (by omega)]
  rw [if_neg (by omega), if_neg (by omega), if_neg (by omega), if_neg (by omega), if_neg (by omega)]

/-- **`set_offset` on an entry whose `zero` is zero.** -/
theorem at_setOffset (h : load 8 m (entry + BitVec.ofNat 64 4) = 0) : At (setOffset entry offset m) entry offset := by
  rw [setOffset_eq]
  constructor
  · rw [load_field, load_field, load_field, load_field]
    · exact load_store_self _ _ _ (by omega)
    all_goals omega
  · exact load_store_self _ _ _ (by omega)
  · rw [load_field, load_field, load_field, load_field, load_field]
    · exact h
    all_goals omega
  · rw [load_field]
    · exact load_store_self _ _ _ (by omega)
    all_goals omega
  · rw [load_field, load_field, load_field]
    · exact load_store_self _ _ _ (by omega)
    all_goals omega
  · rw [load_field, load_field]
    · exact load_store_self _ _ _ (by omega)
    all_goals omega

/-- Only the sixteen bytes of the entry matter. -/
theorem At.congr (h : At m entry offset)
    (hm : ∀ k < 16, m (entry + BitVec.ofNat 64 k) = m' (entry + BitVec.ofNat 64 k)) : At m' entry offset := by
  have key : ∀ k n, 8 * k + n ≤ 128 →
      load n m (entry + BitVec.ofNat 64 k) = load n m' (entry + BitVec.ofNat 64 k) := by
    intro k n hkn
    apply load_congr
    intro j hj
    rw [add_ofNat_add]
    exact hm (k + j) (by omega)
  constructor
  · rw [← key 0 16 (by omega)]
    exact h.offsetl
  · rw [← key 2 16 (by omega)]
    exact h.selector
  · rw [← key 4 8 (by omega)]
    exact h.zero
  · rw [← key 5 8 (by omega)]
    exact h.attrib
  · rw [← key 6 16 (by omega)]
    exact h.offsetm
  · rw [← key 8 32 (by omega)]
    exact h.offseth

/-- A part of a part. -/
theorem extract_extract {w : ℕ} (x : BitVec w) {start len i n : ℕ} (h : i + n ≤ len) :
    (x.extractLsb' start len).extractLsb' i n = x.extractLsb' (start + i) n := by
  ext k hk
  rw [BitVec.getElem_extractLsb', BitVec.getLsbD_extractLsb', BitVec.getElem_extractLsb',
    decide_eq_true (show i + k < len by omega), Bool.true_and, add_assoc]

/-- **What the processor makes of the entry.** -/
theorem At.decode (h : At m entry offset) : Gate.decode (load 128 m entry) = Gate.kernel offset := by
  have hbits : ∀ k n, 8 * k + n ≤ 128 →
      (load 128 m entry).extractLsb' (8 * k) n = load n m (entry + BitVec.ofNat 64 k) :=
    fun k n hkn => load_extract m entry hkn
  have hattr : ∀ i n, i + n ≤ 8 →
      (load 128 m entry).extractLsb' (40 + i) n = (0x8e : BitVec 8).extractLsb' i n := by
    intro i n hin
    rw [← h.attrib, ← hbits 5 8 (by omega), extract_extract _ hin]
  have hist : (load 128 m entry).extractLsb' 32 3 = 0 := by
    have hzero := (hbits 4 8 (by omega)).trans h.zero
    have hpart : (load 128 m entry).extractLsb' (32 + 0) 3 = ((load 128 m entry).extractLsb' (8 * 4) 8).extractLsb' 0 3 :=
      (extract_extract _ (by omega)).symm
    rw [hzero, BitVec.ofNat_eq_ofNat, BitVec.extractLsb'_zero] at hpart
    exact hpart
  unfold Gate.decode Gate.kernel
  rw [hist, hattr 0 4 (by omega), hattr 4 1 (by omega), hattr 5 2 (by omega), hattr 7 1 (by omega),
    (hbits 2 16 (by omega)).trans h.selector, (hbits 8 32 (by omega)).trans h.offseth,
    (hbits 6 16 (by omega)).trans h.offsetm, (hbits 0 16 (by omega)).trans h.offsetl]
  rw [BitVec.extractLsb'_append_extractLsb'_eq_extractLsb' (show 16 = 0 + 16 from rfl),
    BitVec.extractLsb'_append_extractLsb'_eq_extractLsb' (show 32 = 0 + (16 + 16) from rfl), BitVec.extractLsb'_eq_self]
  rfl

end IDTEntry

/-! ## The table -/

/-- The loop over the first `n` entries: they are set, and the bytes from entry `n` on,
around to the table, are as before. -/
theorem setOffsets_at (idt handlers : BitVec 64) (m : Memory)
    (hzero : ∀ i < 256, load 8 m (idt + BitVec.ofNat 64 (16 * i) + BitVec.ofNat 64 4) = 0) (n : ℕ) (hn : n ≤ 256) :
    (∀ i < n, IDTEntry.At (setOffsets idt handlers n m) (idt + BitVec.ofNat 64 (16 * i))
      (handlers + 0x10 * BitVec.ofNat 64 i)) ∧
      ∀ b : BitVec 64, 16 * n ≤ (b - idt).toNat → setOffsets idt handlers n m b = m b := by
  induction n with
  | zero => exact ⟨fun i hi => absurd hi (Nat.not_lt_zero i), fun _ _ => rfl⟩
  | succ n ih =>
    obtain ⟨hset, hrest⟩ := ih (by omega)
    have hsucc : setOffsets idt handlers (n + 1) m = IDTEntry.setOffset (idt + BitVec.ofNat 64 (16 * n))
        (handlers + 0x10 * BitVec.ofNat 64 n) (setOffsets idt handlers n m) := by
      unfold setOffsets
      rw [List.range_succ, List.foldl_append, List.foldl_cons, List.foldl_nil]
    have hsub : ∀ b : BitVec 64, 16 * n ≤ (b - idt).toNat →
        (b - (idt + BitVec.ofNat 64 (16 * n))).toNat = (b - idt).toNat - 16 * n := by
      intro b hb
      have hlt := (b - idt).isLt
      rw [← sub_sub, BitVec.toNat_sub, BitVec.toNat_ofNat, Nat.mod_eq_of_lt (show 16 * n < 2 ^ 64 by omega)]
      omega
    rw [hsucc]
    refine ⟨fun i hi => ?_, fun b hb => ?_⟩
    · rcases Nat.eq_or_lt_of_le (Nat.lt_succ_iff.1 hi) with rfl | hlt
      · -- the new entry has not been touched
        apply IDTEntry.at_setOffset
        rw [← hzero i (by omega)]
        apply load_congr
        intro k hk
        apply hrest
        rw [add_ofNat_add, add_ofNat_add, add_sub_cancel_left, BitVec.toNat_ofNat, Nat.mod_eq_of_lt (by omega)]
        omega
      · refine (hset i hlt).congr fun k hk => (IDTEntry.setOffset_outside ?_).symm
        -- an earlier entry is almost a whole address space further
        rw [add_ofNat_add, add_sub_add_left_eq_sub, BitVec.toNat_sub, BitVec.toNat_ofNat, BitVec.toNat_ofNat,
          Nat.mod_eq_of_lt (show 16 * n < 2 ^ 64 by omega), Nat.mod_eq_of_lt (show 16 * i + k < 2 ^ 64 by omega)]
        omega
    · refine (IDTEntry.setOffset_outside ?_).trans (hrest b (by omega))
      rw [hsub b (by omega)]
      omega

/-- **The processor finds the gate of every vector**, and nothing but the table has
changed. -/
theorem initIdt_gate (idt handlers : BitVec 64) (m : Memory)
    (hzero : ∀ i < 256, load 8 m (idt + BitVec.ofNat 64 (16 * i) + BitVec.ofNat 64 4) = 0) :
    (∀ vector : BitVec 8, readGate (initIdt idt handlers m).1 (initIdt idt handlers m).2 vector =
      some (.kernel (handlers + BitVec.ofNat 64 (16 * vector.toNat)))) ∧
    ∀ b : BitVec 64, 4096 ≤ (b - idt).toNat → (initIdt idt handlers m).1 b = m b := by
  obtain ⟨hset, hrest⟩ := setOffsets_at idt handlers m hzero 256 (le_refl _)
  unfold initIdt
  dsimp only
  refine ⟨fun vector => ?_, fun b hb => hrest b (by omega)⟩
  have hlimit : 16 * vector.toNat + 15 ≤ ((16 * 256 - 1 : BitVec 16)).toNat := by
    have hv := vector.isLt
    have hl : ((16 * 256 - 1 : BitVec 16)).toNat = 4095 := rfl
    omega
  have hmul : (0x10 : BitVec 64) * BitVec.ofNat 64 vector.toNat = BitVec.ofNat 64 (16 * vector.toNat) :=
    BitVec.ofNat_mul_ofNat 16 vector.toNat
  have hdecode := (hset vector.toNat vector.isLt).decode
  unfold readGate
  rw [if_pos hlimit, hdecode, hmul]

/-! ## The stubs -/

/-- A stub takes up to sixteen bytes. -/
theorem stub_length (index : ℕ) {jmp : ℕ} (hjmp : jmp ≤ 5) :
    0 < ((interruptHandlers index).map Instr.stubBytes).sum + jmp ∧
      ((interruptHandlers index).map Instr.stubBytes).sum + jmp ≤ 16 := by
  have hpush : ∀ v, Instr.stubBytes (.pushImm v) ≤ 5 := by
    intro v
    simp only [Instr.stubBytes]
    split <;> omega
  have hindex := hpush (BitVec.ofNat 64 index)
  unfold interruptHandlers
  split
  · simp only [List.map_cons, List.map_nil, List.sum_cons, List.sum_nil]
    have hcli : Instr.stubBytes .cli = 1 := rfl
    omega
  · simp only [List.map_cons, List.map_nil, List.sum_cons, List.sum_nil]
    have hcli : Instr.stubBytes .cli = 1 := rfl
    have hzero : Instr.stubBytes (.pushImm 0) = 2 := rfl
    omega

/-- **Stub `index` begins `16 * index` bytes from the label.** -/
theorem stubStart_eq {jmp : ℕ → ℕ} (hjmp : ∀ i, jmp i ≤ 5) (index : ℕ) : stubStart jmp index = 16 * index := by
  induction index with
  | zero =>
    unfold stubStart align16
    rw [stubPos]
  | succ index ih =>
    have hlen := stub_length index (hjmp index)
    unfold stubStart at ih ⊢
    rw [stubPos, ih]
    unfold align16
    omega

/-- **A vector enters its stub.** After `apic::init`, for every table that was zero, every
place of the stubs and every vector: the processor finds a gate of the kernel, which masks
interrupts and keeps the stack, and which points to where the assembler put the stub of
that vector; the memory outside the table is as before. -/
theorem Idt.vector_enters_stub (idt handlers : BitVec 64) (m : Memory) {jmp : ℕ → ℕ} (hjmp : ∀ i, jmp i ≤ 5)
    (hzero : ∀ k < 4096, m (idt + BitVec.ofNat 64 k) = 0) :
    (∀ vector : BitVec 8, readGate (initIdt idt handlers m).1 (initIdt idt handlers m).2 vector =
      some (.kernel (handlers + BitVec.ofNat 64 (stubStart jmp vector.toNat)))) ∧
    ∀ b : BitVec 64, 4096 ≤ (b - idt).toNat → (initIdt idt handlers m).1 b = m b := by
  have hfield : ∀ i < 256, load 8 m (idt + BitVec.ofNat 64 (16 * i) + BitVec.ofNat 64 4) = 0 := by
    intro i hi
    rw [add_ofNat_add]
    refine BitVec.eq_of_getLsbD_eq fun j hj => ?_
    unfold load
    rw [BitVec.getLsbD_ofFnLE, dif_pos hj, add_ofNat_add, hzero _ (by omega)]
    simp
  obtain ⟨hgate, hrest⟩ := initIdt_gate idt handlers m hfield
  refine ⟨fun vector => ?_, hrest⟩
  rw [stubStart_eq hjmp]
  exact hgate vector

/-- With short jumps and a table at one megabyte. -/
theorem Idt.vector_enters_stub_timer :
    readGate (initIdt 0x100000 0x200000 fun _ => 0).1 (initIdt 0x100000 0x200000 fun _ => 0).2 48 =
      some (.kernel (0x200000 + BitVec.ofNat 64 (stubStart (fun _ => 2) 48))) :=
  (vector_enters_stub 0x100000 0x200000 (fun _ => 0) (fun _ => by omega) fun _ _ => rfl).1 48

end Urchin
