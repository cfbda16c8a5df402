import Mathlib

/-!
# One's-complement sums

Sums of words with the carry brought around, as the Internet checksum has them. All of it
is arithmetic modulo `m`, the largest word: a sum with end-around carry is `0` only for
zero words, and otherwise the representative in `1..m` of the plain sum.

* `onesSum_eq_max_iff`: the words sum up to all ones exactly if the plain sum is a positive
  multiple of `m`.
* `fold`: a step of folding the high digits of a plain sum onto the low ones, and
  `fold_fold_le`: two steps are enough for a sum below `(m + 1) ^ 2`.
* `words`, `Verifies`: the big-endian 16-bit words of a message, and the receiver's check.
* `store`: a message with the complement of its folded sum stored in one of its words, and
  `dvd_wordSum_store`: that message checks.
-/

namespace Urchin.Inet

/-! ## Sums with end-around carry -/

section

variable {m : ℕ}

/-- Addition of words up to `m` with end-around carry. -/
def addCarry (m a b : ℕ) : ℕ := if a + b ≤ m then a + b else a + b - m

/-- The one's-complement sum of words. -/
def onesSum (m : ℕ) (ws : List ℕ) : ℕ := ws.foldl (addCarry m) 0

theorem addCarry_modEq (m a b : ℕ) : addCarry m a b ≡ a + b [MOD m] := by
  unfold addCarry
  split
  · rfl
  · rename_i h
    unfold Nat.ModEq
    conv_rhs => rw [← Nat.sub_add_cancel (show m ≤ a + b by omega), Nat.add_mod_right]

theorem addCarry_le {a b : ℕ} (ha : a ≤ m) (hb : b ≤ m) : addCarry m a b ≤ m := by
  unfold addCarry
  split <;> omega

theorem addCarry_eq_zero {a b : ℕ} : addCarry m a b = 0 ↔ a + b = 0 := by
  unfold addCarry
  split <;> omega

/-- The carry changes neither the residue of a sum nor whether it is zero. -/
theorem onesSum_spec {ws : List ℕ} (h : ∀ x ∈ ws, x ≤ m) :
    onesSum m ws ≤ m ∧ onesSum m ws ≡ ws.sum [MOD m] ∧ (onesSum m ws = 0 ↔ ws.sum = 0) := by
  have key : ∀ (ws : List ℕ) (a : ℕ), (∀ x ∈ ws, x ≤ m) → a ≤ m →
      ws.foldl (addCarry m) a ≤ m ∧ ws.foldl (addCarry m) a ≡ a + ws.sum [MOD m] ∧
        (ws.foldl (addCarry m) a = 0 ↔ a + ws.sum = 0) := by
    intro ws
    induction ws with
    | nil => intro a _ ha; exact ⟨ha, by simp; rfl, by simp⟩
    | cons x ws ih =>
      intro a h ha
      obtain ⟨h1, h2, h3⟩ := ih (addCarry m a x) (fun y hy => h y (List.mem_cons_of_mem _ hy))
        (addCarry_le ha (h x List.mem_cons_self))
      rw [List.foldl_cons, List.sum_cons, ← Nat.add_assoc]
      refine ⟨h1, h2.trans (Nat.ModEq.add_right _ (addCarry_modEq m a x)), h3.trans ?_⟩
      have hz : addCarry m a x = 0 ↔ a + x = 0 := addCarry_eq_zero
      omega
  simpa [onesSum] using key ws 0 h (Nat.zero_le m)

/-- **When words sum up to all ones.** -/
theorem onesSum_eq_max_iff (hm : 0 < m) {ws : List ℕ} (h : ∀ x ∈ ws, x ≤ m) :
    onesSum m ws = m ↔ m ∣ ws.sum ∧ 0 < ws.sum := by
  obtain ⟨hle, hmod, hzero⟩ := onesSum_spec h
  constructor
  · intro he
    rw [he] at hmod
    refine ⟨Nat.modEq_zero_iff_dvd.1 (hmod.symm.trans (by simp [Nat.ModEq])), ?_⟩
    rw [he] at hzero
    omega
  · rintro ⟨hdvd, hpos⟩
    have hdvd' : m ∣ onesSum m ws := Nat.modEq_zero_iff_dvd.1 (hmod.trans (Nat.modEq_zero_iff_dvd.2 hdvd))
    exact Nat.le_antisymm hle (Nat.le_of_dvd (by omega) hdvd')

/-! ## Folding a plain sum -/

/-- One step of folding: the high digits of `n` in base `m + 1` are added to the lowest. -/
def fold (m n : ℕ) : ℕ := n % (m + 1) + n / (m + 1)

theorem fold_modEq (m n : ℕ) : fold m n ≡ n [MOD m] := by
  have h : n = fold m n + m * (n / (m + 1)) := by
    unfold fold
    have := Nat.mod_add_div n (m + 1)
    rw [Nat.add_mul, Nat.one_mul] at this
    omega
  unfold Nat.ModEq
  conv_rhs => rw [h, Nat.add_mul_mod_self_left]

/-- Two steps reduce a sum of two digits to one. -/
theorem fold_fold_le {n : ℕ} (h : n < (m + 1) * (m + 1)) : fold m (fold m n) ≤ m := by
  have h1 : n / (m + 1) < m + 1 := Nat.div_lt_of_lt_mul h
  have h2 : n % (m + 1) < m + 1 := Nat.mod_lt n (Nat.succ_pos m)
  have h3 : fold m n = n % (m + 1) + n / (m + 1) := rfl
  generalize fold m n = k at h3
  unfold fold
  rcases Nat.lt_or_ge k (m + 1) with hk | hk
  · rw [Nat.mod_eq_of_lt hk, Nat.div_eq_of_lt hk]
    omega
  · -- one carry is left, and the digit it is added to is not the largest
    have hdiv : k / (m + 1) = 1 := Nat.div_eq_of_lt_le (by omega) (by omega)
    have hmod := Nat.mod_add_div k (m + 1)
    rw [hdiv] at hmod ⊢
    omega

/-- **The complement of the folded sum**, added to the sum. -/
theorem dvd_add_complement {n : ℕ} (hm : 0 < m) (h : n < (m + 1) * (m + 1)) :
    m ∣ n + (m - fold m (fold m n)) ∧ 0 < n + (m - fold m (fold m n)) := by
  have hle := fold_fold_le h
  have hmod : fold m (fold m n) ≡ n [MOD m] := (fold_modEq m _).trans (fold_modEq m n)
  constructor
  · have h1 : fold m (fold m n) + (m - fold m (fold m n)) = m := by omega
    have h2 := hmod.symm.add_right (m - fold m (fold m n))
    rw [h1] at h2
    exact Nat.modEq_zero_iff_dvd.1 (h2.trans (by simp [Nat.ModEq]))
  · rcases Nat.eq_zero_or_pos n with h0 | h0
    · subst h0
      simpa [fold] using hm
    · omega

end

/-! ## Messages -/

/-- The big-endian words of a message; the last byte of an odd one is padded with zero. -/
def words : List UInt8 → List ℕ
  | [] => []
  | [x] => [256 * x.toNat]
  | x :: y :: l => (256 * x.toNat + y.toNat) :: words l

/-- The receiver's check: the words sum up to all ones. -/
def Verifies (l : List UInt8) : Prop := onesSum 0xffff (words l) = 0xffff

instance (l : List UInt8) : Decidable (Verifies l) := inferInstanceAs (Decidable (_ = _))

theorem words_le (l : List UInt8) : ∀ x ∈ words l, x ≤ 0xffff := by
  fun_induction words l with
  | case1 => simp
  | case2 x =>
    intro z hz
    have := x.toNat_lt
    rw [List.mem_singleton.1 hz]
    omega
  | case3 x y l ih =>
    intro z hz
    have := x.toNat_lt
    have := y.toNat_lt
    rcases List.mem_cons.1 hz with rfl | hz
    · omega
    · exact ih z hz

theorem verifies_iff (l : List UInt8) : Verifies l ↔ 0xffff ∣ (words l).sum ∧ 0 < (words l).sum :=
  onesSum_eq_max_iff (by decide) (words_le l)

/-- Behind an even number of bytes the words start anew. -/
theorem words_append {l : List UInt8} (h : Even l.length) (l' : List UInt8) :
    words (l ++ l') = words l ++ words l' := by
  fun_induction words l with
  | case1 => rfl
  | case2 x => simp at h
  | case3 x y l ih =>
    rw [List.length_cons, List.length_cons, Nat.even_add_one, Nat.even_add_one, not_not] at h
    rw [List.cons_append, List.cons_append, words, ih h]
    rfl

/-- A byte added to a message that checks, in the high half of a word of its own. -/
theorem dvd_add_lastByte_iff {n : ℕ} {x : UInt8} (h : 0xffff ∣ n ∧ 0 < n) :
    (0xffff ∣ n + 256 * x.toNat ∧ 0 < n + 256 * x.toNat) ↔ x = 0 := by
  have hx := x.toNat_lt
  rw [Nat.dvd_add_right h.1]
  constructor
  · rintro ⟨hdvd, -⟩
    have hzero := Nat.eq_zero_of_dvd_of_lt hdvd (by omega)
    exact UInt8.toNat_inj.1 (by simpa using hzero)
  · rintro rfl
    exact ⟨Nat.dvd_zero _, Nat.add_pos_left h.2 _⟩

/-! ## Bytes by their offset -/

section

variable {g g' : ℕ → UInt8} {lo hi k c : ℕ}

/-- The `n` bytes from offset `i` on. -/
def bytes (g : ℕ → UInt8) (i n : ℕ) : List UInt8 := (List.range' i n).map g

@[simp] theorem bytes_length (g : ℕ → UInt8) (i n : ℕ) : (bytes g i n).length = n := by
  simp [bytes]

theorem bytes_congr {i i' n : ℕ} (h : ∀ k < n, g (i + k) = g' (i' + k)) : bytes g i n = bytes g' i' n := by
  unfold bytes
  rw [List.range'_eq_map_range, List.range'_eq_map_range, List.map_map, List.map_map]
  apply List.map_congr_left
  intro k hk
  exact h k (List.mem_range.1 hk)

/-- A part of a range of bytes. -/
theorem take_drop_bytes (g : ℕ → UInt8) {i k n : ℕ} (h : i + k ≤ n) :
    ((bytes g 0 n).drop i).take k = bytes g i k := by
  unfold bytes
  rw [← List.map_drop, ← List.map_take, List.drop_range', Nat.zero_add, Nat.mul_one,
    List.take_range'_of_length_ge (by omega)]

theorem bytes_getD {l : List UInt8} {i n : ℕ} (h : i + n ≤ l.length) :
    bytes (fun j => l.getD j 0) i n = (l.drop i).take n := by
  apply List.ext_getElem
  · simp only [bytes_length, List.length_take, List.length_drop]
    omega
  · intro k h1 h2
    rw [bytes_length] at h1
    simp only [bytes, List.getElem_map, List.getElem_range', List.getElem_take, List.getElem_drop, Nat.one_mul]
    exact List.getD_eq_getElem _ _ (by omega)

/-- Word `i`, at offset `2 * i`. -/
def word (g : ℕ → UInt8) (i : ℕ) : ℕ := 256 * (g (i * 2)).toNat + (g (i * 2 + 1)).toNat

/-- The plain sum of the words `lo ≤ i < hi`. -/
def wordSum (g : ℕ → UInt8) (lo hi : ℕ) : ℕ := ∑ i ∈ Finset.Ico lo hi, word g i

theorem word_le (g : ℕ → UInt8) (i : ℕ) : word g i ≤ 0xffff := by
  have h1 := (g (i * 2)).toNat_lt
  have h2 := (g (i * 2 + 1)).toNat_lt
  unfold word
  omega

theorem wordSum_le (g : ℕ → UInt8) (lo hi : ℕ) : wordSum g lo hi ≤ (hi - lo) * 0xffff := by
  have h := Finset.sum_le_card_nsmul (Finset.Ico lo hi) (word g) 0xffff fun i _ => word_le g i
  rwa [Nat.card_Ico, smul_eq_mul] at h

theorem wordSum_congr (h : ∀ j, lo * 2 ≤ j → j < hi * 2 → g j = g' j) : wordSum g lo hi = wordSum g' lo hi := by
  apply Finset.sum_congr rfl
  intro i hi'
  rw [Finset.mem_Ico] at hi'
  unfold word
  rw [h (i * 2) (by omega) (by omega), h (i * 2 + 1) (by omega) (by omega)]

theorem wordSum_append {mid : ℕ} (h1 : lo ≤ mid) (h2 : mid ≤ hi) :
    wordSum g lo hi = wordSum g lo mid + wordSum g mid hi :=
  (Finset.sum_Ico_consecutive (word g) h1 h2).symm

theorem wordSum_pos (h1 : lo ≤ k) (h2 : k < hi) (h : 0 < word g k) : 0 < wordSum g lo hi :=
  lt_of_lt_of_le h (Finset.single_le_sum (fun _ _ => Nat.zero_le _) (Finset.mem_Ico.2 ⟨h1, h2⟩))

/-- The words of a range of bytes that starts at an even offset. -/
theorem words_bytes_even (g : ℕ → UInt8) (lo n : ℕ) :
    (words (bytes g (lo * 2) (n * 2))).sum = wordSum g lo (lo + n) := by
  induction n generalizing lo with
  | zero => simp [bytes, words, wordSum]
  | succ n ih =>
    have hb : bytes g (lo * 2) ((n + 1) * 2) =
        g (lo * 2) :: g (lo * 2 + 1) :: bytes g ((lo + 1) * 2) (n * 2) := by
      unfold bytes
      rw [show (n + 1) * 2 = n * 2 + 1 + 1 by omega, List.range'_succ, List.range'_succ,
        show lo * 2 + 1 + 1 = (lo + 1) * 2 by omega]
      rfl
    rw [hb, words, List.sum_cons, ih, wordSum_append (show lo ≤ lo + 1 by omega) (by omega),
      show lo + 1 + n = lo + (n + 1) by omega]
    simp [wordSum, word]

theorem words_bytes_odd (g : ℕ → UInt8) (lo n : ℕ) :
    (words (bytes g (lo * 2) (n * 2 + 1))).sum = wordSum g lo (lo + n) + 256 * (g ((lo + n) * 2)).toNat := by
  have hb : bytes g (lo * 2) (n * 2 + 1) = bytes g (lo * 2) (n * 2) ++ [g ((lo + n) * 2)] := by
    unfold bytes
    rw [List.range'_concat, List.map_append, Nat.add_mul, Nat.one_mul]
    rfl
  rw [hb, words_append (by simp), List.sum_append, words_bytes_even]
  simp [words]

/-! ## Storing a checksum -/

/-- The complement of the folded sum. -/
def complement (n : ℕ) : ℕ := 0xffff - fold 0xffff (fold 0xffff n)

/-- The bytes `g` with the complement of the sum of `c` and the words `lo ≤ i < hi` in
word `k`. -/
def store (c : ℕ) (g : ℕ → UInt8) (k lo hi : ℕ) (j : ℕ) : UInt8 :=
  if j = k * 2 then UInt8.ofNat (complement (c + wordSum g lo hi) / 256)
  else if j = k * 2 + 1 then UInt8.ofNat (complement (c + wordSum g lo hi) % 256)
  else g j

theorem store_of_ne {j : ℕ} (h1 : j ≠ k * 2) (h2 : j ≠ k * 2 + 1) : store c g k lo hi j = g j := by
  unfold store
  rw [if_neg h1, if_neg h2]

theorem store_congr {n : ℕ} (hn : hi * 2 ≤ n) (h : ∀ j < n, g j = g' j) :
    ∀ j < n, store c g k lo hi j = store c g' k lo hi j := by
  intro j hj
  have hsum : wordSum g lo hi = wordSum g' lo hi := wordSum_congr fun i _ hi' => h i (by omega)
  unfold store
  rw [hsum, h j hj]

/-- The words that the stored one is not among stay. -/
theorem wordSum_store_of_le {a b : ℕ} (h : b ≤ k ∨ k < a) : wordSum (store c g k lo hi) a b = wordSum g a b :=
  wordSum_congr fun _ _ _ => store_of_ne (by omega) (by omega)

theorem word_store (c : ℕ) (g : ℕ → UInt8) (k lo hi : ℕ) :
    word (store c g k lo hi) k = complement (c + wordSum g lo hi) := by
  have hle : complement (c + wordSum g lo hi) ≤ 0xffff := Nat.sub_le _ _
  unfold word store
  rw [if_pos rfl, if_neg (by omega), if_pos rfl, UInt8.toNat_ofNat', UInt8.toNat_ofNat']
  omega

/-- **A message whose checksum has been stored in a zero word checks.** -/
theorem dvd_wordSum_store (hk : lo ≤ k) (hk' : k < hi) (h0 : word g k = 0)
    (h : c + wordSum g lo hi < 2 ^ 32) :
    0xffff ∣ c + wordSum (store c g k lo hi) lo hi ∧ 0 < c + wordSum (store c g k lo hi) lo hi := by
  have hrest : ∑ i ∈ (Finset.Ico lo hi).erase k, word (store c g k lo hi) i =
      ∑ i ∈ (Finset.Ico lo hi).erase k, word g i := by
    apply Finset.sum_congr rfl
    intro i hi'
    have hne := Finset.ne_of_mem_erase hi'
    unfold word
    rw [store_of_ne (by omega) (by omega), store_of_ne (by omega) (by omega)]
  have hmem : k ∈ Finset.Ico lo hi := Finset.mem_Ico.2 ⟨hk, hk'⟩
  have hold : wordSum g lo hi = word g k + ∑ i ∈ (Finset.Ico lo hi).erase k, word g i :=
    (Finset.add_sum_erase _ _ hmem).symm
  have hnew : c + wordSum (store c g k lo hi) lo hi =
      c + wordSum g lo hi + complement (c + wordSum g lo hi) := by
    have hsum : wordSum (store c g k lo hi) lo hi = word (store c g k lo hi) k +
        ∑ i ∈ (Finset.Ico lo hi).erase k, word (store c g k lo hi) i :=
      (Finset.add_sum_erase _ _ hmem).symm
    rw [hsum, hrest, word_store]
    omega
  rw [hnew]
  exact dvd_add_complement (by decide) h

end

end Urchin.Inet
