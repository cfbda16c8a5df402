import Urchin.Inet.Checksum
import Urchin.Proof.Buffer
import Urchin.Spec.World

/-!
# Building a transmit buffer

One lemma for each thing the nodes do with a slice: indexing (`read_ok`, `write_ok`),
storing a header (`overlay_ok`), copying a range (`copyLoop_ok`), summing one
(`csumLoop_ok`), and getting a buffer to work on (`preXmit_ok`). Everything but the
bytes of a buffer stays as it is (`Alike`).
-/

namespace Urchin

open Exec Inet

namespace Buffer

/-- The buffers differ in their bytes only. -/
structure Alike (b b' : Buffer) : Prop where
  bufferPtr : b'.bufferPtr = b.bufferPtr
  size : b'.size = b.size
  position : b'.position = b.position
  layout : b'.layout = b.layout

theorem Alike.refl (b : Buffer) : b.Alike b := ⟨rfl, rfl, rfl, rfl⟩

theorem Alike.trans {b b' b'' : Buffer} (h : b.Alike b') (h' : b'.Alike b'') : b.Alike b'' :=
  ⟨h'.bufferPtr.trans h.bufferPtr, h'.size.trans h.size, h'.position.trans h.position,
    h'.layout.trans h.layout⟩

theorem Alike.sliceLen {b b' : Buffer} (h : b.Alike b') : b'.sliceLen = b.sliceLen := by
  unfold Buffer.sliceLen
  rw [h.layout, h.position]

variable {b : Buffer} {i : ℕ}

theorem alike_poke (b : Buffer) (i : ℕ) (l : List UInt8) : b.Alike (b.poke i l) := ⟨rfl, rfl, rfl, rfl⟩

theorem read_ok (h : i < b.sliceLen) : b.read i = .ok (b.peek i) := if_pos h

theorem read_error (h : b.sliceLen ≤ i) : b.read i = .error .bounds := if_neg (by omega)

theorem read_eq_ok {v : UInt8} (h : b.read i = .ok v) : v = b.peek i := by
  unfold read at h
  split at h
  · exact (Except.ok.inj h).symm
  · cases h

theorem write_ok (h : i < b.sliceLen) (v : UInt8) : b.write i v = .ok (b.poke i [v]) := if_pos h

theorem overlay_ok (h : i < b.sliceLen) (l : List UInt8) : b.overlay i l = .ok (b.poke i l) := if_pos h

theorem array_ok {N : ℕ} (h : i + N ≤ b.sliceLen) : b.array i N = .ok (b.field i N) := if_pos h

theorem peek_poke (b : Buffer) (i j : ℕ) (l : List UInt8) :
    (b.poke i l).peek j = if i ≤ j ∧ j < i + l.length then l.getD (j - i) 0 else b.peek j := by
  unfold peek poke
  simp only
  by_cases h : i ≤ j ∧ j < i + l.length
  · rw [if_pos h, if_pos (by omega)]
    congr 1
    omega
  · rw [if_neg h, if_neg (by omega)]

/-- The buffers have the same bytes in front of the slice of the first. -/
def SameFront (b b' : Buffer) : Prop := ∀ k < b.position.toNat, b'.mem k = b.mem k

theorem SameFront.poke {b b' : Buffer} (h : b.SameFront b') (ha : b.Alike b') (i : ℕ) (l : List UInt8) :
    b.SameFront (b'.poke i l) := by
  intro k hk
  rw [← h k hk]
  unfold Buffer.poke
  simp only
  rw [if_neg (by rw [ha.position]; omega)]

/-- Bytes stored right behind others. -/
theorem poke_poke (b : Buffer) {i k : ℕ} {l l' : List UInt8} (hk : k = i + l.length) :
    (b.poke i l).poke k l' = b.poke i (l ++ l') := by
  subst hk
  unfold poke
  simp only [Buffer.mk.injEq, true_and, List.length_append]
  funext j
  by_cases h1 : j < b.position.toNat + i + l.length
  · rw [if_neg (by omega)]
    by_cases h2 : b.position.toNat + i ≤ j
    · rw [if_pos (by omega), if_pos (by omega), List.getD_append _ _ _ _ (by omega)]
    · rw [if_neg (by omega), if_neg (by omega)]
  · by_cases h2 : j < b.position.toNat + i + l.length + l'.length
    · rw [if_pos (by omega), if_pos (by omega), List.getD_append_right _ _ _ _ (by omega)]
      congr 1
      omega
    · rw [if_neg (by omega), if_neg (by omega), if_neg (by omega)]

/-- A header laid right behind others. -/
theorem overlay_next (b : Buffer) {i k : ℕ} {l : List UInt8} (hk : k = i + l.length) (h : k < b.sliceLen)
    (l' : List UInt8) : (b.poke i l).overlay k l' = .ok (b.poke i (l ++ l')) := by
  rw [overlay_ok (by rw [poke_sliceLen]; exact h), poke_poke b hk]

end Buffer

/-! ## Loops -/

section

variable {slice r : Buffer} {hi : ℕ}

/-- **Copying a range** that is inside both slices. -/
theorem copyLoop_ok (lo : ℕ) (hs : hi ≤ slice.sliceLen) (hr : hi ≤ r.sliceLen) :
    ∃ r', copyLoop slice lo hi r = .ok r' ∧ r.Alike r' ∧ r.SameFront r' ∧
      ∀ j, r'.peek j = if lo ≤ j ∧ j < hi then slice.peek j else r.peek j := by
  rcases Nat.lt_or_ge hi lo with hlt | hle
  · refine ⟨r, ?_, .refl r, fun _ _ => rfl, fun j => by rw [if_neg (by omega)]⟩
    unfold copyLoop forRange
    rw [show hi - lo = 0 by omega]
    rfl
  -- before round `i`, the bytes from `lo` up to `i` are copied
  refine forRange_ok (P := fun i r' => r.Alike r' ∧ r.SameFront r' ∧
    ∀ j, r'.peek j = if lo ≤ j ∧ j < i then slice.peek j else r.peek j) hle ?_
    ⟨.refl r, fun _ _ => rfl, fun j => by rw [if_neg (by omega)]⟩
  rintro i r' h1 h2 ⟨halike, hfront, hpeek⟩
  refine ⟨r'.poke i [slice.peek i], ?_, halike.trans (r'.alike_poke _ _), hfront.poke halike _ _, fun j => ?_⟩
  · simp only [Buffer.read_ok (show i < slice.sliceLen by omega), bind, Except.bind]
    exact Buffer.write_ok (by rw [halike.sliceLen]; omega) _
  · rw [Buffer.peek_poke, hpeek, List.length_singleton]
    by_cases hj : j = i
    · subst hj
      rw [if_pos (by omega), if_pos (by omega)]
      simp
    · rw [if_neg (by omega)]
      by_cases hlt : lo ≤ j ∧ j < i
      · rw [if_pos hlt, if_pos (by omega)]
      · rw [if_neg hlt, if_neg (by omega)]

/-- A range that runs past the end of the source is not copied. -/
theorem copyLoop_ne_ok {lo : ℕ} {r' : Buffer} (h1 : lo ≤ slice.sliceLen) (h2 : slice.sliceLen < hi) :
    copyLoop slice lo hi r ≠ .ok r' := by
  intro h
  obtain ⟨r₁, r₂, hround⟩ := forRange_round h h1 h2
  simp only [Buffer.read_error le_rfl, bind, Except.bind] at hround
  cases hround

/-- A word of two bytes, as the checksum loops make it. -/
theorem csumWord_toNat (x y : UInt8) : (x.toUInt32 <<< 8 ||| y.toUInt32).toNat = 256 * x.toNat + y.toNat := by
  have h1 := x.toNat_lt
  have h2 := y.toNat_lt
  rw [UInt32.toNat_or, UInt32.toNat_shiftLeft, UInt8.toNat_toUInt32, UInt8.toNat_toUInt32]
  simp only [UInt32.reduceToNat, Nat.reduceMod]
  rw [Nat.mod_eq_of_lt (by rw [Nat.shiftLeft_eq]; omega), Nat.shiftLeft_eq, mul_comm]
  exact (Nat.two_pow_add_eq_or_of_lt (i := 8) h2 x.toNat).symm

/-- **Summing the words of a range** that is inside the slice: the sum is in 32 bits. -/
theorem csumLoop_ok (lo : ℕ) (h : hi * 2 ≤ r.sliceLen) (c : UInt32) :
    ∃ c', csumLoop r lo hi c = .ok c' ∧ c'.toNat = (c.toNat + wordSum r.peek lo hi) % 2 ^ 32 := by
  have hempty : ∀ k ≤ lo, c.toNat = (c.toNat + wordSum r.peek lo k) % 2 ^ 32 := by
    intro k hk
    rw [wordSum, Finset.Ico_eq_empty_of_le hk, Finset.sum_empty, Nat.add_zero, Nat.mod_eq_of_lt c.toNat_lt]
  rcases Nat.lt_or_ge hi lo with hlt | hle
  · refine ⟨c, ?_, hempty hi (by omega)⟩
    unfold csumLoop forRange
    rw [show hi - lo = 0 by omega]
    rfl
  refine forRange_ok (P := fun i (c' : UInt32) => c'.toNat = (c.toNat + wordSum r.peek lo i) % 2 ^ 32) hle ?_ (hempty lo le_rfl)
  intro i c' h1 h2 hc'
  refine ⟨c' + ((r.peek (i * 2)).toUInt32 <<< 8 ||| (r.peek (i * 2 + 1)).toUInt32), ?_, ?_⟩
  · simp only [Buffer.read_ok (show i * 2 < r.sliceLen by omega),
      Buffer.read_ok (show i * 2 + 1 < r.sliceLen by omega), bind, Except.bind]
  · have hsum : wordSum r.peek lo (i + 1) = wordSum r.peek lo i + word r.peek i :=
      Finset.sum_Ico_succ_top h1 _
    have hword : ((r.peek (i * 2)).toUInt32 <<< 8 ||| (r.peek (i * 2 + 1)).toUInt32).toNat = word r.peek i :=
      csumWord_toNat _ _
    rw [UInt32.toNat_add, hword, hc', hsum, Nat.mod_add_mod, Nat.add_assoc]

end

/-! ## `pre_xmit` -/

/-- **The virtio header is cleared**, byte by byte, where there is room for it. -/
theorem clearHeader_ok {b : Buffer} (hpos : b.position = 0) (hlen : 12 ≤ b.sliceLen) :
    ∃ b', forRange 0 12 (fun i b => b.write i 0x00) b = .ok b' ∧ b.Alike b' ∧ ∀ k < 12, b'.mem k = 0 := by
  refine forRange_ok (P := fun i b' => b.Alike b' ∧ ∀ k < i, b'.mem k = 0) (Nat.zero_le 12) ?_
    ⟨.refl b, fun k hk => absurd hk (Nat.not_lt_zero k)⟩
  rintro i b' _ hi ⟨halike, hmem⟩
  refine ⟨_, Buffer.write_ok (by rw [halike.sliceLen]; omega) _, halike.trans (b'.alike_poke _ _), ?_⟩
  intro k hk
  have hpos' : b'.position.toNat = 0 := by rw [halike.position, hpos]; rfl
  unfold Buffer.poke
  simp only [hpos', List.length_singleton, Nat.zero_add]
  by_cases hki : k = i
  · subst hki; rw [if_pos (by omega)]; simp
  · rw [if_neg (by omega)]; exact hmem k (by omega)

theorem slidePosition_sliceLen {b : Buffer} (hpos : b.position = 0) {d : UInt64} (hd : d.toNat ≤ b.sliceLen) :
    (b.slidePosition d).sliceLen = b.sliceLen - d.toNat := by
  have hsize : b.sliceLen = b.layout.size.toNat := by
    unfold Buffer.sliceLen
    rw [hpos, UInt64.sub_zero]
  rw [hsize] at hd ⊢
  unfold Buffer.sliceLen Buffer.slidePosition
  simp only [hpos, UInt64.zero_add]
  exact UInt64.toNat_sub_of_le _ _ (UInt64.le_iff_toNat_le.2 hd)

/-- `pre_xmit` returns what is allocated beyond the cleared virtio header. -/
theorem preXmit_room (size : UInt64) (blk : Block) (h : 12 ≤ Buffer.room (size + 12)) :
    ∃ r, VirtioNet.preXmit size blk = .ok r ∧ r.position = 12 ∧ r.getSize = size + 12 ∧
      r.sliceLen = Buffer.room (size + 12) - 12 ∧ ∀ k < 12, r.mem k = 0 := by
  obtain ⟨b, hnew, hpos, hsize, hlen⟩ := Buffer.new_room (size + 12) blk
  obtain ⟨b', hb', halike, hmem⟩ := clearHeader_ok hpos (by rw [hlen]; exact h)
  have hpos' : b'.position = 0 := halike.position.trans hpos
  have hlen' : b'.sliceLen = Buffer.room (size + 12) := halike.sliceLen.trans hlen
  refine ⟨b'.slidePosition 12, ?_, ?_, halike.size.trans hsize, ?_, hmem⟩
  · unfold VirtioNet.preXmit ALIGN
    simp only [hnew, hb', bind, Except.bind]
  · unfold Buffer.slidePosition
    rw [hpos']
    rfl
  · rw [slidePosition_sliceLen hpos' (by rw [hlen']; exact h), hlen']
    rfl

/-- **`pre_xmit` serves any size** away from the end of `usize`: the slice has room
for the frame, and the device will read the frame and the cleared virtio header. -/
theorem preXmit_ok (size : UInt64) (h : size.toNat < 2 ^ 62) (blk : Block) :
    ∃ r, VirtioNet.preXmit size blk = .ok r ∧ r.position = 12 ∧ r.getSize = size + 12 ∧
      size.toNat ≤ r.sliceLen ∧ 4084 ≤ r.sliceLen ∧ ∀ k < 12, r.mem k = 0 := by
  have hadd : (size + 12).toNat = size.toNat + 12 := by
    rw [UInt64.toNat_add]
    simp only [UInt64.reduceToNat]
    omega
  have hroom : Buffer.room (size + 12) = (size.toNat + 12 + 4095) / 4096 * 4096 := by
    unfold Buffer.room
    rw [hadd, if_pos (by omega)]
  obtain ⟨r, hr, hpos, hsize, hlen, hmem⟩ := preXmit_room size blk (by omega)
  exact ⟨r, hr, hpos, hsize, by omega, by omega, hmem⟩

end Urchin
