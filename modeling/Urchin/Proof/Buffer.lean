import Urchin.Spec.Buffer

/-!
# Page rounding and buffer allocation

`Buffer::new` and `Virtqueue::new` round a size up to whole pages with the same
formula, `((x - 1) / 4096 + 1) * 4096`. Away from the two ends of `usize` it does
not wrap (`pageRound_toNat`), and the layout it is asked for is accepted. At both ends
the formula gives zero: `Buffer::new` has `room size` bytes for any size (`new_room`).
-/

namespace Urchin

/-- Rounding up to whole pages wraps once, in the multiplication. -/
theorem pageRound_mod (x : UInt64) : ((x / 4096 + 1) * 4096).toNat = (x.toNat / 4096 + 1) * 4096 % 2 ^ 64 := by
  have hlt := x.toNat_lt
  rw [UInt64.toNat_mul, UInt64.toNat_add, UInt64.toNat_div]
  simp only [UInt64.reduceToNat]
  omega

/-- Rounding up to whole pages, below the range where it wraps. -/
theorem pageRound_toNat {x : UInt64} {n : ℕ} (hx : x.toNat = n) (hn : n < 2 ^ 63) :
    ((x / 4096 + 1) * 4096).toNat = (n / 4096 + 1) * 4096 := by
  rw [pageRound_mod, hx, Nat.mod_eq_of_lt (by omega)]

/-- Whole pages that fit the address space make a layout. -/
theorem fromSizeAlign_page {x : UInt64} (hx : x.toNat ≤ 2 ^ 64 - 4096) :
    Layout.fromSizeAlign x 4096 = some ⟨x, 4096⟩ := by
  apply if_pos
  refine ⟨by decide, by decide, ?_⟩
  rw [UInt64.le_iff_toNat_le]
  exact hx

namespace Buffer

/-- The bytes allocated for a size: its pages, and nothing where rounding up wraps. -/
def room (size : UInt64) : ℕ :=
  if size.toNat ≤ 2 ^ 64 - 4096 then (size.toNat + 4095) / 4096 * 4096 else 0

theorem pageRound_room (size : UInt64) : (((size - 1) / 4096 + 1) * 4096).toNat = room size := by
  have hlt := size.toNat_lt
  have hpred : (size - 1).toNat = if size.toNat = 0 then 2 ^ 64 - 1 else size.toNat - 1 := by
    rw [UInt64.toNat_sub]
    simp only [UInt64.reduceToNat]
    split <;> omega
  rw [pageRound_mod, hpred]
  unfold room
  -- the two ends of `usize` are the sizes whose pages wrap to zero
  split <;> split <;> omega

/-- **`Buffer::new` never reports an error**, whatever it could allocate, with a `from_size_align`
that refuses only what rounding up takes past `usize`. (One that refuses all sizes above
`isize::MAX`, as in newer toolchains, makes it report them.) -/
theorem new_room (size : UInt64) (blk : Block) :
    ∃ b, Buffer.new size 4096 blk = .ok b ∧ b.position = 0 ∧ b.getSize = size ∧ b.sliceLen = room size := by
  have hround := pageRound_room size
  have hroom : room size ≤ 2 ^ 64 - 4096 := by
    unfold room
    split <;> omega
  refine ⟨⟨blk.ptr, size, 0, ⟨((size - 1) / 4096 + 1) * 4096, 4096⟩, blk.bytes⟩, ?_, rfl, rfl, ?_⟩
  · unfold Buffer.new
    simp only [fromSizeAlign_page (show (((size - 1) / 4096 + 1) * 4096).toNat ≤ 2 ^ 64 - 4096 by
      rw [hround]; exact hroom)]
  · unfold Buffer.sliceLen
    simpa using hround

end Buffer

end Urchin
