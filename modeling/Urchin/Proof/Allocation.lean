import Urchin.Proof.Xmit

/-!
# Sizes at the end of `usize`

`Buffer::new` reports success for every size, and `pre_xmit` adds its header to the
size without a check. `buffer_holds_iff` says for which sizes the buffer is as large
as asked. The rest wrap: up to a page below `2 ^ 64` the allocation is empty, and
`pre_xmit` of one of the eleven largest sizes is a buffer of one page
(`preXmit_small`).
-/

namespace Urchin

open Exec VirtioNet

namespace Buffer

theorem le_room_iff (size : UInt64) : size.toNat ≤ room size ↔ size.toNat ≤ 2 ^ 64 - 4096 := by
  unfold room
  split <;> omega

/-- Where the header still fits in the last page, so does the frame. -/
theorem le_room_header {s : UInt64} (h : s.toNat + 12 ≤ 2 ^ 64 - 4096) : s.toNat + 12 ≤ room (s + 12) := by
  have hadd : (s + 12).toNat = (s.toNat + 12) % 2 ^ 64 := UInt64.toNat_add ..
  rw [Nat.mod_eq_of_lt (by omega)] at hadd
  rw [← hadd] at h ⊢
  exact (le_room_iff _).2 h

/-- Beyond that, either the pages wrap or the header does. -/
theorem room_header_wraps {s : UInt64} (h : 2 ^ 64 - 4096 < s.toNat + 12) :
    room (s + 12) = 0 ∨ room (s + 12) = 4096 ∧ 2 ^ 64 - 12 < s.toNat := by
  have hlt := s.toNat_lt
  have hadd : (s + 12).toNat = (s.toNat + 12) % 2 ^ 64 := UInt64.toNat_add ..
  unfold room
  rw [hadd]
  rcases Nat.lt_or_ge (2 ^ 64 - 12) s.toNat with hend | hend
  · exact .inr ⟨by rw [if_pos (by omega)]; omega, hend⟩
  · left
    split <;> omega

end Buffer

open Buffer

/-- Without room for the virtio header, clearing it runs out of the slice. -/
theorem preXmit_empty {s : UInt64} (h : room (s + 12) = 0) (blk : Block) : preXmit s blk = .error .bounds := by
  obtain ⟨b, hnew, -, -, hlen⟩ := new_room (s + 12) blk
  have hwrite : b.write 0 0x00 = .error .bounds := if_neg (by rw [hlen, h]; exact Nat.lt_irrefl 0)
  unfold preXmit ALIGN
  simp only [hnew, forRange, rounds, hwrite, bind, Except.bind]

/-- The largest sizes wrap to less than a header, and get one page. -/
theorem preXmit_small {s : UInt64} (h : room (s + 12) = 4096) (blk : Block) :
    ∃ b, preXmit s blk = .ok b ∧ b.sliceLen = 4084 := by
  obtain ⟨b, hb, -, -, hlen, -⟩ := preXmit_room s blk (by omega)
  exact ⟨b, hb, by rw [hlen, h]⟩

/-- **When a buffer is as large as asked**: `Buffer::new` for a size, and `pre_xmit` for
the size of a frame. -/
theorem buffer_holds_iff (blk : Block) :
    (∀ size, (∀ b, Buffer.new size 4096 blk = .ok b → size.toNat ≤ b.sliceLen) ↔
      size.toNat ≤ 2 ^ 64 - 4096) ∧
    ∀ s, (preXmit s blk = .error (.explicit "something wrong") ∨
      ∃ b, preXmit s blk = .ok b ∧ b.position = 12 ∧ s.toNat ≤ b.sliceLen) ↔
        s.toNat + 12 ≤ 2 ^ 64 - 4096 := by
  refine ⟨fun size => ?_, fun s => ⟨fun h => ?_, fun h => ?_⟩⟩
  · obtain ⟨b, hnew, -, -, hlen⟩ := new_room size blk
    rw [← le_room_iff, ← hlen]
    refine ⟨fun h => h b hnew, fun h b' hb' => ?_⟩
    rw [← Except.ok.inj (hnew.symm.trans hb')]
    exact h
  · by_contra hlt
    rcases room_header_wraps (s := s) (by omega) with hroom | ⟨hroom, hend⟩
    · rw [preXmit_empty hroom blk] at h
      rcases h with h | ⟨b, h, -⟩
      · cases h
      · cases h
    · obtain ⟨b, hb, hlen⟩ := preXmit_small hroom blk
      rw [hb] at h
      rcases h with h | ⟨b', h, -, hle⟩
      · cases h
      · rw [← Except.ok.inj h] at hle
        omega
  · have hle := le_room_header h
    obtain ⟨b, hb, hpos, -, hlen, -⟩ := preXmit_room s blk (by omega)
    exact .inr ⟨b, hb, hpos, by omega⟩

/-- The largest size: `Buffer::new` succeeds with no bytes, and `pre_xmit`, which wraps,
with less than a page. -/
theorem buffer_too_small :
    (∃ b, Buffer.new 0xffffffffffffffff 4096 (pages 0) = .ok b ∧ b.sliceLen = 0 ∧
      b.sliceLen < (0xffffffffffffffff : UInt64).toNat) ∧
    ∃ b, preXmit 0xffffffffffffffff (pages 0) = .ok b ∧ b.sliceLen = 4084 ∧
      b.sliceLen < (0xffffffffffffffff : UInt64).toNat := by
  obtain ⟨b, hb, -, -, hlen⟩ := new_room 0xffffffffffffffff (pages 0)
  have hempty : b.sliceLen = 0 := by rw [hlen]; decide
  obtain ⟨b', hb', hlen'⟩ := preXmit_small (s := 0xffffffffffffffff) (by decide) (pages 0)
  exact ⟨⟨b, hb, hempty, by rw [hempty]; decide⟩, b', hb', hlen', by rw [hlen']; decide⟩

end Urchin
