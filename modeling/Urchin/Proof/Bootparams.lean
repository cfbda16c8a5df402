import Urchin.Spec.Bootparams

/-!
# Finding the command line

A line is a run of bytes other than zero with a zero after it (`LineAt`). The loop of
`get_cmdline` stops one byte before the place of the zero that ends a line of the
largest size, so such a line is not found, and `start_rust` panics
(`startRust_longest`). Every other line is (`getCmdline_iff`).
-/

namespace Urchin.Bootparams

open Exec Stack

variable {m : Memory} {p : BitVec 64}

/-- The bytes of a line, and the zero that ends it, at `cmd_line_ptr`. -/
structure LineAt (m : Memory) (p : BitVec 64) (line : List (BitVec 8)) : Prop where
  byte : (List.range line.length).map (cmdLineByte m p) = line
  nonzero : ∀ i < line.length, cmdLineByte m p i ≠ 0
  ends : cmdLineByte m p line.length = 0

/-- What a boot loader relies on. -/
structure Finds (m : Memory) (p : BitVec 64) : Prop where
  found : ∀ line, LineAt m p line → line.length ≤ cmdLineSize m p → getCmdline m p = some line
  missing : (∀ i < cmdLineSize m p + 1, cmdLineByte m p i ≠ 0) → getCmdline m p = none

theorem getCmdline_eq_some {line : List (BitVec 8)} (h : LineAt m p line) (hlt : line.length < cmdLineSize m p) :
    getCmdline m p = some line := by
  have hfind : (List.range (cmdLineSize m p)).find? (fun i => cmdLineByte m p i == 0) = some line.length := by
    rw [List.find?_range_eq_some, List.mem_range]
    exact ⟨beq_iff_eq.2 h.ends, hlt, fun i hi => by simpa using h.nonzero i hi⟩
  unfold getCmdline
  rw [hfind, Option.map_some, h.byte]

theorem getCmdline_eq_none (h : ∀ i < cmdLineSize m p, cmdLineByte m p i ≠ 0) : getCmdline m p = none := by
  unfold getCmdline
  rw [Option.map_eq_none_iff, List.find?_range_eq_none]
  exact fun i hi => by simpa using h i hi

/-- The line in front of the first zero. -/
theorem lineAt_of_first {n : ℕ} (hn : ∀ i < n, cmdLineByte m p i ≠ 0) (hz : cmdLineByte m p n = 0) :
    LineAt m p ((List.range n).map (cmdLineByte m p)) := by
  have hlen : ((List.range n).map (cmdLineByte m p)).length = n := by
    rw [List.length_map, List.length_range]
  exact ⟨by rw [hlen], by rw [hlen]; exact hn, by rw [hlen]; exact hz⟩

/-- **Where the command line is found**: everywhere but where the first zero is right
behind `cmd_line_size` bytes. -/
theorem getCmdline_iff (m : Memory) (p : BitVec 64) :
    Finds m p ↔ ¬ ((∀ i < cmdLineSize m p, cmdLineByte m p i ≠ 0) ∧ cmdLineByte m p (cmdLineSize m p) = 0) := by
  constructor
  · rintro h ⟨hn, hz⟩
    have hsome := h.found _ (lineAt_of_first hn hz) (by rw [List.length_map, List.length_range])
    rw [getCmdline_eq_none hn] at hsome
    cases hsome
  · intro h
    refine ⟨fun line hline hle => ?_, fun hn => getCmdline_eq_none fun i hi => hn i (by omega)⟩
    rcases Nat.eq_or_lt_of_le hle with heq | hlt
    · -- a line of the largest size is what the condition excludes
      refine absurd ⟨?_, ?_⟩ h
      · rw [← heq]
        exact hline.nonzero
      · rw [← heq]
        exact hline.ends
    · exact getCmdline_eq_some hline hlt

/-- A block with its two marks, whose command line is not found, stops the boot. -/
theorem startRust_none (hflag : getBootFlag m p = 0xaa55) (hheader : getHeader m p = 0x53726448)
    (h : getCmdline m p = none) :
    startRust m p = .error (.explicit "Couldn't get cmdline. something wrong.") := by
  unfold startRust
  rw [if_neg (not_not.2 hflag), if_neg (not_not.2 hheader), h]

/-- A block at address zero, with the line "abc" at `0x1000` and three bytes for it. -/
def longest : Memory :=
  let m : Memory := fun _ => 0
  let m := store m 0x01fe (0xaa55 : BitVec 16)
  let m := store m 0x0202 (0x53726448 : BitVec 32)
  let m := store m 0x0228 (0x1000 : BitVec 32)
  let m := store m 0x0238 (3 : BitVec 32)
  store m 0x1000 (0x636261 : BitVec 24)

/-- A line of the largest size is not found. -/
theorem startRust_longest : LineAt longest 0 [0x61, 0x62, 0x63] ∧ cmdLineSize longest 0 = 3 ∧
    getCmdline longest 0 = none ∧
    startRust longest 0 = .error (.explicit "Couldn't get cmdline. something wrong.") := by
  have hsize : cmdLineSize longest 0 = 3 := by decide +kernel
  have hline : LineAt longest 0 [0x61, 0x62, 0x63] := ⟨by decide +kernel, by decide +kernel, by decide +kernel⟩
  have hnone : getCmdline longest 0 = none := getCmdline_eq_none (by rw [hsize]; exact hline.nonzero)
  exact ⟨hline, hsize, hnone, startRust_none (by decide +kernel) (by decide +kernel) hnone⟩

end Urchin.Bootparams
