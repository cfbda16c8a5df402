import Urchin.Seqlock.Versioned
import Urchin.Spec.Kvmclock

/-!
# Reading the clock while the host writes

The host updates the records of the clock under a version, at any moments between the reads
of a copy (`Seqlock.Run`). `get_monotonic_time` and the loop of `get_calendar` test the
versions differently, but both leave only if the version was even when the copy began and
is the same afterwards. So what they use is one record the host has published
(`clock_reads_whole`).

The time stamp counter is read once, before the loop. A record that is published after that
has a later time stamp, and the difference wraps: it does not exactly if no update is
completed between the two reads (`tsc_difference_iff`).
-/

namespace Urchin

open Exec Seqlock

/-! ## The loops -/

theorem even_of_and_one {v : UInt32} (h : v &&& 1 = 0) : Even v.toNat := by
  have hand : (v &&& 1).toNat = v.toNat % 2 := by
    rw [UInt32.toNat_and]
    exact Nat.and_one_is_mod _
  rw [h] at hand
  exact Nat.even_iff.2 hand.symm

/-- The low bit is cleared, so the version does not grow. -/
theorem and_not_one_le (v : UInt32) : (v &&& ~~~1).toNat ≤ v.toNat := by
  rw [UInt32.toNat_and]
  exact Nat.and_le_left

/-- Round `n` of `get_monotonic_time` leaves the loop. -/
def MonotonicExits (reads : ℕ → PVClockVcpuTimeInfo) (n : ℕ) : Prop :=
  (reads (2 * n + 1)).version &&& 1 = 0 ∧ (reads (2 * n + 1)).version = (reads (2 * n)).version &&& ~~~1

/-- Round `n` of the loop of `get_calendar` leaves it. -/
def WallClockExits (reads : ℕ → PVClockWallClock) (n : ℕ) : Prop :=
  (reads (2 * n + 1)).version &&& 1 = 0 ∧ (reads (2 * n + 1)).version = (reads (2 * n)).version

/-- The result is made from the first read of the first round that leaves the loop. -/
theorem getMonotonicTime_some {nowtsc : UInt64} {fuel : ℕ} {reads : ℕ → PVClockVcpuTimeInfo} {ret : UInt64}
    (h : getMonotonicTime nowtsc fuel reads = some ret) :
    ∃ n < fuel, MonotonicExits reads n ∧ (∀ m < n, ¬ MonotonicExits reads m) ∧ ret = (reads (2 * n)).scaled nowtsc := by
  induction fuel generalizing reads with
  | zero => cases h
  | succ fuel ih =>
    by_cases hexit : MonotonicExits reads 0
    · refine ⟨0, Nat.succ_pos fuel, hexit, fun m hm => absurd hm (Nat.not_lt_zero m), ?_⟩
      unfold getMonotonicTime at h
      simp only at h
      rw [if_neg (not_not.2 hexit.1), if_neg (not_not.2 hexit.2)] at h
      exact (Option.some.inj h).symm
    · have hrest : getMonotonicTime nowtsc fuel (fun i => reads (i + 2)) = some ret := by
        unfold getMonotonicTime at h
        simp only at h
        split at h
        · exact h
        · rename_i heven
          rw [if_pos fun he => hexit ⟨not_not.1 heven, he⟩] at h
          exact h
      obtain ⟨n, hn, h1, h2, h3⟩ := ih hrest
      refine ⟨n + 1, Nat.succ_lt_succ hn, h1, fun m hm => ?_, h3⟩
      cases m with
      | zero => exact hexit
      | succ m => exact h2 m (by omega)

theorem readWallClock_some {fuel : ℕ} {reads : ℕ → PVClockWallClock} {sec nsec : UInt64}
    (h : readWallClock fuel reads = some (sec, nsec)) :
    ∃ n < fuel, WallClockExits reads n ∧ sec = (reads (2 * n)).sec.toUInt64 ∧ nsec = (reads (2 * n)).nsec.toUInt64 := by
  induction fuel generalizing reads with
  | zero => cases h
  | succ fuel ih =>
    unfold readWallClock at h
    simp only at h
    split at h
    · obtain ⟨n, hn, h1, h2⟩ := ih h
      exact ⟨n + 1, Nat.succ_lt_succ hn, h1, h2⟩
    · rename_i heven
      split at h
      · obtain ⟨n, hn, h1, h2⟩ := ih h
        exact ⟨n + 1, Nat.succ_lt_succ hn, h1, h2⟩
      · rename_i hsame
        refine ⟨0, Nat.succ_pos fuel, ⟨not_not.1 heven, not_not.1 hsame⟩, ?_⟩
        simp only [Option.some.injEq, Prod.mk.injEq] at h
        exact ⟨h.1.symm, h.2.symm⟩

/-! ## Copies of the records -/

/-- The fields of the record that are written under its version. -/
inductive InfoField where
  | tscTimestamp
  | systemTime
  | tscToSystemMul
  | tscShift
  | flags

inductive WallField where
  | sec
  | nsec

namespace PVClockVcpuTimeInfo

def ver (info : PVClockVcpuTimeInfo) : ℕ := info.version.toNat

def body (info : PVClockVcpuTimeInfo) : UInt64 × UInt64 × UInt32 × Int8 × UInt8 :=
  (info.tscTimestamp, info.systemTime, info.tscToSystemMul, info.tscShift, info.flags)

/-- The value of `read_volatile`: every field has its content of the moment it is read. -/
def copied (mem : ℕ → PVClockVcpuTimeInfo) (c : Copy InfoField) : PVClockVcpuTimeInfo where
  version := (mem c.version).version
  tscTimestamp := (mem (c.field .tscTimestamp)).tscTimestamp
  systemTime := (mem (c.field .systemTime)).systemTime
  tscToSystemMul := (mem (c.field .tscToSystemMul)).tscToSystemMul
  tscShift := (mem (c.field .tscShift)).tscShift
  flags := (mem (c.field .flags)).flags

theorem copied_eq {mem : ℕ → PVClockVcpuTimeInfo} {c : Copy InfoField} {info : PVClockVcpuTimeInfo}
    (hv : mem c.version = info) (h : ∀ i, mem (c.field i) = info) : copied mem c = info := by
  simp only [copied, hv, h]

end PVClockVcpuTimeInfo

namespace PVClockWallClock

def ver (wall : PVClockWallClock) : ℕ := wall.version.toNat

def body (wall : PVClockWallClock) : UInt32 × UInt32 := (wall.sec, wall.nsec)

def copied (mem : ℕ → PVClockWallClock) (c : Copy WallField) : PVClockWallClock where
  version := (mem c.version).version
  sec := (mem (c.field .sec)).sec
  nsec := (mem (c.field .nsec)).nsec

theorem copied_eq {mem : ℕ → PVClockWallClock} {c : Copy WallField} {wall : PVClockWallClock}
    (hv : mem c.version = wall) (h : ∀ i, mem (c.field i) = wall) : copied mem c = wall := by
  simp only [copied, hv, h]

end PVClockWallClock

section Whole

variable {start stop n : ℕ}

/-- The old version with its low bit cleared is the new one. As versions do not decrease, the
bit was clear. -/
theorem MonotonicExits.whole {mem : ℕ → PVClockVcpuTimeInfo} {copies : ℕ → Copy InfoField}
    (hrun : Run PVClockVcpuTimeInfo.ver PVClockVcpuTimeInfo.body mem start stop) (ho : Ordered start copies)
    (hstop : (copies (2 * n + 1)).version ≤ stop)
    (hexit : MonotonicExits (fun k => PVClockVcpuTimeInfo.copied mem (copies k)) n) :
    ∃ T ≤ (copies (2 * n)).version, Published PVClockVcpuTimeInfo.ver mem T ∧
      (∀ u, T ≤ u → u ≤ (copies (2 * n)).version → mem u = mem T) ∧
      PVClockVcpuTimeInfo.copied mem (copies (2 * n)) = mem T := by
  obtain ⟨heven, hmask⟩ := hexit
  have hmono : (mem (copies (2 * n)).version).ver ≤ (mem (copies (2 * n + 1)).version).ver :=
    hrun.ver_mono (ho.le (2 * n)) (ho.version (2 * n)) hstop
  have hle : (mem (copies (2 * n + 1)).version).ver ≤ (mem (copies (2 * n)).version).ver :=
    calc (mem (copies (2 * n + 1)).version).ver
        = ((mem (copies (2 * n)).version).version &&& ~~~1).toNat := congrArg UInt32.toNat hmask
      _ ≤ (mem (copies (2 * n)).version).ver := and_not_one_le _
  have hsame := le_antisymm hle hmono
  obtain ⟨T, hT, hpub, hstay, hfield⟩ := hrun.copy_whole ho hstop (even_of_and_one heven) hsame
  exact ⟨T, hT, hpub, hstay, PVClockVcpuTimeInfo.copied_eq (hstay _ hT le_rfl) hfield⟩

theorem WallClockExits.whole {mem : ℕ → PVClockWallClock} {copies : ℕ → Copy WallField}
    (hrun : Run PVClockWallClock.ver PVClockWallClock.body mem start stop) (ho : Ordered start copies)
    (hstop : (copies (2 * n + 1)).version ≤ stop)
    (hexit : WallClockExits (fun k => PVClockWallClock.copied mem (copies k)) n) :
    ∃ T ≤ (copies (2 * n)).version, Published PVClockWallClock.ver mem T ∧
      PVClockWallClock.copied mem (copies (2 * n)) = mem T := by
  obtain ⟨heven, hversion⟩ := hexit
  have hsame : (mem (copies (2 * n + 1)).version).ver = (mem (copies (2 * n)).version).ver :=
    congrArg UInt32.toNat hversion
  obtain ⟨T, hT, hpub, hstay, hfield⟩ := hrun.copy_whole ho hstop (even_of_and_one heven) hsame
  exact ⟨T, hT, hpub, PVClockWallClock.copied_eq (hstay _ hT le_rfl) hfield⟩

end Whole

/-- **Clock reads are never torn.** However the host's updates fall between the reads of
`get_monotonic_time` and of the loop of `get_calendar`: if the loop is left, its result is
made from one record, the initial one or that of a completed update, and no field is from
another. -/
theorem clock_reads_whole :
    (∀ (mem : ℕ → PVClockVcpuTimeInfo) (copies : ℕ → Copy InfoField) (start stop fuel : ℕ) (nowtsc ret : UInt64),
      Run PVClockVcpuTimeInfo.ver PVClockVcpuTimeInfo.body mem start stop → Ordered start copies →
      (∀ k < 2 * fuel, (copies k).version ≤ stop) →
      getMonotonicTime nowtsc fuel (fun k => PVClockVcpuTimeInfo.copied mem (copies k)) = some ret →
      ∃ n T, Published PVClockVcpuTimeInfo.ver mem T ∧ T ≤ (copies (2 * n)).version ∧
        PVClockVcpuTimeInfo.copied mem (copies (2 * n)) = mem T ∧ ret = (mem T).scaled nowtsc) ∧
    (∀ (mem : ℕ → PVClockWallClock) (copies : ℕ → Copy WallField) (start stop fuel : ℕ) (sec nsec : UInt64),
      Run PVClockWallClock.ver PVClockWallClock.body mem start stop → Ordered start copies →
      (∀ k < 2 * fuel, (copies k).version ≤ stop) →
      readWallClock fuel (fun k => PVClockWallClock.copied mem (copies k)) = some (sec, nsec) →
      ∃ n T, Published PVClockWallClock.ver mem T ∧ T ≤ (copies (2 * n)).version ∧
        PVClockWallClock.copied mem (copies (2 * n)) = mem T ∧
        sec = (mem T).sec.toUInt64 ∧ nsec = (mem T).nsec.toUInt64) := by
  constructor
  · intro mem copies start stop fuel nowtsc ret hrun ho hstop h
    obtain ⟨n, hn, hexit, -, hret⟩ := getMonotonicTime_some h
    obtain ⟨T, hT, hpub, -, hwhole⟩ := hexit.whole hrun ho (hstop _ (by omega))
    refine ⟨n, T, hpub, hT, hwhole, ?_⟩
    rw [hret, hwhole]
  · intro mem copies start stop fuel sec nsec hrun ho hstop h
    obtain ⟨n, hn, hexit, hsec, hnsec⟩ := readWallClock_some h
    obtain ⟨T, hT, hpub, hwhole⟩ := hexit.whole hrun ho (hstop _ (by omega))
    refine ⟨n, T, hpub, hT, hwhole, ?_⟩
    rw [hsec, hnsec, hwhole]
    exact ⟨rfl, rfl⟩

/-- The host makes version 1, writes the record, and makes version 2, in the first three
moments. -/
def firstUpdate : ℕ → PVClockVcpuTimeInfo
  | 0 => .new
  | 1 => { PVClockVcpuTimeInfo.new with version := 1 }
  | 2 => ⟨1, 103, 5000, 0x80000000, 1, 0⟩
  | _ => ⟨2, 103, 5000, 0x80000000, 1, 0⟩

def firstWallUpdate : ℕ → PVClockWallClock
  | 0 => .new
  | 1 => { PVClockWallClock.new with version := 1 }
  | 2 => ⟨1, 1700000000, 7⟩
  | _ => ⟨2, 1700000000, 7⟩

/-- The copies are taken at once, copy `k` at moment `first + k`. -/
def copiesFrom (ι : Type) (first k : ℕ) : Copy ι := ⟨first + k, fun _ => first + k, fun _ => le_rfl⟩

theorem copiesFrom_ordered (ι : Type) {start first : ℕ} (h : start ≤ first) : Ordered start (copiesFrom ι first) :=
  ⟨h, fun k => Nat.le_succ (first + k), fun k _ => Nat.le_succ (first + k)⟩

/-- A single update in the first three moments is a run. -/
theorem run_of_update {ρ β : Type*} {ver : ρ → ℕ} {body : ρ → β} {mem : ℕ → ρ} (h0 : ver (mem 0) = 0)
    (h1 : ver (mem 1) = 1) (h2 : ver (mem 2) = 1) (h3 : ver (mem 3) = 2) (hbegin : body (mem 1) = body (mem 0))
    (hcommit : body (mem 3) = body (mem 2)) (hidle : ∀ t, mem (t + 4) = mem (t + 3)) (stop : ℕ) :
    Run ver body mem 0 stop where
  init := h0
  step t := by
    match t with
    | 0 => exact .begin (by simp [h0]) (by simp [h1]) hbegin
    | 1 => exact .write (by simp [h1]) (h2.trans h1.symm)
    | 2 => exact .commit (by simp [h2]) (by simp [h3]) hcommit
    | t + 3 =>
      rw [hidle]
      exact .idle _
  increasing t _ _ h := by
    match t with
    | 0 =>
      change ver (mem 0) < ver (mem 1)
      omega
    | 1 => exact absurd (h2.trans h1.symm) h
    | 2 =>
      change ver (mem 2) < ver (mem 3)
      omega
    | t + 3 => exact absurd (congrArg ver (hidle t)) h

theorem firstUpdate_run (stop : ℕ) : Run PVClockVcpuTimeInfo.ver PVClockVcpuTimeInfo.body firstUpdate 0 stop := by
  apply run_of_update <;> intros <;> rfl

theorem firstWallUpdate_run (stop : ℕ) : Run PVClockWallClock.ver PVClockWallClock.body firstWallUpdate 0 stop := by
  apply run_of_update <;> intros <;> rfl

/-- The first copies are taken while the host writes, the fields of the second before it is
done; the loops go round and use the record of version 2. -/
theorem clock_reads_whole_second_round :
    getMonotonicTime 203 2 (fun k => PVClockVcpuTimeInfo.copied firstUpdate (copiesFrom InfoField 1 k)) = some 100 ∧
    readWallClock 2 (fun k => PVClockWallClock.copied firstWallUpdate (copiesFrom WallField 1 k)) =
      some (1700000000, 7) ∧
    (∃ n T, Published PVClockVcpuTimeInfo.ver firstUpdate T ∧ T ≤ (copiesFrom InfoField 1 (2 * n)).version ∧
      PVClockVcpuTimeInfo.copied firstUpdate (copiesFrom InfoField 1 (2 * n)) = firstUpdate T ∧
      100 = (firstUpdate T).scaled 203) ∧
    (∃ n T, Published PVClockWallClock.ver firstWallUpdate T ∧ T ≤ (copiesFrom WallField 1 (2 * n)).version ∧
      PVClockWallClock.copied firstWallUpdate (copiesFrom WallField 1 (2 * n)) = firstWallUpdate T ∧
      1700000000 = (firstWallUpdate T).sec.toUInt64 ∧ 7 = (firstWallUpdate T).nsec.toUInt64) := by
  have h1 : getMonotonicTime 203 2
      (fun k => PVClockVcpuTimeInfo.copied firstUpdate (copiesFrom InfoField 1 k)) = some 100 := by decide +kernel
  have h2 : readWallClock 2
      (fun k => PVClockWallClock.copied firstWallUpdate (copiesFrom WallField 1 k)) = some (1700000000, 7) := by
    decide +kernel
  refine ⟨h1, h2, ?_, ?_⟩
  · exact clock_reads_whole.1 firstUpdate (copiesFrom InfoField 1) 0 4 2 203 100 (firstUpdate_run 4)
      (copiesFrom_ordered InfoField (Nat.zero_le 1)) (by decide) h1
  · exact clock_reads_whole.2 firstWallUpdate (copiesFrom WallField 1) 0 4 2 1700000000 7 (firstWallUpdate_run 4)
      (copiesFrom_ordered WallField (Nat.zero_le 1)) (by decide) h2

/-! ## The time stamp counter -/

/-- The counter runs, and every update is published with its value of that moment. -/
structure Counted (mem : ℕ → PVClockVcpuTimeInfo) (tsc : ℕ → ℕ) : Prop where
  mono : Monotone tsc
  init : mem 0 = .new
  published : ∀ t, Commits PVClockVcpuTimeInfo.ver mem t → (mem (t + 1)).tscTimestamp.toNat = tsc (t + 1)

section Counter

variable {mem : ℕ → PVClockVcpuTimeInfo} {copies : ℕ → Copy InfoField} {tsc : ℕ → ℕ} {start stop n : ℕ}
  {nowtsc : UInt64}

/-- The record in force since `T` was published after the counter was read, unless `T` is
not after `start`. -/
theorem Counted.tscTimestamp_le_iff (h : Counted mem tsc) (hnow : nowtsc.toNat = tsc start) {T : ℕ}
    (hT : Published PVClockVcpuTimeInfo.ver mem T) :
    (mem T).tscTimestamp ≤ nowtsc ↔ (start < T → tsc T = tsc start) := by
  rw [UInt64.le_iff_toNat_le, hnow]
  rcases hT with rfl | ⟨t, rfl, hcommit⟩
  · rw [h.init]
    exact ⟨fun _ hlt => absurd hlt (Nat.not_lt_zero start), fun _ => Nat.zero_le _⟩
  · rw [h.published t hcommit]
    constructor
    · intro hle hlt
      exact le_antisymm hle (h.mono hlt.le)
    · intro heq
      rcases Nat.lt_or_ge start (t + 1) with hlt | hge
      · exact (heq hlt).le
      · exact h.mono hge

/-- **When the difference of the counters does not wrap.** In every interleaving in which
the loop is left, the counter value is at least the time stamp of the record used if and
only if no update is completed between the read of the counter and the copy that is used
(or the counter has not moved until then). -/
theorem tsc_difference_iff {fuel : ℕ} {ret : UInt64}
    (hrun : Run PVClockVcpuTimeInfo.ver PVClockVcpuTimeInfo.body mem start stop) (htsc : Counted mem tsc)
    (ho : Ordered start copies) (hstop : ∀ k < 2 * fuel, (copies k).version ≤ stop)
    (hnow : nowtsc.toNat = tsc start)
    (h : getMonotonicTime nowtsc fuel (fun k => PVClockVcpuTimeInfo.copied mem (copies k)) = some ret) :
    ∃ n, MonotonicExits (fun k => PVClockVcpuTimeInfo.copied mem (copies k)) n ∧
      (∀ m < n, ¬ MonotonicExits (fun k => PVClockVcpuTimeInfo.copied mem (copies k)) m) ∧
      ret = (PVClockVcpuTimeInfo.copied mem (copies (2 * n))).scaled nowtsc ∧
      ((PVClockVcpuTimeInfo.copied mem (copies (2 * n))).tscTimestamp ≤ nowtsc ↔
        ∀ t, start ≤ t → t < (copies (2 * n)).version → Commits PVClockVcpuTimeInfo.ver mem t →
          tsc (t + 1) = tsc start) := by
  obtain ⟨n, hn, hexit, hfirst, hret⟩ := getMonotonicTime_some h
  obtain ⟨T, hT, hpub, hstay, hwhole⟩ := hexit.whole hrun ho (hstop _ (by omega))
  refine ⟨n, hexit, hfirst, hret, ?_⟩
  rw [hwhole, htsc.tscTimestamp_le_iff hnow hpub]
  constructor
  · -- the updates of the window are not later than the record used
    intro heq t h1 h2 hcommit
    have htT : t + 1 ≤ T := by
      by_contra hlt
      have hmem : mem (t + 1) = mem t := by
        rw [hstay t (by omega) (by omega), hstay (t + 1) (by omega) (by omega)]
      have heven := hcommit.2
      rw [hmem] at heven
      exact Nat.not_even_iff_odd.2 hcommit.1 heven
    refine le_antisymm ?_ (htsc.mono (by omega))
    calc tsc (t + 1) ≤ tsc T := htsc.mono htT
      _ = tsc start := heq (by omega)
  · intro hwindow hlt
    rcases hpub with rfl | ⟨t, rfl, hcommit⟩
    · exact absurd hlt (Nat.not_lt_zero start)
    · exact hwindow t (by omega) (by omega) hcommit

end Counter

/-- The counter is 100 at moment 0, and one more at each moment. -/
theorem firstUpdate_counted : Counted firstUpdate fun t => 100 + t where
  mono := fun a b h => Nat.add_le_add_left h 100
  init := rfl
  published t h := by
    match t with
    | 0 => exact absurd h.1 (by decide)
    | 1 => exact absurd h.2 (by decide)
    | 2 => rfl
    | _ + 3 => exact absurd h.1 (by change ¬ Odd 2; decide)

/-- The counter is read after the update. -/
theorem tsc_difference_iff_later :
    (PVClockVcpuTimeInfo.copied firstUpdate (copiesFrom InfoField 5 0)).tscTimestamp ≤ 105 := by
  have h : getMonotonicTime 105 1 (fun k => PVClockVcpuTimeInfo.copied firstUpdate (copiesFrom InfoField 5 k)) =
      some 2 := by decide +kernel
  have hrun : Run PVClockVcpuTimeInfo.ver PVClockVcpuTimeInfo.body firstUpdate 5 6 :=
    ⟨rfl, (firstUpdate_run 6).step, fun t _ => (firstUpdate_run 6).increasing t (Nat.zero_le t)⟩
  obtain ⟨n, -, hfirst, -, hiff⟩ := tsc_difference_iff hrun firstUpdate_counted
    (copiesFrom_ordered InfoField (le_refl 5)) (by decide) rfl h
  cases n with
  | zero => exact hiff.2 fun t h1 h2 => absurd (Nat.lt_of_le_of_lt h1 h2) (lt_irrefl 5)
  | succ n => exact absurd ⟨by decide, by decide⟩ (hfirst 0 n.succ_pos)

/-- **The update falls between the read of the counter and the copy**: the counter is 100, the
time stamp of the record 103, and the difference `2 ^ 64 - 3`. -/
theorem tsc_difference_wraps :
    Run PVClockVcpuTimeInfo.ver PVClockVcpuTimeInfo.body firstUpdate 0 5 ∧ Counted firstUpdate (fun t => 100 + t) ∧
    Ordered 0 (copiesFrom InfoField 4) ∧
    getMonotonicTime 100 1 (fun k => PVClockVcpuTimeInfo.copied firstUpdate (copiesFrom InfoField 4 k)) =
      some 18446744073709551613 ∧
    MonotonicExits (fun k => PVClockVcpuTimeInfo.copied firstUpdate (copiesFrom InfoField 4 k)) 0 ∧
    ¬ (PVClockVcpuTimeInfo.copied firstUpdate (copiesFrom InfoField 4 0)).tscTimestamp ≤ 100 := by
  refine ⟨firstUpdate_run 5, firstUpdate_counted, copiesFrom_ordered InfoField (Nat.zero_le 4), ?_, ?_, ?_⟩
  · decide +kernel
  · exact ⟨by decide, by decide⟩
  · decide

end Urchin
