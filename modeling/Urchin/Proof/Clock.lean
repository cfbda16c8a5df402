import Urchin.Spec.Kvmclock

/-!
# When the monotonic clock is monotonic

`get_monotonic_time` counts the nanoseconds since the time stamp of the record in force
(`elapsed`) and drops the record's system time. Under one record it never goes back. Under
a record with another time stamp it starts again from there, so a reading of one
nanosecond or more before the update can be followed by a smaller one, although the host
keeps to its side (`Published`): `clock_goes_back`. It does not go back as long as every
update keeps the time stamp and the scale, or comes while the last reading is still
zero (`Steady`): `clock_monotone`.
-/

namespace Urchin

open Exec

namespace PVClockVcpuTimeInfo

/-- The nanoseconds from the record's time stamp to the counter value, by the record's
scale. -/
def elapsed (info : PVClockVcpuTimeInfo) (tsc : UInt64) : ℕ :=
  let ticks := tsc.toNat - info.tscTimestamp.toNat
  (if 0 ≤ info.tscShift then ticks * 2 ^ shiftBits info.tscShift else ticks / 2 ^ shiftBits info.tscShift) *
    info.tscToSystemMul.toNat / 2 ^ 32

/-- Another record with the same time stamp and scale. -/
def SameBase (info info' : PVClockVcpuTimeInfo) : Prop :=
  info'.tscTimestamp = info.tscTimestamp ∧ info'.tscToSystemMul = info.tscToSystemMul ∧
    info'.tscShift = info.tscShift

instance (info info' : PVClockVcpuTimeInfo) : Decidable (info.SameBase info') :=
  inferInstanceAs (Decidable (_ ∧ _))

theorem SameBase.elapsed {info info' : PVClockVcpuTimeInfo} (h : info.SameBase info') (tsc : UInt64) :
    info'.elapsed tsc = info.elapsed tsc := by
  obtain ⟨h1, h2, h3⟩ := h
  unfold PVClockVcpuTimeInfo.elapsed
  rw [h1, h2, h3]

theorem elapsed_mono (info : PVClockVcpuTimeInfo) {tsc tsc' : UInt64} (h : tsc ≤ tsc') :
    info.elapsed tsc ≤ info.elapsed tsc' := by
  have hticks : tsc.toNat - info.tscTimestamp.toNat ≤ tsc'.toNat - info.tscTimestamp.toNat :=
    Nat.sub_le_sub_right (UInt64.le_iff_toNat_le.1 h) _
  unfold elapsed
  apply Nat.div_le_div_right
  apply Nat.mul_le_mul_right
  split
  · exact Nat.mul_le_mul_right _ hticks
  · exact Nat.div_le_div_right hticks

theorem elapsed_timestamp (info : PVClockVcpuTimeInfo) : info.elapsed info.tscTimestamp = 0 := by
  simp [elapsed]

/-- **The code counts elapsed nanoseconds**, as long as 64 bits hold them. -/
theorem scaled_toNat {info : PVClockVcpuTimeInfo} {tsc : UInt64} (hts : info.tscTimestamp ≤ tsc)
    (hfit : info.elapsed tsc < 2 ^ 64) : (info.scaled tsc).toNat = info.elapsed tsc := by
  have hsub : (tsc - info.tscTimestamp).toNat = tsc.toNat - info.tscTimestamp.toNat :=
    UInt64.toNat_sub_of_le _ _ hts
  unfold scaled
  simp only [hsub, UInt64.toNat_ofNat']
  unfold elapsed at hfit ⊢
  unfold shiftedDelta
  simp only at hfit ⊢
  set ticks := tsc.toNat - info.tscTimestamp.toNat
  set mul := info.tscToSystemMul.toNat
  -- a product whose upper part fits has not overflowed, nor has its shifted factor
  have key : ∀ x, x * mul / 2 ^ 32 < 2 ^ 64 → x % 2 ^ 128 * mul % 2 ^ 128 / 2 ^ 32 = x * mul / 2 ^ 32 := by
    intro x hx
    have hprod : x * mul < 2 ^ 96 := by omega
    rcases Nat.eq_zero_or_pos mul with h0 | h1
    · simp [h0]
    · have hle : x ≤ x * mul := Nat.le_mul_of_pos_right x h1
      rw [Nat.mod_eq_of_lt (show x < 2 ^ 128 by omega), Nat.mod_eq_of_lt (by omega)]
  split at hfit
  · rw [if_pos (by assumption), if_pos (by assumption), key _ hfit, Nat.mod_eq_of_lt hfit]
  · rename_i hneg
    rw [if_neg hneg, if_neg hneg]
    have hlt : ticks / 2 ^ shiftBits info.tscShift < 2 ^ 128 := by
      refine lt_of_le_of_lt (Nat.div_le_self _ _) ?_
      have := tsc.toNat_lt
      omega
    have := key _ hfit
    rw [Nat.mod_eq_of_lt hlt] at this
    rw [this, Nat.mod_eq_of_lt hfit]

end PVClockVcpuTimeInfo

/-- On a record that is not being written, the first round returns. -/
theorem getMonotonicTime_even {info : PVClockVcpuTimeInfo} (h : info.version &&& 1 = 0) (nowtsc : UInt64)
    (fuel : ℕ) : getMonotonicTime nowtsc (fuel + 1) (fun _ => info) = some (info.scaled nowtsc) := by
  have hclear : info.version &&& ~~~1 = info.version := by
    have hsplit : info.version &&& (1 ||| ~~~1) = (info.version &&& 1) ||| (info.version &&& ~~~1) :=
      UInt32.toBitVec_inj.1 BitVec.and_or_distrib_left
    rw [h, UInt32.zero_or, show (1 ||| ~~~1 : UInt32) = -1 from rfl, UInt32.and_neg_one] at hsplit
    exact hsplit.symm
  simp [getMonotonicTime, h, hclear]

namespace ClockSys

/-- The host's side of the clock: a record is whole when it is published, and its system
time is not behind the old record's at the new time stamp. -/
def Published (s : ClockSys) (info : PVClockVcpuTimeInfo) : Prop :=
  info.version &&& 1 = 0 ∧ (s.info.tscTimestamp ≤ info.tscTimestamp →
    s.info.systemTime.toNat + s.info.elapsed info.tscTimestamp ≤ info.systemTime.toNat)

/-- The counter does not go back, and is not behind the record in force. -/
def Forward (s : ClockSys) (nowtsc : UInt64) : Prop :=
  s.info.tscTimestamp ≤ nowtsc ∧ ∀ p ∈ s.last, p.2 ≤ nowtsc

/-- The steps of a host that keeps to its side and a counter that does not go back. -/
def Allowed (s : ClockSys) : ClockOp → Prop
  | .update info => s.Published info
  | .call nowtsc => s.Forward nowtsc

/-- Of these, the steps under which the clock does not go back: an update keeps time
stamp and scale, or comes when the last reading was less than a nanosecond after the
time stamp it was counted from; and the time of a reading fits 64 bits. -/
def Steady (s : ClockSys) : ClockOp → Prop
  | .update info => s.Published info ∧ ∀ p ∈ s.last, p.1.elapsed p.2 = 0 ∨ s.info.SameBase info
  | .call nowtsc => s.Forward nowtsc ∧ s.info.elapsed nowtsc < 2 ^ 64

instance (s : ClockSys) (info : PVClockVcpuTimeInfo) : Decidable (s.Published info) :=
  inferInstanceAs (Decidable (_ ∧ (_ → _)))

instance (s : ClockSys) (nowtsc : UInt64) : Decidable (s.Forward nowtsc) :=
  inferInstanceAs (Decidable (_ ∧ _))

instance : ∀ (s : ClockSys) (o : ClockOp), Decidable (s.Allowed o)
  | s, .update info => inferInstanceAs (Decidable (s.Published info))
  | s, .call nowtsc => inferInstanceAs (Decidable (s.Forward nowtsc))

instance : ∀ (s : ClockSys) (o : ClockOp), Decidable (s.Steady o)
  | _, .update _ | _, .call _ => inferInstanceAs (Decidable (_ ∧ _))

theorem step_call {s : ClockSys} (h : s.info.version &&& 1 = 0) (nowtsc : UInt64) :
    s.step (.call nowtsc) = .ok { s with
      last := some (s.info, nowtsc), results := s.results ++ [s.info.scaled nowtsc] } := by
  simp [step, getMonotonicTime_even h nowtsc 0]

/-- The last result is the time of the last reading. -/
structure ClockOK (s : ClockSys) : Prop where
  even : s.info.version &&& 1 = 0
  last : ∀ r tsc, s.last = some (r, tsc) → r.tscTimestamp ≤ tsc ∧
    ∃ l, s.results = l ++ [r.scaled tsc]
  none : s.last = none → s.results = []

theorem ClockOK.init {info : PVClockVcpuTimeInfo} (h : info.version &&& 1 = 0) : ClockOK (.init info) :=
  ⟨h, by simp [ClockSys.init], fun _ => rfl⟩

theorem ClockOK.step {s s' : ClockSys} {o : ClockOp} (h : ClockOK s) (ha : s.Allowed o)
    (hs : s.step o = .ok s') : ClockOK s' := by
  cases o with
  | update info =>
    obtain rfl := Except.ok.inj hs
    exact ⟨ha.1, h.last, h.none⟩
  | call nowtsc =>
    rw [step_call h.even] at hs
    obtain rfl := Except.ok.inj hs
    refine ⟨h.even, ?_, by simp⟩
    intro r tsc hl
    obtain ⟨rfl, rfl⟩ := Prod.mk.inj (Option.some.inj hl)
    exact ⟨ha.1, _, rfl⟩

theorem Steady.allowed {s : ClockSys} {o : ClockOp} (h : s.Steady o) : s.Allowed o := by
  cases o with
  | update info => exact h.1
  | call nowtsc => exact h.1

/-- In a steady run the results are sorted, and the last reading is zero or counted from
the base in force. -/
structure SteadyOK (s : ClockSys) : Prop extends ClockOK s where
  fits : ∀ r tsc, s.last = some (r, tsc) → r.elapsed tsc < 2 ^ 64
  base : ∀ r tsc, s.last = some (r, tsc) → r.elapsed tsc = 0 ∨ r.SameBase s.info
  sorted : s.results.Pairwise (· ≤ ·)

theorem SteadyOK.step {s s' : ClockSys} {o : ClockOp} (h : SteadyOK s) (ha : s.Steady o)
    (hs : s.step o = .ok s') : SteadyOK s' := by
  have hok := h.toClockOK.step ha.allowed hs
  cases o with
  | update info =>
    obtain rfl := Except.ok.inj hs
    refine ⟨hok, h.fits, ?_, h.sorted⟩
    intro r tsc hl
    rcases ha.2 (r, tsc) hl with hz | hb
    · exact .inl hz
    · rcases h.base r tsc hl with hz | hb'
      · exact .inl hz
      · obtain ⟨h1, h2, h3⟩ := hb
        obtain ⟨h1', h2', h3'⟩ := hb'
        exact .inr ⟨h1.trans h1', h2.trans h2', h3.trans h3'⟩
  | call nowtsc =>
    obtain ⟨⟨hts, hfwd⟩, hfit⟩ := ha
    rw [step_call h.even] at hs
    obtain rfl := Except.ok.inj hs
    refine ⟨hok, ?_, ?_, ?_⟩
    · intro r tsc hl
      obtain ⟨rfl, rfl⟩ := Prod.mk.inj (Option.some.inj hl)
      exact hfit
    · intro r tsc hl
      obtain ⟨rfl, rfl⟩ := Prod.mk.inj (Option.some.inj hl)
      exact .inr ⟨rfl, rfl, rfl⟩
    · -- the new result is not below the last one, which is not below the others
      cases hl : s.last with
      | none => simp [h.none hl]
      | some p =>
        obtain ⟨r, tsc⟩ := p
        obtain ⟨hrts, l, hres⟩ := h.last r tsc hl
        have hle : r.scaled tsc ≤ s.info.scaled nowtsc := by
          rw [UInt64.le_iff_toNat_le, PVClockVcpuTimeInfo.scaled_toNat hrts (h.fits r tsc hl),
            PVClockVcpuTimeInfo.scaled_toNat hts hfit]
          rcases h.base r tsc hl with hz | hb
          · rw [hz]; exact Nat.zero_le _
          · rw [hb.elapsed]
            exact r.elapsed_mono (hfwd (r, tsc) hl)
        have hsorted := h.sorted
        rw [hres] at hsorted ⊢
        refine List.pairwise_append.2 ⟨hsorted, List.pairwise_singleton _ _, ?_⟩
        intro a ha b hb
        rw [List.mem_singleton.1 hb]
        rcases List.mem_append.1 ha with ha | ha
        · exact UInt64.le_trans ((List.pairwise_append.1 hsorted).2.2 a ha _ (List.mem_singleton.2 rfl)) hle
        · rw [List.mem_singleton.1 ha]
          exact hle

/-- **When the clock does not go back.** Whatever record the clock starts with:
* in every run whose steps are steady, the results are sorted;
* after a reading of at least a nanosecond, every update with a time stamp not before
  that reading can be followed by a smaller reading: the one at the new time stamp. -/
theorem clock_monotone {info : PVClockVcpuTimeInfo} (hv : info.version &&& 1 = 0) :
    (∀ s, Reach step Steady (.init info) s → s.results.Pairwise (· ≤ ·)) ∧
    ∀ s r tsc, Reach step Allowed (.init info) s → s.last = some (r, tsc) → 0 < r.elapsed tsc →
      r.elapsed tsc < 2 ^ 64 → ∀ info', s.Allowed (.update info') → tsc ≤ info'.tscTimestamp →
      ∃ s', Reach step Allowed (.init info) s' ∧ s'.results = s.results ++ [0] ∧
        ¬ s'.results.Pairwise (· ≤ ·) := by
  refine ⟨?_, ?_⟩
  · intro s h
    have hok : SteadyOK s := h.inv ⟨.init hv, by simp [init], by simp [init], by simp [init]⟩
      fun _ _ _ hok ha hs => hok.step ha hs
    exact hok.sorted
  · intro s r tsc h hl hpos hfit info' hpub hle
    have hok : ClockOK s := h.inv (.init hv) fun _ _ _ hok ha hs => hok.step ha hs
    -- the host publishes a record whose timestamp the counter has not passed yet
    have h1 := h.next hpub rfl
    have hzero : info'.scaled info'.tscTimestamp = 0 := by
      apply UInt64.toNat_inj.1
      rw [PVClockVcpuTimeInfo.scaled_toNat (UInt64.le_refl _) (by rw [info'.elapsed_timestamp]; decide),
        info'.elapsed_timestamp]
      rfl
    have hfwd : Allowed { s with info := info' } (.call info'.tscTimestamp) := by
      refine ⟨UInt64.le_refl _, ?_⟩
      intro p hp
      have hp : s.last = some p := hp
      rw [hl] at hp
      rw [← Option.some.inj hp]
      exact hle
    have h2 := h1.next hfwd (step_call (s := { s with info := info' }) hpub.1 info'.tscTimestamp)
    rw [hzero] at h2
    refine ⟨_, h2, rfl, ?_⟩
    -- the last result before the update was positive
    intro hsorted
    obtain ⟨hrts, l, hres⟩ := hok.last r tsc hl
    have hlast : r.scaled tsc ≤ 0 := by
      refine (List.pairwise_append.1 hsorted).2.2 _ ?_ 0 (List.mem_singleton.2 rfl)
      rw [hres]
      exact List.mem_append_right _ (List.mem_singleton.2 rfl)
    rw [UInt64.le_iff_toNat_le, PVClockVcpuTimeInfo.scaled_toNat hrts hfit] at hlast
    exact absurd hlast (Nat.not_le.2 hpos)

/-- A record of a counter that ticks once a nanosecond. -/
def gigahertz (version : UInt32) (tscTimestamp systemTime : UInt64) : PVClockVcpuTimeInfo :=
  ⟨version, tscTimestamp, systemTime, 0x80000000, 1, 0⟩

/-- The host moves the system time on and keeps the rest of the record. -/
theorem clock_monotone_gigahertz : ∃ s, Reach step Steady (.init (gigahertz 2 1000 0)) s ∧
    s.results.length = 3 ∧ s.results.Pairwise (· ≤ ·) := by
  have hrun : (runIf step Steady (.init (gigahertz 2 1000 0)) [.call 1000, .update (gigahertz 4 1500 500), .call 2000,
      .update (gigahertz 6 1500 700), .call 3000]).map (fun s => s.results.length) = some 3 := by decide +kernel
  obtain ⟨s, hs, hlen⟩ := Option.map_eq_some_iff.1 hrun
  have hreach := Reach.of_runIf _ hs
  exact ⟨s, hreach, hlen, (clock_monotone rfl).1 s hreach⟩

/-- **The clock goes back**: a thousand nanoseconds after the first record the host
publishes a second one, with the system time moved on by as much; the next reading
counts from the new time stamp. -/
theorem clock_goes_back : ∃ s, Reach step Allowed (.init (gigahertz 2 1000 0)) s ∧
    s.results = [1000, 500] ∧ ¬ s.results.Pairwise (· ≤ ·) := by
  have hrun : (runIf step Allowed (.init (gigahertz 2 1000 0)) [.call 2000, .update (gigahertz 4 2000 1000),
      .call 2500]).map results = some [1000, 500] := by decide +kernel
  obtain ⟨s, hs, hres⟩ := Option.map_eq_some_iff.1 hrun
  refine ⟨s, Reach.of_runIf _ hs, hres, ?_⟩
  rw [hres]
  decide

end ClockSys

end Urchin
