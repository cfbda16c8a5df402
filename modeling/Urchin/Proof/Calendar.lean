import Urchin.Spec.Kvmclock
import Urchin.Gregorian.Calendar

/-!
# The calendar (`get_calendar`)

`get_calendar_from_epoch` counts from March of year zero. The cycles leave either a day of
a year that is not its last, or the leap day that ends a cycle of 4 or of 400 years
(`yearAndDay_spec`). In the first case the month formula finds the month, the table entry
is at most the day, and the date exists (`yearMonthDay_day`). So every number of seconds
that `get_calendar` can ask for gives the one date and time of day that many seconds after
the first of January 1970, and no index or subtraction stops: `calendar_correct`.
-/

namespace Urchin

open Exec Gregorian

/-! ## The year -/

theorem daysOfFourHundredYear_toNat : daysOfFourHundredYear.toNat = 146097 := rfl

theorem daysOfHundredYear_toNat : daysOfHundredYear.toNat = 36524 := rfl

theorem daysOfFourYear_toNat : daysOfFourYear.toNat = 1461 := rfl

theorem daysOfOneYear_toNat : daysOfOneYear.toNat = 365 := rfl

/-- A number of cycles is four exactly if it is in natural numbers. -/
theorem cycles_eq_four {d a b : UInt64} : d % a / b = 4 ↔ d.toNat % a.toNat / b.toNat = 4 := by
  rw [← UInt64.toNat_inj, UInt64.toNat_div, UInt64.toNat_mod]
  rfl

/-- The cycles of four years and of one, in a hundred years that are not followed by a
leap day. -/
theorem fourYears_spec {year day : UInt64} {q n : ℕ} (hq : q < 2 ^ 40) (hn : n ≤ 3)
    (hyear : year.toNat = 400 * q + 100 * n) (hday : day.toNat < 36524) :
    ∃ y o leap, y = year + day / daysOfFourYear * 4 + day % daysOfFourYear / daysOfOneYear ∧
      o = day % daysOfFourYear % daysOfOneYear ∧ leap = decide (day % daysOfFourYear / daysOfOneYear = 4) ∧
      if leap then IsLeap y.toNat ∧ 146097 * q + 36524 * n + day.toNat + 1 = marchDays y.toNat
      else o.toNat < 365 ∧ 146097 * q + 36524 * n + day.toNat = marchDays y.toNat + o.toNat := by
  obtain ⟨k, hk⟩ : ∃ k, day.toNat / 1461 = k := ⟨_, rfl⟩
  obtain ⟨t, ht⟩ : ∃ t, day.toNat % 1461 = t := ⟨_, rfl⟩
  obtain ⟨j, hj⟩ : ∃ j, t / 365 = j := ⟨_, rfl⟩
  have hj4 : day % daysOfFourYear / daysOfOneYear = 4 ↔ j = 4 := by
    rw [cycles_eq_four, daysOfFourYear_toNat, daysOfOneYear_toNat, ht, hj]
  have hyear' : (year + day / daysOfFourYear * 4 + day % daysOfFourYear / daysOfOneYear).toNat =
      400 * q + 100 * n + 4 * k + j := by
    simp only [UInt64.toNat_add, UInt64.toNat_mul, UInt64.toNat_div, UInt64.toNat_mod,
      daysOfFourYear_toNat, daysOfOneYear_toNat, hyear, hk, ht, hj, UInt64.toNat_ofNat]
    omega
  refine ⟨_, _, _, rfl, rfl, rfl, ?_⟩
  rw [hyear']
  by_cases hleap : j = 4
  · -- the last day of four years, which are not the last of a hundred
    rw [if_pos (decide_eq_true (hj4.2 hleap)),
      show 400 * q + 100 * n + 4 * k + j = 400 * q + 100 * n + 4 * (k + 1) + 0 by omega,
      marchDays_cycles q hn (by omega) (by omega)]
    unfold IsLeap
    omega
  · rw [if_neg (fun h => hleap (hj4.1 (of_decide_eq_true h))), marchDays_cycles q hn (by omega) (by omega),
      UInt64.toNat_mod, UInt64.toNat_mod, daysOfFourYear_toNat, daysOfOneYear_toNat, ht]
    omega

/-- **The cycles.** Nothing overflows, and what is left is a day before the last of its
year or the leap day at the end of it. -/
theorem yearAndDay_spec {d : UInt64} (hd : d.toNat < 2 ^ 50) :
    (∃ y o, yearAndDay d = (y, o, true) ∧ IsLeap y.toNat ∧ d.toNat + 1 = marchDays y.toNat) ∨
      ∃ y o, yearAndDay d = (y, o, false) ∧ o.toNat < 365 ∧
        d.toNat = marchDays y.toNat + o.toNat := by
  obtain ⟨q, hq⟩ : ∃ q, d.toNat / 146097 = q := ⟨_, rfl⟩
  obtain ⟨r, hr⟩ : ∃ r, d.toNat % 146097 = r := ⟨_, rfl⟩
  obtain ⟨n, hn⟩ : ∃ n, r / 36524 = n := ⟨_, rfl⟩
  have hn4 : d % daysOfFourHundredYear / daysOfHundredYear = 4 ↔ n = 4 := by
    rw [cycles_eq_four, daysOfFourHundredYear_toNat, daysOfHundredYear_toNat, hr, hn]
  have hyear : (400 * (d / daysOfFourHundredYear) +
      d % daysOfFourHundredYear / daysOfHundredYear * 100).toNat = 400 * q + 100 * n := by
    simp only [UInt64.toNat_add, UInt64.toNat_mul, UInt64.toNat_div, UInt64.toNat_mod,
      daysOfFourHundredYear_toNat, daysOfHundredYear_toNat, hq, hr, hn, UInt64.toNat_ofNat]
    omega
  have hday : (d % daysOfFourHundredYear % daysOfHundredYear).toNat = r % 36524 := by
    rw [UInt64.toNat_mod, UInt64.toNat_mod, daysOfFourHundredYear_toNat,
      daysOfHundredYear_toNat, hr]
  unfold yearAndDay
  by_cases h4 : n = 4
  · -- the last day of 400 years
    refine .inl ⟨_, _, if_pos (hn4.2 h4), ?_⟩
    rw [hyear, show 400 * q + 100 * n = 400 * (q + 1) + 100 * 0 + 4 * 0 + 0 by omega,
      marchDays_cycles (q + 1) (by omega) (by omega) (by omega)]
    unfold IsLeap
    omega
  · obtain ⟨y, o, leap, rfl, rfl, hleap, hspec⟩ :=
      fourYears_spec (show q < 2 ^ 40 by omega) (show n ≤ 3 by omega) hyear (by rw [hday]; omega)
    rw [hday] at hspec
    dsimp only
    rw [if_neg (fun h => h4 (hn4.1 h)), ← hleap]
    cases leap with
    | true =>
      rw [if_pos rfl] at hspec
      exact .inl ⟨_, _, rfl, hspec.1, by omega⟩
    | false =>
      rw [if_neg Bool.false_ne_true] at hspec
      exact .inr ⟨_, _, rfl, hspec.1, by omega⟩

/-! ## The month and the day -/

theorem checkedSub_ok {a b : UInt64} (h : b ≤ a) : checkedSub a b = .ok (a - b) := if_pos h

theorem daysOfMonth_get {k : ℕ} (hk : k < 12) :
    ∃ b : UInt64, daysOfMonth[k]? = some b ∧ b.toNat = marchOffset (monthFromMarch k) := by
  interval_cases k <;> exact ⟨_, rfl, rfl⟩

/-- A day that is not the leap day: the index and both subtractions are in range, and the
result is the date of the day. -/
theorem yearMonthDay_day {y o : UInt64} (hy : y.toNat < 2 ^ 50) (ho : o.toNat < 365) {k : ℕ}
    (hk : (o.toNat * 5 + 2) / 153 = k) :
    ∃ y' m d, yearMonthDay (y, o, false) = .ok (y', m, d) ∧
      y'.toNat = (if 9 < k then y.toNat + 1 else y.toNat) ∧ m.toNat = monthFromMarch k ∧
      d.toNat = o.toNat - marchOffset (monthFromMarch k) + 1 := by
  obtain ⟨hk12, hle, -⟩ := isDate_of_offset y.toNat ho hk
  obtain ⟨b, hget, hb⟩ := daysOfMonth_get hk12
  have hdiff : ((o * 5 + 2) / 153).toNat = k := by
    have hsum : (o * 5 + 2).toNat = o.toNat * 5 + 2 := by
      rw [UInt64.toNat_add, UInt64.toNat_mul, show (5 : UInt64).toNat = 5 from rfl,
        show (2 : UInt64).toNat = 2 from rfl]
      omega
    rw [UInt64.toNat_div, hsum]
    exact hk
  have hsub : b ≤ o := UInt64.le_iff_toNat_le.2 (by omega)
  have hday : (o - b + 1).toNat = o.toNat - marchOffset (monthFromMarch k) + 1 := by
    rw [UInt64.toNat_add, UInt64.toNat_sub_of_le _ _ hsub, hb, UInt64.toNat_one]
    exact Nat.mod_eq_of_lt (by omega)
  unfold yearMonthDay
  simp only [hdiff, hget]
  generalize (o * 5 + 2) / 153 = monthDiff at *
  by_cases hlate : 9 < k
  · -- January and February are in the next year
    have h9 : 9 < monthDiff := UInt64.lt_iff_toNat_lt.2 (by rw [hdiff]; exact hlate)
    have hle9 : (9 : UInt64) ≤ monthDiff := UInt64.le_of_lt h9
    refine ⟨y + 1, monthDiff - 9, o - b + 1, ?_, ?_, ?_, hday⟩
    · simp [h9, checkedSub_ok hsub, checkedSub_ok hle9, bind, Except.bind, pure, Except.pure]
    · rw [if_pos hlate, UInt64.toNat_add, UInt64.toNat_one]
      exact Nat.mod_eq_of_lt (by omega)
    · rw [UInt64.toNat_sub_of_le _ _ hle9, hdiff, monthFromMarch, if_pos hlate]
      rfl
  · have h9 : ¬ 9 < monthDiff := fun h => hlate (by
      have := UInt64.lt_iff_toNat_lt.1 h
      rwa [hdiff] at this)
    refine ⟨y, monthDiff + 3, o - b + 1, ?_, (if_neg hlate).symm, ?_, hday⟩
    · simp [h9, checkedSub_ok hsub, bind, Except.bind, pure, Except.pure]
    · rw [UInt64.toNat_add, hdiff, monthFromMarch, if_neg hlate]
      exact Nat.mod_eq_of_lt (show k + 3 < 2 ^ 64 by omega)

/-- **The date of a day** counted from March of year zero, not before the epoch. -/
theorem yearMonthDay_spec {d : UInt64} (hd : d.toNat < 2 ^ 50) (hepoch : 719468 ≤ d.toNat) :
    ∃ y m dd, yearMonthDay (yearAndDay d) = .ok (y, m, dd) ∧ 1970 ≤ y.toNat ∧
      IsDate y.toNat m.toNat dd.toNat ∧
      daysSince 1970 y.toNat m.toNat dd.toNat + 719468 = d.toNat := by
  have h1969 : marchDays 1969 = 719162 := by decide
  rcases yearAndDay_spec hd with ⟨y, o, heq, hleap, hday⟩ | ⟨y, o, heq, ho, hday⟩
  · have hy : 1969 + 1 ≤ y.toNat := by
      by_contra hlt
      have := marchDays_mono (show y.toNat ≤ 1969 by omega)
      omega
    obtain ⟨hdate, hsince⟩ := daysSince_leapDay hy hleap
    rw [h1969] at hsince
    exact ⟨y, 2, 29, by rw [heq]; rfl, hy, hdate, Nat.succ_injective (hsince.trans hday.symm)⟩
  · have hy : 1969 ≤ y.toNat := by
      by_contra hlt
      have hmono := marchDays_mono (show y.toNat + 1 ≤ 1969 by omega)
      have hyear := le_yearDays (y.toNat + 1)
      rw [marchDays_succ, h1969] at hmono
      omega
    obtain ⟨k, hk⟩ : ∃ k, (o.toNat * 5 + 2) / 153 = k := ⟨_, rfl⟩
    have hyk : 1969 + 1 ≤ if 9 < k then y.toNat + 1 else y.toNat := by
      -- in March year 1969 the day is in January or February
      rcases Nat.eq_or_lt_of_le hy with h | h
      · rw [← h, h1969] at hday
        rw [if_pos (by omega)]
        omega
      · split <;> omega
    have hy50 : y.toNat < 2 ^ 50 := by
      unfold marchDays at hday
      omega
    obtain ⟨y', m, dd, hok, hy', hm, hdd⟩ := yearMonthDay_day hy50 ho hk
    obtain ⟨-, -, hdate⟩ := isDate_of_offset y.toNat ho hk
    have hsince := daysSince_of_offset ho hk hyk
    rw [h1969] at hsince
    refine ⟨y', m, dd, by rw [heq, hok], ?_⟩
    rw [hy', hm, hdd]
    exact ⟨hyk, hdate, hsince.trans hday.symm⟩

/-! ## The seconds -/

namespace CalendarTime

/-- A date of the calendar since 1970, and a time of day. -/
structure Valid (c : CalendarTime) : Prop where
  epoch : 1970 ≤ c.year.toNat
  date : IsDate c.year.toNat c.month.toNat c.day.toNat
  hour : c.hour.toNat < 24
  min : c.min.toNat < 60
  sec : c.sec.toNat < 60

/-- The seconds since the first of January 1970. -/
def unixTime (c : CalendarTime) : ℕ :=
  daysSince 1970 c.year.toNat c.month.toNat c.day.toNat * 86400 + c.hour.toNat * 3600 +
    c.min.toNat * 60 + c.sec.toNat

/-- Two valid times of the same second are the same. -/
theorem unixTime_inj {c c' : CalendarTime} (hc : c.Valid) (hc' : c'.Valid)
    (h : c.unixTime = c'.unixTime) : c = c' := by
  unfold unixTime at h
  have := hc.hour
  have := hc.min
  have := hc.sec
  have := hc'.hour
  have := hc'.min
  have := hc'.sec
  have hdays : daysSince 1970 c.year.toNat c.month.toNat c.day.toNat =
      daysSince 1970 c'.year.toNat c'.month.toNat c'.day.toNat := by omega
  obtain ⟨hy, hm, hd⟩ := daysSince_inj hc.epoch hc.date hc'.epoch hc'.date hdays
  have hhour : c.hour.toNat = c'.hour.toNat := by omega
  have hmin : c.min.toNat = c'.min.toNat := by omega
  have hsec : c.sec.toNat = c'.sec.toNat := by omega
  cases c
  cases c'
  simp only [UInt16.toNat_inj, UInt8.toNat_inj] at hy hm hd hhour hmin hsec
  rw [hy, hm, hd, hhour, hmin, hsec]

end CalendarTime

/-- The seconds a `u64` of nanoseconds can hold. -/
def maxSeconds : ℕ := (2 ^ 64 - 1) / 10 ^ 9

theorem toUInt8_toNat {a : UInt64} {n : ℕ} (ha : a.toNat = n) (hn : n < 256) : a.toUInt8.toNat = n := by
  rw [UInt64.toNat_toUInt8, ha]
  exact Nat.mod_eq_of_lt hn

/-- The days from March of year zero, with the constant of the source. -/
theorem dayFromMarch_toNat (sec : UInt64) : (sec / (24 * 60 * 60) +
    (1969 * 365 + 1969 / 4 - 1969 / 100 + 1969 / 400 + 306)).toNat = sec.toNat / 86400 + 719468 := by
  have hlt := sec.toNat_lt
  have hdays : (sec / (24 * 60 * 60)).toNat = sec.toNat / 86400 := UInt64.toNat_div _ _
  rw [UInt64.toNat_add, hdays]
  exact Nat.mod_eq_of_lt (show sec.toNat / 86400 + 719468 < 2 ^ 64 by omega)

/-- The seconds since the epoch give a valid time of that second. -/
theorem getCalendarFromEpoch_valid {sec : UInt64} (hsec : sec.toNat ≤ maxSeconds) :
    ∃ c, getCalendarFromEpoch sec = .ok c ∧ c.Valid ∧ c.unixTime = sec.toNat := by
  have hsec' : sec.toNat ≤ 18446744073 := hsec
  have hmarch := dayFromMarch_toNat sec
  obtain ⟨y, m, d, hok, hepoch, hdate, hsince⟩ :=
    yearMonthDay_spec (by rw [hmarch]; omega) (by rw [hmarch]; omega)
  rw [hmarch] at hsince
  have hmonth := hdate.month
  have hday := hdate.day
  have hday31 := monthDays_le y.toNat m.toNat
  -- nothing is lost in the narrow fields: the year is at most 2554
  have hy : y.toUInt16.toNat = y.toNat := by
    have hyears := le_daysSince 1970 y.toNat m.toNat d.toNat
    rw [UInt64.toNat_toUInt16]
    omega
  have hm : m.toUInt8.toNat = m.toNat := toUInt8_toNat rfl (by omega)
  have hd : d.toUInt8.toNat = d.toNat := toUInt8_toNat rfl (by omega)
  have hhour : (sec / 3600 % 24).toUInt8.toNat = sec.toNat / 3600 % 24 :=
    toUInt8_toNat (by rw [UInt64.toNat_mod, UInt64.toNat_div]; rfl) (by omega)
  have hmin : (sec / 60 % 60).toUInt8.toNat = sec.toNat / 60 % 60 :=
    toUInt8_toNat (by rw [UInt64.toNat_mod, UInt64.toNat_div]; rfl) (by omega)
  have hs : (sec % 60).toUInt8.toNat = sec.toNat % 60 := toUInt8_toNat (UInt64.toNat_mod _ _) (by omega)
  refine ⟨⟨y.toUInt16, m.toUInt8, d.toUInt8, (sec / 3600 % 24).toUInt8, (sec / 60 % 60).toUInt8,
    (sec % 60).toUInt8⟩, ?_, ⟨?_, ?_, ?_, ?_, ?_⟩, ?_⟩
  · unfold getCalendarFromEpoch
    dsimp only
    rw [hok]
    rfl
  · rw [hy]
    exact hepoch
  · rw [hy, hm, hd]
    exact hdate
  · rw [hhour]
    omega
  · rw [hmin]
    omega
  · rw [hs]
    omega
  · unfold CalendarTime.unixTime
    rw [hy, hm, hd, hhour, hmin, hs]
    omega

/-- What `get_calendar` asks for fits the bound. -/
theorem getCalendar_passes {fuel : ℕ} {wall : ℕ → PVClockWallClock} {nowtsc nowtsc' : UInt64}
    {reads reads' : ℕ → PVClockVcpuTimeInfo} {r : Except Panic CalendarTime}
    (h : getCalendar fuel wall nowtsc nowtsc' reads reads' = some r) :
    ∃ sec : UInt64, sec.toNat ≤ maxSeconds ∧ r = getCalendarFromEpoch sec := by
  unfold getCalendar at h
  simp only [Option.bind_eq_bind, Option.bind_eq_some_iff] at h
  obtain ⟨⟨wcSec, wcNsec⟩, -, delta, -, monotonic, -, h⟩ := h
  obtain rfl := Option.some.inj h
  refine ⟨_, ?_, rfl⟩
  rw [UInt64.toNat_div]
  exact Nat.div_le_div_right (Nat.le_pred_of_lt (UInt64.toNat_lt _))

/-- The code has returned, and its result is the only valid time of second `t`. -/
def ShowsSecond (r : Except Panic CalendarTime) (t : ℕ) : Prop :=
  ∃ c, r = .ok c ∧ c.Valid ∧ c.unixTime = t ∧
    ∀ c' : CalendarTime, c'.Valid → c'.unixTime = t → c' = c

/-- **The calendar is right**: for every number of seconds up to what 64 bits of
nanoseconds hold, which is all that `get_calendar` passes on, the conversion returns, and
its result is the one valid date and time of day with that Unix time. -/
theorem calendar_correct :
    (∀ sec : UInt64, sec.toNat ≤ maxSeconds → ShowsSecond (getCalendarFromEpoch sec) sec.toNat) ∧
      ∀ (fuel : ℕ) (wall : ℕ → PVClockWallClock) (nowtsc nowtsc' : UInt64)
        (reads reads' : ℕ → PVClockVcpuTimeInfo) (r : Except Panic CalendarTime),
        getCalendar fuel wall nowtsc nowtsc' reads reads' = some r →
          ∃ sec : UInt64, sec.toNat ≤ maxSeconds ∧ r = getCalendarFromEpoch sec ∧
            ShowsSecond r sec.toNat := by
  have hshows : ∀ sec : UInt64, sec.toNat ≤ maxSeconds →
      ShowsSecond (getCalendarFromEpoch sec) sec.toNat := by
    intro sec hsec
    obtain ⟨c, hok, hvalid, htime⟩ := getCalendarFromEpoch_valid hsec
    refine ⟨c, hok, hvalid, htime, fun c' hvalid' htime' => ?_⟩
    exact CalendarTime.unixTime_inj hvalid' hvalid (htime'.trans htime.symm)
  refine ⟨hshows, ?_⟩
  intro fuel wall nowtsc nowtsc' reads reads' r h
  obtain ⟨sec, hsec, rfl⟩ := getCalendar_passes h
  exact ⟨sec, hsec, rfl, hshows sec hsec⟩

/-- The last second of the leap day that ends 400 years. -/
theorem calendar_correct_leapDay :
    getCalendarFromEpoch 951868799 = .ok ⟨2000, 2, 29, 23, 59, 59⟩ ∧
      ShowsSecond (getCalendarFromEpoch 951868799) 951868799 :=
  ⟨by decide +kernel, calendar_correct.1 951868799 (by decide)⟩

end Urchin
