import Mathlib

/-!
# The Gregorian calendar

Dates as year, month and day, with leap years by the rule of 4, 100 and 400, and the days
from the first of January of a year to a date, counted year by year and month by month
(`daysSince`).

Counting years from March puts the leap day at the end. The days before March of a year
have a closed form (`marchDays`), and the day of a date in its March year is the offset of
its month plus its day (`daysSince_march`). So dates that are equally far from a year are
the same (`daysSince_inj`).
-/

namespace Urchin.Gregorian

/-- The rule of 4, 100 and 400. -/
def IsLeap (y : ℕ) : Prop := y % 4 = 0 ∧ (y % 100 ≠ 0 ∨ y % 400 = 0)

instance (y : ℕ) : Decidable (IsLeap y) := inferInstanceAs (Decidable (_ ∧ _))

def yearDays (y : ℕ) : ℕ := if IsLeap y then 366 else 365

def monthDays (y : ℕ) : ℕ → ℕ
  | 1 | 3 | 5 | 7 | 8 | 10 | 12 => 31
  | 4 | 6 | 9 | 11 => 30
  | 2 => if IsLeap y then 29 else 28
  | _ => 0

/-- The days from the first of January of year `y₀` to a date of year `y` or later. -/
def daysSince (y₀ y m d : ℕ) : ℕ :=
  ∑ k ∈ Finset.Ico y₀ y, yearDays k + ∑ k ∈ Finset.Ico 1 m, monthDays y k + (d - 1)

/-- The date exists. -/
structure IsDate (y m d : ℕ) : Prop where
  month : 1 ≤ m ∧ m ≤ 12
  day : 1 ≤ d ∧ d ≤ monthDays y m

theorem le_yearDays (y : ℕ) : 365 ≤ yearDays y := by
  unfold yearDays
  split <;> omega

theorem monthDays_le (y m : ℕ) : monthDays y m ≤ 31 := by
  unfold monthDays
  split <;> try split
  all_goals omega

theorem le_daysSince (y₀ y m d : ℕ) : 365 * (y - y₀) ≤ daysSince y₀ y m d := by
  have hsum : (y - y₀) * 365 ≤ ∑ k ∈ Finset.Ico y₀ y, yearDays k := by
    simpa using Finset.card_nsmul_le_sum (Finset.Ico y₀ y) yearDays 365 fun k _ => le_yearDays k
  unfold daysSince
  omega

/-! ## Years from March -/

/-- The days of `y` years, each with its leap day at the end: from the first of March of
year zero to that of year `y`. -/
def marchDays (y : ℕ) : ℕ := 365 * y + y / 4 - y / 100 + y / 400

/-- The year a date is in, counted from March. -/
def marchYear (y m : ℕ) : ℕ := if m ≤ 2 then y - 1 else y

/-- The days from the first of March to the first of a month. -/
def marchOffset : ℕ → ℕ
  | 3 => 0
  | 4 => 31
  | 5 => 61
  | 6 => 92
  | 7 => 122
  | 8 => 153
  | 9 => 184
  | 10 => 214
  | 11 => 245
  | 12 => 275
  | 1 => 306
  | 2 => 337
  | _ => 0

theorem marchDays_succ (y : ℕ) : marchDays (y + 1) = marchDays y + yearDays (y + 1) := by
  have h4 : (y + 1) / 4 = y / 4 + if 4 ∣ y + 1 then 1 else 0 := Nat.succ_div
  have h100 : (y + 1) / 100 = y / 100 + if 100 ∣ y + 1 then 1 else 0 := Nat.succ_div
  have h400 : (y + 1) / 400 = y / 400 + if 400 ∣ y + 1 then 1 else 0 := Nat.succ_div
  have hle := Nat.div_le_self y 100
  unfold marchDays yearDays
  by_cases hl : IsLeap (y + 1)
  · rw [if_pos hl]
    obtain ⟨hl4, hl⟩ := hl
    rw [if_pos (Nat.dvd_of_mod_eq_zero hl4)] at h4
    by_cases hd : 100 ∣ y + 1
    · have hd400 : 400 ∣ y + 1 := by omega
      rw [if_pos hd] at h100
      rw [if_pos hd400] at h400
      omega
    · rw [if_neg hd] at h100
      rw [if_neg (fun h => hd (Nat.dvd_trans (by decide) h))] at h400
      omega
  · rw [if_neg hl]
    unfold IsLeap at hl
    by_cases hd4 : 4 ∣ y + 1
    · -- a year of a century that is not divided by 400
      have hd : 100 ∣ y + 1 := by omega
      have hd400 : ¬ 400 ∣ y + 1 := by omega
      rw [if_pos hd4] at h4
      rw [if_pos hd] at h100
      rw [if_neg hd400] at h400
      omega
    · rw [if_neg hd4] at h4
      rw [if_neg (fun h => hd4 (Nat.dvd_trans (by decide) h))] at h100
      rw [if_neg (fun h => hd4 (Nat.dvd_trans (by decide) h))] at h400
      omega

/-- The cycles of 400, 100, 4 and one years. -/
theorem marchDays_cycles (q : ℕ) {n k j : ℕ} (hn : n ≤ 3) (hk : k ≤ 24) (hj : j ≤ 3) :
    marchDays (400 * q + 100 * n + 4 * k + j) = 146097 * q + 36524 * n + 1461 * k + 365 * j := by
  unfold marchDays
  have h4 : (400 * q + 100 * n + 4 * k + j) / 4 = 100 * q + 25 * n + k := by omega
  have h100 : (400 * q + 100 * n + 4 * k + j) / 100 = 4 * q + n := by omega
  have h400 : (400 * q + 100 * n + 4 * k + j) / 400 = q := by omega
  rw [h4, h100, h400]
  omega

theorem marchDays_mono {y y' : ℕ} (h : y ≤ y') : marchDays y ≤ marchDays y' := by
  induction y', h using Nat.le_induction with
  | base => exact le_rfl
  | succ k _ ih => rw [marchDays_succ]; omega

theorem sum_yearDays {a b : ℕ} (h : a ≤ b) :
    ∑ k ∈ Finset.Ico (a + 1) (b + 1), yearDays k + marchDays a = marchDays b := by
  induction b, h using Nat.le_induction with
  | base => simp
  | succ b hb ih => rw [Finset.sum_Ico_succ_top (by omega), marchDays_succ]; omega

/-- January and February come before March. -/
theorem sum_monthDays_early (y : ℕ) {m : ℕ} (h1 : 1 ≤ m) (h2 : m ≤ 2) :
    ∑ k ∈ Finset.Ico 1 m, monthDays y k + 306 = marchOffset m := by
  interval_cases m <;> rfl

theorem marchOffset_succ (y : ℕ) {m : ℕ} (h3 : 3 ≤ m) (h12 : m < 12) :
    marchOffset (m + 1) = marchOffset m + monthDays y m := by
  interval_cases m <;> rfl

/-- The days of the months before a month from March on. -/
theorem sum_monthDays_late (y : ℕ) {m : ℕ} (h3 : 3 ≤ m) (h12 : m ≤ 12) :
    ∑ k ∈ Finset.Ico 1 m, monthDays y k + 306 = marchOffset m + yearDays y := by
  induction m, h3 using Nat.le_induction with
  | base =>
    have hfeb : ∑ k ∈ Finset.Ico 1 3, monthDays y k = 31 + monthDays y 2 := rfl
    have hoff : marchOffset 3 = 0 := rfl
    rw [hfeb, hoff]
    by_cases hl : IsLeap y
    · simp [monthDays, yearDays, hl]
    · simp [monthDays, yearDays, hl]
  | succ m h3 ih =>
    rw [Finset.sum_Ico_succ_top (by omega), marchOffset_succ y h3 (by omega)]
    have := ih (by omega)
    omega

/-- **Dates counted from March.** -/
theorem daysSince_march {y₀ y m d : ℕ} (hy : y₀ + 1 ≤ y) (hd : IsDate y m d) :
    daysSince (y₀ + 1) y m d + (marchDays y₀ + 306) =
      marchDays (marchYear y m) + (marchOffset m + (d - 1)) := by
  obtain ⟨y, rfl⟩ : ∃ z, y = z + 1 := ⟨y - 1, by omega⟩
  have hyears := sum_yearDays (show y₀ ≤ y by omega)
  unfold daysSince marchYear
  by_cases hm : m ≤ 2
  · rw [if_pos hm, Nat.add_sub_cancel, ← hyears, ← sum_monthDays_early (y + 1) hd.month.1 hm]
    ring
  · have hmonths := sum_monthDays_late (y + 1) (show 3 ≤ m by omega) hd.month.2
    rw [if_neg hm, marchDays_succ, ← hyears]
    linarith

/-- The month, counted from March, is found from the day in the March year. -/
theorem month_of_offset {y m d : ℕ} (hd : IsDate y m d) :
    ((marchOffset m + (d - 1)) * 5 + 2) / 153 = if m ≤ 2 then m + 9 else m - 3 := by
  obtain ⟨⟨hm1, hm12⟩, hd1, hdm⟩ := hd
  have hfeb : (if IsLeap y then 29 else 28) ≤ 29 := by split <;> omega
  interval_cases m <;> simp [marchOffset, monthDays] at * <;> omega

/-! ## From a day in a March year to its date -/

/-- The month with number `k` from March. -/
def monthFromMarch (k : ℕ) : ℕ := if 9 < k then k - 9 else k + 3

/-- The date of day `o` of a March year that is not its leap day. -/
theorem isDate_of_offset (y : ℕ) {o k : ℕ} (ho : o < 365) (hk : (o * 5 + 2) / 153 = k) :
    k < 12 ∧ marchOffset (monthFromMarch k) ≤ o ∧
      IsDate (if 9 < k then y + 1 else y) (monthFromMarch k)
        (o - marchOffset (monthFromMarch k) + 1) := by
  have hk12 : k < 12 := by omega
  have hmonth : 1 ≤ monthFromMarch k ∧ monthFromMarch k ≤ 12 := by
    unfold monthFromMarch
    split <;> omega
  have hfeb : 28 ≤ (if IsLeap (y + 1) then 29 else 28) := by split <;> omega
  have hoff : marchOffset (monthFromMarch k) ≤ o ∧ o - marchOffset (monthFromMarch k) + 1 ≤
      monthDays (if 9 < k then y + 1 else y) (monthFromMarch k) := by
    interval_cases k <;> simp [monthFromMarch, marchOffset, monthDays] <;> omega
  exact ⟨hk12, hoff.1, hmonth, by omega, hoff.2⟩

theorem daysSince_of_offset {y₀ y o k : ℕ} (ho : o < 365) (hk : (o * 5 + 2) / 153 = k)
    (hy : y₀ + 1 ≤ if 9 < k then y + 1 else y) :
    daysSince (y₀ + 1) (if 9 < k then y + 1 else y) (monthFromMarch k)
      (o - marchOffset (monthFromMarch k) + 1) + (marchDays y₀ + 306) = marchDays y + o := by
  obtain ⟨hk12, hle, hdate⟩ := isDate_of_offset y ho hk
  rw [daysSince_march hy hdate]
  have hyear : marchYear (if 9 < k then y + 1 else y) (monthFromMarch k) = y := by
    unfold marchYear monthFromMarch
    split <;> split <;> omega
  rw [hyear]
  omega

/-- The last day of a March year whose February has a leap day. -/
theorem daysSince_leapDay {y₀ y : ℕ} (hy : y₀ + 1 ≤ y) (hl : IsLeap y) :
    IsDate y 2 29 ∧ daysSince (y₀ + 1) y 2 29 + (marchDays y₀ + 306) + 1 = marchDays y := by
  have hdate : IsDate y 2 29 := ⟨by decide, by decide, by simp [monthDays, hl]⟩
  refine ⟨hdate, ?_⟩
  obtain ⟨y, rfl⟩ : ∃ z, y = z + 1 := ⟨y - 1, by omega⟩
  rw [daysSince_march hy hdate, marchDays_succ, yearDays, if_pos hl]
  simp [marchYear, marchOffset]

/-! ## Dates that are equally far from a year -/

theorem offset_lt {y m d : ℕ} (hy : 1 ≤ y) (hd : IsDate y m d) :
    marchOffset m + (d - 1) < yearDays (marchYear y m + 1) := by
  obtain ⟨y, rfl⟩ : ∃ z, y = z + 1 := ⟨y - 1, by omega⟩
  obtain ⟨⟨hm1, hm12⟩, hd1, hdm⟩ := hd
  unfold marchYear
  by_cases hm : m = 2
  · subst hm
    simp only [monthDays, marchOffset, yearDays] at *
    split at hdm <;> simp_all <;> omega
  · have := le_yearDays ((if m ≤ 2 then y + 1 - 1 else y + 1) + 1)
    interval_cases m <;> simp [marchOffset, monthDays] at * <;> omega

/-- Two dates that are equally far from a year are the same. -/
theorem daysSince_inj {y₀ y m d y' m' d' : ℕ} (hy : y₀ + 1 ≤ y) (hd : IsDate y m d)
    (hy' : y₀ + 1 ≤ y') (hd' : IsDate y' m' d')
    (h : daysSince (y₀ + 1) y m d = daysSince (y₀ + 1) y' m' d') : y = y' ∧ m = m' ∧ d = d' := by
  have hmarch := daysSince_march hy hd
  have hmarch' := daysSince_march hy' hd'
  have hlt := offset_lt (by omega) hd
  have hlt' := offset_lt (by omega) hd'
  have hyear : marchYear y m = marchYear y' m' := by
    -- a later March year begins after the last day of an earlier one
    by_contra hne
    rcases Nat.lt_or_gt_of_ne hne with hlt | hgt
    · have := marchDays_mono (Nat.succ_le_of_lt hlt)
      rw [Nat.succ_eq_add_one, marchDays_succ] at this
      omega
    · have := marchDays_mono (Nat.succ_le_of_lt hgt)
      rw [Nat.succ_eq_add_one, marchDays_succ] at this
      omega
  have hoff : marchOffset m + (d - 1) = marchOffset m' + (d' - 1) := by
    rw [hyear] at hmarch
    omega
  have hmonth : m = m' := by
    have hm := month_of_offset hd
    rw [hoff, month_of_offset hd'] at hm
    have := hd.month
    have := hd'.month
    split at hm <;> split at hm <;> omega
  subst hmonth
  unfold marchYear at hyear
  have := hd.day
  have := hd'.day
  refine ⟨?_, rfl, by omega⟩
  split at hyear <;> omega

end Urchin.Gregorian
