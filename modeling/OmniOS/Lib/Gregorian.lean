import Mathlib.Data.List.Lex
import Mathlib.Tactic.IntervalCases
import OmniOS.Lib.Spans

/-!
# Gregorian — the proleptic Gregorian calendar

The days before a year and before a month in closed form (`yearDay`, `monthDay`): they are
where the years and the months start, laid end to end (`yearDay_eq`, `monthDay_eq`). A
moment is a date and a time of day; `seconds` counts from the start of year 1, and follows
the order of the calendar (`before_of_seconds_lt`).
-/

namespace Gregorian

/-- Every fourth year, of the centuries only every fourth. -/
def Leap (y : Nat) : Prop := 4 ∣ y ∧ (¬ 100 ∣ y ∨ 400 ∣ y)

instance : DecidablePred Leap := fun y =>
  inferInstanceAs (Decidable (4 ∣ y ∧ (¬ 100 ∣ y ∨ 400 ∣ y)))

/-- The days of year `y`. -/
def yearLength (y : Nat) : Nat := if Leap y then 366 else 365

/-- The days of month `m`, from 1 to 12. -/
def monthLength (y m : Nat) : Nat :=
  if m = 2 then if Leap y then 29 else 28
  else if m = 4 ∨ m = 6 ∨ m = 9 ∨ m = 11 then 30
  else 31

/-- The leap years from 1 to `y`. -/
def leapYears (y : Nat) : Nat := y / 4 - y / 100 + y / 400

/-- The days from the start of year 1 to the start of year `y`. -/
def yearDay (y : Nat) : Nat := 365 * (y - 1) + leapYears (y - 1)

/-- The days of year `y` before month `m`. -/
def monthDay (y m : Nat) : Nat :=
  [0, 31, 59, 90, 120, 151, 181, 212, 243, 273, 304, 334].getD (m - 1) 0 +
    if 2 < m ∧ Leap y then 1 else 0

structure Moment where
  year : Nat
  month : Nat
  day : Nat
  hour : Nat
  minute : Nat
  second : Nat
deriving DecidableEq

namespace Moment

structure Valid (a : Moment) : Prop where
  year : 1 ≤ a.year
  month : 1 ≤ a.month ∧ a.month ≤ 12
  day : 1 ≤ a.day ∧ a.day ≤ monthLength a.year a.month
  hour : a.hour < 24
  minute : a.minute < 60
  second : a.second < 60

def timeOfDay (a : Moment) : Nat := a.hour * 3600 + a.minute * 60 + a.second

/-- From the start of year 1. -/
def seconds (a : Moment) : Nat :=
  (yearDay a.year + monthDay a.year a.month + (a.day - 1)) * 86400 + a.timeOfDay

def fields (a : Moment) : List Nat := [a.year, a.month, a.day, a.hour, a.minute, a.second]

/-- Lexicographic order. -/
def Before (a b : Moment) : Prop := a.fields < b.fields

end Moment

theorem leapYears_succ (y : Nat) :
    leapYears (y + 1) = leapYears y + if Leap (y + 1) then 1 else 0 := by
  have hle : y / 100 ≤ y / 4 := Nat.div_le_div_left (by decide) (by decide)
  unfold leapYears
  by_cases hfour : 4 ∣ y + 1
  · by_cases hcentury : 100 ∣ y + 1
    · by_cases hfourth : 400 ∣ y + 1
      · have hleap : Leap (y + 1) := ⟨hfour, Or.inr hfourth⟩
        rw [Nat.succ_div_of_dvd hfour, Nat.succ_div_of_dvd hcentury, Nat.succ_div_of_dvd hfourth,
          if_pos hleap, Nat.add_sub_add_right, Nat.add_assoc]
      · have hleap : ¬ Leap (y + 1) := fun h => h.2.elim (fun hnot => hnot hcentury) hfourth
        rw [Nat.succ_div_of_dvd hfour, Nat.succ_div_of_dvd hcentury,
          Nat.succ_div_of_not_dvd hfourth, if_neg hleap, Nat.add_sub_add_right, Nat.add_zero]
    · have hfourth : ¬ 400 ∣ y + 1 := mt (dvd_trans ⟨4, rfl⟩) hcentury
      have hleap : Leap (y + 1) := ⟨hfour, Or.inl hcentury⟩
      rw [Nat.succ_div_of_dvd hfour, Nat.succ_div_of_not_dvd hcentury,
        Nat.succ_div_of_not_dvd hfourth, if_pos hleap, Nat.sub_add_comm hle, Nat.add_right_comm]
  · have hcentury : ¬ 100 ∣ y + 1 := mt (dvd_trans ⟨25, rfl⟩) hfour
    have hfourth : ¬ 400 ∣ y + 1 := mt (dvd_trans ⟨100, rfl⟩) hfour
    have hleap : ¬ Leap (y + 1) := fun h => hfour h.1
    rw [Nat.succ_div_of_not_dvd hfour, Nat.succ_div_of_not_dvd hcentury,
      Nat.succ_div_of_not_dvd hfourth, if_neg hleap, Nat.add_zero]

/-- The years, laid end to end. -/
theorem yearDay_eq (k : Nat) : yearDay (k + 1) = Spans.start (fun i => yearLength (i + 1)) k := by
  induction k with
  | zero => rfl
  | succ k ih =>
      have hleap := leapYears_succ k
      rw [Spans.start, ← ih, yearLength]
      unfold yearDay
      rw [Nat.add_sub_cancel, Nat.add_sub_cancel, hleap]
      split
      · omega
      · omega

/-- The months, laid end to end. -/
theorem monthDay_eq (y : Nat) {i : Nat} (hi : i < 12) :
    monthDay y (i + 1) = Spans.start (fun i => monthLength y (i + 1)) i := by
  by_cases hleap : Leap y
  · interval_cases i <;> simp [monthDay, Spans.start, monthLength, hleap]
  · interval_cases i <;> simp [monthDay, Spans.start, monthLength, hleap]

theorem months_eq_year (y : Nat) :
    Spans.start (fun i => monthLength y (i + 1)) 12 = yearLength y := by
  by_cases hleap : Leap y
  · simp [Spans.start, monthLength, yearLength, hleap]
  · simp [Spans.start, monthLength, yearLength, hleap]

/-- Larger units first. -/
theorem lt_or_eq_of_mul_add_lt {c j k s t : Nat} (h : j * c + s < k * c + t) (ht : t < c) :
    j < k ∨ j = k ∧ s < t := by
  rcases Nat.lt_trichotomy j k with hlt | rfl | hgt
  · exact Or.inl hlt
  · exact Or.inr ⟨rfl, Nat.lt_of_add_lt_add_left h⟩
  · have hmul := Nat.mul_le_mul_right c (Nat.succ_le_of_lt hgt)
    rw [Nat.succ_mul] at hmul
    omega

namespace Moment

variable {a b : Moment}

theorem Valid.monthDay_eq (ha : a.Valid) : monthDay a.year a.month =
    Spans.start (fun i => monthLength a.year (i + 1)) (a.month - 1) := by
  obtain ⟨i, hi⟩ : ∃ i, a.month = i + 1 := ⟨a.month - 1, by have := ha.month; omega⟩
  have hlast := ha.month.2
  rw [hi] at hlast ⊢
  exact Gregorian.monthDay_eq _ hlast

theorem Valid.yearDay_eq (ha : a.Valid) :
    yearDay a.year = Spans.start (fun i => yearLength (i + 1)) (a.year - 1) := by
  obtain ⟨k, hk⟩ : ∃ k, a.year = k + 1 := ⟨a.year - 1, by have := ha.year; omega⟩
  rw [hk]
  exact Gregorian.yearDay_eq k

/-- A date is in its month. -/
theorem Valid.day_lt (ha : a.Valid) : a.day - 1 < monthLength a.year (a.month - 1 + 1) := by
  have hday := ha.day
  rw [Nat.sub_add_cancel ha.month.1]
  omega

/-- A date is in its year. -/
theorem Valid.dayOfYear_lt (ha : a.Valid) :
    monthDay a.year a.month + (a.day - 1) < yearLength (a.year - 1 + 1) := by
  have hday := ha.day_lt
  have hlast : Spans.start (fun i => monthLength a.year (i + 1)) (a.month - 1 + 1) ≤
      Spans.start (fun i => monthLength a.year (i + 1)) 12 :=
    Spans.start_mono (by have := ha.month; omega)
  rw [months_eq_year, Spans.start] at hlast
  rw [Nat.sub_add_cancel ha.year, ha.monthDay_eq]
  omega

theorem Valid.timeOfDay_lt (ha : a.Valid) : a.timeOfDay < 86400 := by
  have hhour := ha.hour
  have hminute := ha.minute
  have hsecond := ha.second
  unfold timeOfDay
  omega

/-- The year, and what is left of the seconds. -/
theorem year_lt_or_eq (ha : a.Valid) (hb : b.Valid) (h : a.seconds < b.seconds) :
    a.year < b.year ∨ a.year = b.year ∧
      (monthDay a.year a.month + (a.day - 1)) * 86400 + a.timeOfDay <
        (monthDay b.year b.month + (b.day - 1)) * 86400 + b.timeOfDay := by
  rw [seconds, seconds, Nat.add_assoc, Nat.add_assoc (yearDay b.year), ha.yearDay_eq,
    hb.yearDay_eq] at h
  exact (Spans.lt_or_eq_of_lt h hb.dayOfYear_lt hb.timeOfDay_lt).imp
    lt_of_tsub_lt_tsub_right (And.imp_left (Nat.sub_one_cancel ha.year hb.year))

/-- The month, and what is left. -/
theorem month_lt_or_eq (ha : a.Valid) (hb : b.Valid) (hyear : a.year = b.year)
    (h : (monthDay a.year a.month + (a.day - 1)) * 86400 + a.timeOfDay <
      (monthDay b.year b.month + (b.day - 1)) * 86400 + b.timeOfDay) :
    a.month < b.month ∨ a.month = b.month ∧
      (a.day - 1) * 86400 + a.timeOfDay < (b.day - 1) * 86400 + b.timeOfDay := by
  rw [ha.monthDay_eq, hb.monthDay_eq, hyear] at h
  exact (Spans.lt_or_eq_of_lt h hb.day_lt hb.timeOfDay_lt).imp
    lt_of_tsub_lt_tsub_right (And.imp_left (Nat.sub_one_cancel ha.month.1 hb.month.1))

/-- The order of the seconds is that of the calendar. -/
theorem before_of_seconds_lt (ha : a.Valid) (hb : b.Valid) (h : a.seconds < b.seconds) :
    a.Before b := by
  have hsecond := hb.second
  have hminute : b.minute * 60 + b.second < 3600 := by
    have hminute := hb.minute
    omega
  simp only [Before, fields, List.cons_lt_cons_iff]
  refine (year_lt_or_eq ha hb h).imp_right fun hyear => ⟨hyear.1, ?_⟩
  refine (month_lt_or_eq ha hb hyear.1 hyear.2).imp_right fun hmonth => ⟨hmonth.1, ?_⟩
  refine (lt_or_eq_of_mul_add_lt hmonth.2 hb.timeOfDay_lt).imp lt_of_tsub_lt_tsub_right
    fun hday => ⟨Nat.sub_one_cancel ha.day.1 hb.day.1 hday.1, ?_⟩
  have htime := hday.2
  rw [timeOfDay, timeOfDay, Nat.add_assoc, Nat.add_assoc] at htime
  refine (lt_or_eq_of_mul_add_lt htime hminute).imp_right fun hhour => ⟨hhour.1, ?_⟩
  refine (lt_or_eq_of_mul_add_lt hhour.2 hsecond).imp_right fun hminute => ⟨hminute.1, ?_⟩
  exact Or.inl hminute.2

end Moment

end Gregorian
