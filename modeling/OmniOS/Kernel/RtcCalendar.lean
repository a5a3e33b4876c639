import OmniOS.Kernel.Rtc
import OmniOS.Lib.Gregorian

/-!
# OmniOS.Kernel.RtcCalendar — `epoch_to_time` and the Gregorian calendar

`is_leap` and `days_in_month` are the rules of the calendar, so the years and months that
`epoch_to_time` subtracts are those of the calendar, and what it finds is the moment that
many seconds after 1970. Up to the year 65535 the year fits its 16 bits.
-/

namespace OmniOS.Rtc

open Gregorian

def RtcTime.moment (t : RtcTime) : Moment :=
  ⟨t.year.toNat, t.month.toNat, t.day.toNat, t.hour.toNat, t.minute.toNat, t.second.toNat⟩

/-- The first second of year `y`. -/
def newYear (y : Nat) : Moment := ⟨y, 1, 1, 0, 0, 0⟩

theorem isLeap_iff (y : Nat) : isLeap y = true ↔ Leap y := by
  simp only [isLeap, Bool.or_eq_true, Bool.and_eq_true, beq_iff_eq, bne_iff_ne]
  unfold Leap
  omega

theorem yearDays_eq (y : Nat) : yearDays y = Gregorian.yearLength y :=
  if_congr (isLeap_iff y) rfl rfl

theorem daysInMonth_eq (y : Nat) {m : Nat} (hm : 1 ≤ m) (hm' : m ≤ 12) :
    daysInMonth y m = monthLength y m := by
  by_cases hleap : Leap y
  · have hleap' := (isLeap_iff y).mpr hleap
    interval_cases m <;> simp [daysInMonth, monthLength, hleap, hleap']
  · have hleap' := mt (isLeap_iff y).mp hleap
    interval_cases m <;> simp [daysInMonth, monthLength, hleap, hleap']

theorem newYear_seconds (y : Nat) : (newYear y).seconds = yearDay y * 86400 := by
  simp [newYear, Moment.seconds, Moment.timeOfDay, monthDay]

/-- The years from 1970 on are those of the calendar. -/
theorem yearDay_eq_yearStart {y : Nat} (hy : 1970 ≤ y) :
    yearDay y * 86400 = yearDay 1970 * 86400 + yearStart y := by
  obtain ⟨k, rfl⟩ : ∃ k, y = 1969 + k + 1 := ⟨y - 1970, by omega⟩
  have hk : 1969 + k + 1 - 1970 = k := by omega
  have hlength : (fun i => Gregorian.yearLength (1969 + i + 1) * 86400) = yearLength := by
    funext i
    rw [yearLength, yearDays_eq, Nat.add_right_comm]
  rw [yearDay_eq, yearDay_eq 1969, Spans.start_add, Nat.add_mul, ← Spans.start_mul 86400 k,
    hlength, yearStart, hk]

theorem monthStart_eq (y : Nat) {m : Nat} (hm : 1 ≤ m) (hm' : m ≤ 12) :
    monthStart y m = monthDay y m := by
  obtain ⟨i, rfl⟩ : ∃ i, m = i + 1 := ⟨m - 1, by omega⟩
  rw [monthDay_eq y (by omega), monthStart, Nat.add_sub_cancel]
  clear hm
  induction i with
  | zero => rfl
  | succ i ih =>
      rw [Spans.start, Spans.start, ih (by omega), daysInMonth_eq y (by omega) (by omega)]

section Moments

variable {t : RtcTime}

theorem Date.moment_valid (h : Date t.year.toNat t) (hy : 1 ≤ t.year.toNat) : t.moment.Valid where
  year := hy
  month := h.month
  day := by
    have hday := h.day
    rwa [daysInMonth_eq _ h.month.1 h.month.2] at hday
  hour := h.hour
  minute := h.minute
  second := h.second

theorem Date.moment_seconds (h : Date t.year.toNat t) (hy : 1970 ≤ t.year.toNat) :
    t.moment.seconds = (newYear 1970).seconds + secondsOf t.year.toNat t := by
  have hyear := yearDay_eq_yearStart hy
  have hmonth := monthStart_eq t.year.toNat h.month.1 h.month.2
  rw [newYear_seconds, secondsOf, hmonth]
  show (yearDay t.year.toNat + monthDay t.year.toNat t.month.toNat + (t.day.toNat - 1)) * 86400 +
    (t.hour.toNat * 3600 + t.minute.toNat * 60 + t.second.toNat) = _
  rw [Nat.add_assoc (yearDay _), Nat.add_mul, hyear]
  simp only [Nat.add_assoc]

/-- An epoch before year `y` is in a year before it. -/
theorem exists_inYear {e y : Nat} (hy : 1970 ≤ y)
    (h : (newYear 1970).seconds + e < (newYear y).seconds) : ∃ k, k < y ∧ InYear e k := by
  rw [newYear_seconds, newYear_seconds, yearDay_eq_yearStart hy, yearStart] at h
  rcases Spans.exists_in (Nat.lt_of_add_lt_add_left h) with ⟨j, hj, hin⟩
  exact ⟨1970 + j, Nat.add_lt_of_lt_sub' hj, inYear_of_in hin⟩

end Moments

/-- The moment of an epoch. -/
theorem epochToTime_moment {epoch : UInt64}
    (h : (newYear 1970).seconds + epoch.toNat < (newYear 65536).seconds) (t : RtcTime) :
    ∃ r, epochToTime epoch t = some r ∧ r.moment.Valid ∧
      r.moment.seconds = (newYear 1970).seconds + epoch.toNat := by
  have hlast : 1970 ≤ 65536 := by omega
  rcases exists_inYear hlast h with ⟨y, hmax, hin⟩
  have hfirst := hin.1
  rcases epochToTime_spec hin (by omega) t with ⟨r, hr, hyear, hdate, hsecs⟩
  have hyear' : r.year.toNat = y := by
    rw [hyear, UInt16.toNat_ofNat']
    exact Nat.mod_eq_of_lt hmax
  rw [← hyear'] at hdate hsecs
  refine ⟨r, hr, hdate.moment_valid (by omega), ?_⟩
  rw [hdate.moment_seconds (by omega), hsecs]

/-- `epoch_to_time` gives the moment of the calendar that many seconds after 1970, and a
later one for a larger epoch. -/
theorem epoch_to_time_gregorian {epoch : UInt64}
    (h : (newYear 1970).seconds + epoch.toNat < (newYear 65536).seconds) (t : RtcTime) :
    ∃ r, epochToTime epoch t = some r ∧ r.moment.Valid ∧
      r.moment.seconds = (newYear 1970).seconds + epoch.toNat ∧
      ∀ later : UInt64, epoch < later →
        (newYear 1970).seconds + later.toNat < (newYear 65536).seconds →
        ∀ t', ∃ r', epochToTime later t' = some r' ∧ r.moment.Before r'.moment := by
  rcases epochToTime_moment h t with ⟨r, hr, hvalid, hsecs⟩
  refine ⟨r, hr, hvalid, hsecs, fun later hlt hlater t' => ?_⟩
  rcases epochToTime_moment hlater t' with ⟨r', hr', hvalid', hsecs'⟩
  refine ⟨r', hr', Moment.before_of_seconds_lt hvalid hvalid' ?_⟩
  rw [hsecs, hsecs']
  exact Nat.add_lt_add_left (UInt64.lt_iff_toNat_lt.mp hlt) _

/-- The base of the clock is 22:13:20 on 14 November 2023. -/
theorem epoch_to_time_base :
    ∃ r, epochToTime 1700000000 ⟨0, 0, 0, 0, 0, 0⟩ = some r ∧ r.moment.Valid ∧
      r.moment.seconds = Moment.seconds ⟨2023, 11, 14, 22, 13, 20⟩ := by
  rcases @epoch_to_time_gregorian 1700000000 (by decide +kernel) ⟨0, 0, 0, 0, 0, 0⟩ with
    ⟨r, hr, hvalid, hsecs, -⟩
  refine ⟨r, hr, hvalid, ?_⟩
  rw [hsecs]
  decide +kernel

end OmniOS.Rtc
