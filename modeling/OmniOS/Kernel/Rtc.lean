import Mathlib.Algebra.Group.Int.Defs
import Mathlib.Algebra.Group.Nat.Defs
import OmniOS.Lib.Spans
import OmniOS.Lib.Words

/-!
# OmniOS.Kernel.Rtc — the clock of `kernel/bsp/sm8250/drivers/rtc.c`

The clock counts seconds since 1970. `epoch_to_time` subtracts years and months one by
one, with the Gregorian leap rule; `time_to_epoch` takes the leap days before a year from
the formula `(y - 1969) / 4`, which has a leap day for every fourth year. The two agree
up to the year 2100, the first year that only the formula has a leap day for.
-/

namespace OmniOS.Rtc

/-- `rtc_time_t`. -/
structure RtcTime where
  year : UInt16
  month : UInt8
  day : UInt8
  hour : UInt8
  minute : UInt8
  second : UInt8
deriving DecidableEq

/-- Conversion of an `int` to `uint64_t`. -/
def toUInt64 (x : Int) : UInt64 := UInt64.ofNat (x % 2 ^ 64).toNat

def isLeap (y : Nat) : Bool := (y % 4 == 0 && y % 100 != 0) || y % 400 == 0

/-- For months 1 to 12. -/
def daysInMonth (y m : Nat) : Nat :=
  if m = 2 ∧ isLeap y then 29
  else [31, 28, 31, 30, 31, 30, 31, 31, 30, 31, 30, 31].getD (m - 1) 0

/-- A month above 13 reads past the table of `days_in_month`. -/
def timeToEpoch (t : RtcTime) : Option UInt64 :=
  if 13 < t.month.toNat then none
  else
    let y := t.year.toNat
    let m := t.month.toNat
    let days := toUInt64 ((y - 1970) * 365 + ((y : Int) - 1969).tdiv 4)
    let days := (List.range' 1 (m - 1)).foldl
      (fun days i => days + UInt64.ofNat (daysInMonth y i)) days
    let days := days + toUInt64 (t.day.toNat - 1)
    some (days * 86400 + UInt64.ofNat (t.hour.toNat * 3600) + UInt64.ofNat (t.minute.toNat * 60) +
      UInt64.ofNat t.second.toNat)

def yearDays (y : Nat) : Nat := if isLeap y then 366 else 365

/-- The seconds of year `1970 + k`. -/
def yearLength (k : Nat) : Nat := yearDays (1970 + k) * 86400

/-- The loop over years: the year, as its distance from 1970, and the seconds left. The
`int` overflows after `2 ^ 31 - 1970` years. -/
def yearLoop (epoch : Nat) : Option Nat × Nat := Spans.scan yearLength (2 ^ 31 - 1970) 0 epoch

/-- The loop over the months 1 to 12 of year `y`: the month before the one that is found,
and the seconds left. -/
def monthLoop (y epoch : Nat) : Option Nat × Nat :=
  Spans.scan (fun i => daysInMonth y (i + 1) * 86400) 12 0 epoch

/-- `t` is what the result points to before the call. -/
def epochToTime (epoch : UInt64) (t : RtcTime) : Option RtcTime :=
  match yearLoop epoch.toNat with
  | (none, _) => none
  | (some k, epoch) =>
      let y := 1970 + k
      let r := monthLoop y epoch
      let month := match r.1 with
        | none => t.month
        | some i => UInt8.ofNat (i + 1)
      let epoch := r.2
      some
        { year := UInt16.ofNat y
          month := month
          day := UInt8.ofNat (epoch / 86400) + 1
          hour := UInt8.ofNat (epoch % 86400 / 3600)
          minute := UInt8.ofNat (epoch % 86400 % 3600 / 60)
          second := UInt8.ofNat (epoch % 86400 % 3600 % 60) }

/-- `RTC_TIME_LOW`, `RTC_TIME_HIGH` and `rtc_initialized`. -/
structure Clock where
  low : UInt32
  high : UInt32
  initialized : Bool

def rtcGetEpoch (c : Clock) : UInt64 :=
  if c.initialized then c.high.toUInt64 <<< 32 ||| c.low.toUInt64 else 0

def rtcSetEpoch (c : Clock) (epoch : UInt64) : Clock :=
  { c with low := (epoch &&& 0xFFFFFFFF).toUInt32, high := (epoch >>> 32).toUInt32 }

def rtcGetTime (c : Clock) (t : RtcTime) : Option RtcTime := epochToTime (rtcGetEpoch c) t

def rtcSetTime (c : Clock) (t : RtcTime) : Option Clock :=
  (timeToEpoch t).map (rtcSetEpoch c)

/-! ## The calendar -/

/-- The fields are a date of year `y` of the Gregorian calendar. -/
structure Date (y : Nat) (t : RtcTime) : Prop where
  month : 1 ≤ t.month.toNat ∧ t.month.toNat ≤ 12
  day : 1 ≤ t.day.toNat ∧ t.day.toNat ≤ daysInMonth y t.month.toNat
  hour : t.hour.toNat < 24
  minute : t.minute.toNat < 60
  second : t.second.toNat < 60

/-- A date from 1970 on. -/
def RtcTime.Valid (t : RtcTime) : Prop := 1970 ≤ t.year.toNat ∧ Date t.year.toNat t

/-- The seconds from 1970 to the start of year `y`. -/
def yearStart (y : Nat) : Nat := Spans.start yearLength (y - 1970)

/-- Second `epoch` is in year `y`. -/
def InYear (epoch y : Nat) : Prop := 1970 ≤ y ∧ yearStart y ≤ epoch ∧ epoch < yearStart (y + 1)

/-- The days of year `y` before month `m`. -/
def monthStart (y m : Nat) : Nat := Spans.start (fun i => daysInMonth y (i + 1)) (m - 1)

/-- The seconds of a date, in year `y`. -/
def secondsOf (y : Nat) (t : RtcTime) : Nat :=
  yearStart y + (monthStart y t.month.toNat + (t.day.toNat - 1)) * 86400 + t.hour.toNat * 3600 +
    t.minute.toNat * 60 + t.second.toNat

/-- The leap days that `(y - 1969) / 4` has for years up to `1970 + k` and the calendar has
not. -/
def skipped : Nat → Nat
  | 0 => 0
  | k + 1 => skipped k + if (1970 + k) % 4 = 0 ∧ isLeap (1970 + k) = false then 1 else 0

section Calendar

variable {y : Nat} {t t' : RtcTime}

theorem daysInMonth_le (y m : Nat) : daysInMonth y m ≤ 31 := by
  have htable : ∀ d ∈ [31, 28, 31, 30, 31, 30, 31, 31, 30, 31, 30, 31], d ≤ 31 := by decide
  rw [daysInMonth, List.getD_eq_getElem?_getD]
  split
  · decide
  · cases hd : [31, 28, 31, 30, 31, 30, 31, 31, 30, 31, 30, 31][m - 1]? with
    | none => exact Nat.zero_le 31
    | some d => exact htable d (List.mem_of_getElem? hd)

/-- The months make a year. -/
theorem months_eq_year (y : Nat) :
    Spans.start (fun i => daysInMonth y (i + 1)) 12 = yearDays y := by
  cases hleap : isLeap y with
  | false => simp [Spans.start, daysInMonth, yearDays, hleap]
  | true => simp [Spans.start, daysInMonth, yearDays, hleap]

theorem yearDays_bounds (y : Nat) : 365 ≤ yearDays y ∧ yearDays y ≤ 366 := by
  unfold yearDays
  split
  · decide
  · decide

theorem monthStart_succ (y : Nat) {m : Nat} (hm : 1 ≤ m) :
    monthStart y (m + 1) = monthStart y m + daysInMonth y m := by
  obtain ⟨i, rfl⟩ : ∃ i, m = i + 1 := ⟨m - 1, by omega⟩
  rfl

theorem yearStart_succ (hy : 1970 ≤ y) :
    yearStart (y + 1) = yearStart y + yearDays y * 86400 := by
  have hnext : y + 1 - 1970 = y - 1970 + 1 := by omega
  have hyear : 1970 + (y - 1970) = y := by omega
  rw [yearStart, hnext, Spans.start, yearLength, hyear, yearStart]

/-- The days of a date are in its month. -/
theorem Date.in_month (h : Date y t) :
    Spans.In (fun i => daysInMonth y (i + 1)) (monthStart y t.month.toNat + (t.day.toNat - 1))
      (t.month.toNat - 1) := by
  have hm := h.month.1
  have hday := h.day
  have hnext := monthStart_succ y hm
  have hidx : t.month.toNat - 1 + 1 = t.month.toNat + 1 - 1 := by omega
  refine ⟨Nat.le_add_right _ _, ?_⟩
  rw [hidx]
  show _ < monthStart y (t.month.toNat + 1)
  omega

/-- The seconds of a date are in its year. -/
theorem Date.in_year (h : Date y t) (hy : 1970 ≤ y) : InYear (secondsOf y t) y := by
  have hin := h.in_month
  have hlast : Spans.start (fun i => daysInMonth y (i + 1)) (t.month.toNat - 1 + 1) ≤
      Spans.start (fun i => daysInMonth y (i + 1)) 12 :=
    Spans.start_mono (by have := h.month; omega)
  rw [months_eq_year] at hlast
  have hlt := hin.2.trans_le hlast
  have hhour := h.hour
  have hminute := h.minute
  have hsecond := h.second
  refine ⟨hy, ?_, ?_⟩
  · unfold secondsOf
    omega
  · rw [yearStart_succ hy]
    unfold secondsOf
    omega

/-- A date is determined by its seconds. -/
theorem Date.eq_of_secondsOf (h : Date y t) (h' : Date y t') (hyear : t.year = t'.year)
    (heq : secondsOf y t = secondsOf y t') : t = t' := by
  have hhour := h.hour
  have hminute := h.minute
  have hsecond := h.second
  have hhour' := h'.hour
  have hminute' := h'.minute
  have hsecond' := h'.second
  unfold secondsOf at heq
  have hdays : monthStart y t.month.toNat + (t.day.toNat - 1) =
      monthStart y t'.month.toNat + (t'.day.toNat - 1) := by
    omega
  have hidx : t.month.toNat - 1 = t'.month.toNat - 1 :=
    Spans.unique h.in_month (hdays ▸ h'.in_month)
  have hmonth : t.month.toNat = t'.month.toNat := by
    have hm := h.month
    have hm' := h'.month
    omega
  rw [hmonth] at hdays
  have hday : t.day.toNat = t'.day.toNat := by
    have hd := h.day
    have hd' := h'.day
    omega
  cases t
  cases t'
  simp only [RtcTime.mk.injEq, ← UInt8.toNat_inj] at *
  refine ⟨hyear, hmonth, hday, ?_, ?_, ?_⟩
  · omega
  · omega
  · omega

end Calendar

/-! ## The two directions -/

section Decode

variable {y e : Nat}

theorem yearLoop_eq (hin : InYear e y) (hmax : y < 2 ^ 31) :
    yearLoop e = (some (y - 1970), e - yearStart y) := by
  rcases hin with ⟨hy, hstart, hend⟩
  have hzero : Spans.start yearLength 0 + e = e := Nat.zero_add e
  have hnext : y - 1970 + 1 = y + 1 - 1970 := by omega
  have hin : Spans.In yearLength (Spans.start yearLength 0 + e) (y - 1970) := by
    rw [hzero]
    refine ⟨hstart, ?_⟩
    rw [hnext]
    exact hend
  rw [yearLoop, Spans.scan_eq hin (Nat.zero_le _) (by omega), hzero]
  rfl

/-- The month of a second of the year, and the seconds from the start of the month. -/
theorem monthLoop_spec (he : e < yearDays y * 86400) :
    ∃ i d, i < 12 ∧ monthLoop y e = (some i, d) ∧ e = monthStart y (i + 1) * 86400 + d ∧
      d < daysInMonth y (i + 1) * 86400 := by
  rw [← months_eq_year, ← Spans.start_mul] at he
  rcases Spans.exists_in he with ⟨i, hi, hin⟩
  have hzero : Spans.start (fun i => daysInMonth y (i + 1) * 86400) 0 + e = e := Nat.zero_add e
  have hloop : monthLoop y e = (some i, e - monthStart y (i + 1) * 86400) := by
    rw [monthLoop, Spans.scan_eq (by rwa [hzero]) (Nat.zero_le _) (by omega), hzero,
      Spans.start_mul]
    rfl
  rcases hin with ⟨hfirst, hnext⟩
  rw [Spans.start_mul] at hfirst hnext
  change monthStart y (i + 1) * 86400 ≤ e at hfirst
  change e < monthStart y (i + 1 + 1) * 86400 at hnext
  rw [monthStart_succ y (Nat.le_add_left 1 i), Nat.add_mul] at hnext
  exact ⟨i, _, hi, hloop, by omega, by omega⟩

theorem toNat_ofNat8 {k : Nat} (hk : k < 256) : (UInt8.ofNat k).toNat = k := by
  rw [UInt8.toNat_ofNat']
  omega

/-- `epoch_to_time` finds the date; its year is cut to 16 bits. -/
theorem epochToTime_spec {epoch : UInt64} (hin : InYear epoch.toNat y) (hmax : y < 2 ^ 31)
    (t : RtcTime) :
    ∃ r, epochToTime epoch t = some r ∧ r.year = UInt16.ofNat y ∧ Date y r ∧
      secondsOf y r = epoch.toNat := by
  have hyear := yearLoop_eq hin hmax
  rcases hin with ⟨hy, hstart, hend⟩
  rw [yearStart_succ hy] at hend
  have hy' : 1970 + (y - 1970) = y := by omega
  have hrest : epoch.toNat - yearStart y < yearDays y * 86400 := by omega
  rcases monthLoop_spec hrest with ⟨i, d, hi, hmonth, hsplit, hd⟩
  have hday : d / 86400 < daysInMonth y (i + 1) := Nat.div_lt_of_lt_mul (by omega)
  have hdays := daysInMonth_le y (i + 1)
  -- no field but the year is cut
  have hmonthByte := toNat_ofNat8 (show i + 1 < 256 by omega)
  have hdayByte : (UInt8.ofNat (d / 86400) + 1).toNat = d / 86400 + 1 := by
    have hone : (1 : UInt8).toNat = 1 := rfl
    rw [UInt8.toNat_add, toNat_ofNat8 (by omega), hone]
    omega
  have hhourByte := toNat_ofNat8 (show d % 86400 / 3600 < 256 by omega)
  have hminuteByte := toNat_ofNat8 (show d % 86400 % 3600 / 60 < 256 by omega)
  have hsecondByte := toNat_ofNat8 (show d % 86400 % 3600 % 60 < 256 by omega)
  rw [epochToTime, hyear]
  simp only [hy', hmonth]
  refine ⟨_, rfl, rfl, ⟨?_, ?_, ?_, ?_, ?_⟩, ?_⟩
  · rw [hmonthByte]
    omega
  · rw [hmonthByte, hdayByte]
    omega
  · rw [hhourByte]
    omega
  · rw [hminuteByte]
    omega
  · rw [hsecondByte]
    omega
  · simp only [secondsOf, hmonthByte, hdayByte, hhourByte, hminuteByte, hsecondByte]
    omega

end Decode

section Encode

theorem year_mod_four (k : Nat) : (1970 + k) % 4 = (k + 2) % 4 := by
  have hyear : 1970 + k = k + 2 + 4 * 492 := by omega
  rw [hyear, Nat.add_mul_mod_self_left]

theorem mod_four_of_leap {k : Nat} (h : isLeap (1970 + k) = true) : (k + 2) % 4 = 0 := by
  rw [← year_mod_four]
  simp only [isLeap, Bool.or_eq_true, Bool.and_eq_true, beq_iff_eq] at h
  omega

/-- The years that make up the formula: the calendar's, and a day for every year that
only the formula has a leap day for. -/
theorem formula_eq (k : Nat) :
    365 * k + (k + 1) / 4 = Spans.start (fun k => yearDays (1970 + k)) k + skipped k := by
  induction k with
  | zero => rfl
  | succ k ih =>
      have hnext : k + 1 + 1 = k + 2 := rfl
      rw [Spans.start, skipped, yearDays, year_mod_four, hnext]
      generalize Spans.start (fun k => yearDays (1970 + k)) k = years at ih
      generalize skipped k = days at ih
      cases hleap : isLeap (1970 + k) with
      | true =>
          have hfour := mod_four_of_leap hleap
          simp only [if_true, reduceCtorEq, and_false, if_false]
          omega
      | false =>
          by_cases hfour : (k + 2) % 4 = 0
          · simp only [reduceCtorEq, if_false, hfour, and_self, if_true]
            omega
          · simp only [reduceCtorEq, if_false, hfour, false_and]
            omega

theorem skipped_mono : Monotone skipped := monotone_nat_of_le_succ fun _ => Nat.le_add_right _ _

/-- The first such year is 2100. -/
theorem skipped_eq_zero {k : Nat} : skipped k = 0 ↔ k ≤ 130 := by
  constructor
  · intro hzero
    by_contra hlate
    have hle : skipped 131 ≤ skipped k := skipped_mono (by omega)
    rw [skipped, if_pos (by decide)] at hle
    omega
  · intro hearly
    induction k with
    | zero => rfl
    | succ k ih =>
        rw [skipped, ih (by omega), if_neg]
        rintro ⟨hfour, hleap⟩
        simp only [isLeap, Bool.or_eq_false_iff, Bool.and_eq_false_iff, beq_eq_false_iff_ne,
          bne_eq_false_iff_eq] at hleap
        omega

theorem skipped_le (k : Nat) : skipped k ≤ k := by
  induction k with
  | zero => exact Nat.le_refl 0
  | succ k ih =>
      rw [skipped]
      split
      · omega
      · omega

theorem toUInt64_natCast (k : Nat) : toUInt64 k = UInt64.ofNat k := by
  apply UInt64.toNat_inj.mp
  rw [toUInt64, UInt64.toNat_ofNat', UInt64.toNat_ofNat']
  omega

/-- The loop that adds the days of the months before. -/
theorem foldl_months (y k : Nat) (days : UInt64) :
    (List.range' 1 k).foldl (fun days i => days + UInt64.ofNat (daysInMonth y i)) days =
      days + UInt64.ofNat (Spans.start (fun i => daysInMonth y (i + 1)) k) := by
  induction k with
  | zero => exact (UInt64.add_zero days).symm
  | succ k ih =>
      have hlast : 1 + 1 * k = k + 1 := by omega
      rw [List.range'_concat, List.foldl_append, ih, hlast, Spans.start, UInt64.ofNat_add,
        ← UInt64.add_assoc]
      rfl

/-- `time_to_epoch` adds a day for every skipped one. -/
theorem timeToEpoch_eq {t : RtcTime} (h : t.Valid) :
    timeToEpoch t =
      some (UInt64.ofNat (secondsOf t.year.toNat t + skipped (t.year.toNat - 1970) * 86400)) := by
  rcases h with ⟨hy, hdate⟩
  have hmonth := hdate.month
  have hday := hdate.day
  obtain ⟨k, hk⟩ : ∃ k, t.year.toNat = 1970 + k := ⟨t.year.toNat - 1970, by omega⟩
  have hyears : ((t.year.toNat : Int) - 1970) * 365 + ((t.year.toNat : Int) - 1969).tdiv 4 =
      ((365 * k + (k + 1) / 4 : Nat) : Int) := by
    rw [hk, Int.tdiv_eq_ediv_of_nonneg (by omega)]
    omega
  have hdays : (t.day.toNat : Int) - 1 = ((t.day.toNat - 1 : Nat) : Int) := by omega
  have hsum : secondsOf t.year.toNat t + skipped (t.year.toNat - 1970) * 86400 =
      (365 * k + (k + 1) / 4 + monthStart t.year.toNat t.month.toNat + (t.day.toNat - 1)) * 86400 +
        t.hour.toNat * 3600 + t.minute.toNat * 60 + t.second.toNat := by
    have hk' : t.year.toNat - 1970 = k := by omega
    have hstart : yearStart t.year.toNat =
        Spans.start (fun k => yearDays (1970 + k)) k * 86400 := by
      rw [yearStart, hk', ← Spans.start_mul]
      rfl
    rw [secondsOf, hstart, hk', formula_eq]
    omega
  rw [timeToEpoch, if_neg (by omega)]
  simp only [hyears, hdays, toUInt64_natCast, foldl_months, hsum]
  simp only [UInt64.ofNat_add, UInt64.ofNat_mul]
  rfl

end Encode

/-! ## Round trips -/

/-- The two halves of the registers make the epoch. -/
theorem rtcGetEpoch_setEpoch (c : Clock) (epoch : UInt64) (hinit : c.initialized = true) :
    rtcGetEpoch (rtcSetEpoch c epoch) = epoch := by
  have hset : (rtcSetEpoch c epoch).initialized = true := hinit
  rw [rtcGetEpoch, if_pos hset]
  apply UInt64.toNat_inj.mp
  rw [Words.toNat_join]
  show (epoch >>> 32).toUInt32.toNat * 2 ^ 32 + (epoch &&& 0xFFFFFFFF).toUInt32.toNat = _
  rw [Words.toNat_high, Words.toNat_low]
  exact Nat.div_add_mod' _ _

/-- What is read after a date was set is the date of its epoch. -/
theorem rtcGetTime_setTime (c : Clock) (t t' : RtcTime) (hinit : c.initialized = true) :
    (rtcSetTime c t).bind (rtcGetTime · t') = (timeToEpoch t).bind (epochToTime · t') := by
  cases hepoch : timeToEpoch t with
  | none => simp [rtcSetTime, hepoch]
  | some epoch => simp [rtcSetTime, hepoch, rtcGetTime, rtcGetEpoch_setEpoch c epoch hinit]

section RoundTrip

variable {y : Nat} {t : RtcTime}

theorem yearStart_bounds (y : Nat) :
    365 * 86400 * (y - 1970) ≤ yearStart y ∧ yearStart y ≤ 366 * 86400 * (y - 1970) := by
  constructor
  · refine Spans.mul_le_start (fun i => ?_) _
    exact Nat.mul_le_mul_right _ (yearDays_bounds _).1
  · refine Spans.start_le_mul (fun i => ?_) _
    exact Nat.mul_le_mul_right _ (yearDays_bounds _).2

/-- What `time_to_epoch` returns for a date fits. -/
theorem epoch_lt (h : InYear (secondsOf y t) y) (hmax : y ≤ 65535) :
    secondsOf y t + skipped (y - 1970) * 86400 < 365 * 86400 * 131072 := by
  have hend := h.2.2
  have hbound := (yearStart_bounds (y + 1)).2
  have hskipped := skipped_le (y - 1970)
  omega

theorem year_le (t : RtcTime) : t.year.toNat ≤ 65535 := Nat.le_of_lt_succ t.year.toNat_lt

/-- The date of an epoch that is the seconds of a date. -/
theorem epochToTime_secondsOf (h : t.Valid) {epoch : UInt64}
    (hepoch : epoch.toNat = secondsOf t.year.toNat t) (t' : RtcTime) :
    epochToTime epoch t' = some t := by
  rcases h with ⟨hy, hdate⟩
  have hmax := year_le t
  have hin := hdate.in_year hy
  rw [← hepoch] at hin
  rcases epochToTime_spec hin (by omega) t' with ⟨r, hr, hyear, hdate', hsecs⟩
  rw [UInt16.ofNat_toNat] at hyear
  rw [hr, hdate'.eq_of_secondsOf hdate hyear (hsecs.trans hepoch)]

theorem inYear_of_in {e j : Nat} (hin : Spans.In yearLength e j) : InYear e (1970 + j) := by
  have hstart : 1970 + j - 1970 = j := Nat.add_sub_cancel_left 1970 j
  have hend : 1970 + (j + 1) - 1970 = j + 1 := Nat.add_sub_cancel_left 1970 (j + 1)
  rw [InYear, yearStart, yearStart, hstart, Nat.add_assoc, hend]
  exact ⟨Nat.le_add_right _ _, hin⟩

/-- If the date of an epoch is `t`, the epoch is the seconds of `t`, unless it is far out. -/
theorem secondsOf_of_epochToTime (h : t.Valid) {epoch : UInt64} {t' : RtcTime}
    (hbound : epoch.toNat < 365 * 86400 * 131072)
    (hnear : epoch.toNat < 365 * 86400 * (t.year.toNat - 1970 + 65536))
    (hepoch : epochToTime epoch t' = some t) : epoch.toNat = secondsOf t.year.toNat t := by
  have hstart : 365 * 86400 * 131072 ≤ Spans.start yearLength 131072 :=
    Spans.mul_le_start (fun i => Nat.mul_le_mul_right _ (yearDays_bounds _).1) _
  rcases Spans.exists_in (hbound.trans_le hstart) with ⟨j, hj, hin⟩
  have hin := inYear_of_in hin
  rcases epochToTime_spec hin (by omega) t' with ⟨r, hr, hyear, -, hsecs⟩
  rw [hepoch, Option.some.injEq] at hr
  subst hr
  have hnat := congrArg UInt16.toNat hyear
  rw [UInt16.toNat_ofNat'] at hnat
  have hfirst := (yearStart_bounds (1970 + j)).1.trans hin.2.1
  have hvalid := h.1
  -- a year that is cut is 65536 years away
  have hexact : 1970 + j = t.year.toNat := by omega
  rw [← hsecs, hexact]

end RoundTrip

/-- Up to the year 2100, and only then, a date is its own round trip, and so is an
epoch. -/
theorem rtc_round_trip_iff {t : RtcTime} (h : t.Valid) {epoch : UInt64} {y : Nat}
    (hin : InYear epoch.toNat y) (hmax : y ≤ 65535) (t' : RtcTime) :
    ((timeToEpoch t).bind (epochToTime · t') = some t ↔ t.year.toNat ≤ 2100) ∧
    ((epochToTime epoch t').bind timeToEpoch = some epoch ↔ y ≤ 2100) := by
  have hyears {y : Nat} (hy : 1970 ≤ y) : skipped (y - 1970) = 0 ↔ y ≤ 2100 := by
    rw [skipped_eq_zero]
    omega
  constructor
  · have hdate := h.2.in_year h.1
    have hbound := epoch_lt hdate (year_le t)
    have hskipped := skipped_le (t.year.toNat - 1970)
    have hend := hdate.2.2.trans_le (yearStart_bounds (t.year.toNat + 1)).2
    have hyear := year_le t
    rw [timeToEpoch_eq h, Option.bind_some, ← hyears h.1]
    have hnat : (UInt64.ofNat (secondsOf t.year.toNat t +
        skipped (t.year.toNat - 1970) * 86400)).toNat =
          secondsOf t.year.toNat t + skipped (t.year.toNat - 1970) * 86400 := by
      rw [UInt64.toNat_ofNat']
      omega
    constructor
    · intro hback
      have hsame := secondsOf_of_epochToTime h (by omega) (by omega) hback
      omega
    · intro hzero
      refine epochToTime_secondsOf h ?_ t'
      rw [hnat, hzero, Nat.zero_mul, Nat.add_zero]
  · have hy := hin.1
    rcases epochToTime_spec hin (by omega) t' with ⟨r, hr, hyear, hdate, hsecs⟩
    have hyear' : r.year.toNat = y := by
      rw [hyear, UInt16.toNat_ofNat']
      omega
    have hvalid : r.Valid := by
      rw [RtcTime.Valid, hyear']
      exact ⟨hy, hdate⟩
    have hbound := epoch_lt (hdate.in_year hy) hmax
    rw [hr, Option.bind_some, timeToEpoch_eq hvalid, hyear', Option.some.injEq, ← hyears hy,
      ← UInt64.toNat_inj, UInt64.toNat_ofNat', Nat.mod_eq_of_lt (by omega), hsecs]
    omega

/-- The last second of 2100 comes back. -/
theorem rtc_round_trip_end_of_2100 :
    (timeToEpoch ⟨2100, 12, 31, 23, 59, 59⟩).bind (epochToTime · ⟨0, 0, 0, 0, 0, 0⟩) =
      some ⟨2100, 12, 31, 23, 59, 59⟩ ∧
    (epochToTime 1700000000 ⟨0, 0, 0, 0, 0, 0⟩).bind timeToEpoch = some 1700000000 := by
  have hvalid : RtcTime.Valid ⟨2100, 12, 31, 23, 59, 59⟩ :=
    ⟨by decide, by decide, by decide, by decide, by decide, by decide⟩
  have hin : InYear (1700000000 : UInt64).toNat 2023 := by
    unfold InYear
    decide +kernel
  rcases rtc_round_trip_iff hvalid hin (by decide) ⟨0, 0, 0, 0, 0, 0⟩ with ⟨hdate, hepoch⟩
  exact ⟨hdate.mpr (by decide), hepoch.mpr (by decide)⟩

/-- New year's day 2101 comes back as the day after. -/
theorem rtc_new_year_2101 :
    (timeToEpoch ⟨2101, 1, 1, 0, 0, 0⟩).bind (epochToTime · ⟨0, 0, 0, 0, 0, 0⟩) =
      some ⟨2101, 1, 2, 0, 0, 0⟩ ∧
    (epochToTime 4133980800 ⟨0, 0, 0, 0, 0, 0⟩).bind timeToEpoch = some 4134067200 := by
  decide +kernel

end OmniOS.Rtc
