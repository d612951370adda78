import Cuber.Base.Date

/-!
# Calendar time

`TimeZone::toUtcTime` splits seconds since the epoch into the fields of a
`struct tm`, and `fromUtcTime` puts them together.  Seconds before the epoch
are divided towards zero by the code, which sets that right by one day.
-/

namespace Cuber.TimeZones

open Cuber.Calendars
open Cuber.Dates

/-! ## The code -/

def kSecondsPerDay : ℤ := 24 * 60 * 60

/-- The fields of `struct tm`, which the code clears first. -/
structure Tm where
  sec : ℤ := 0
  min : ℤ := 0
  hour : ℤ := 0
  mday : ℤ := 0
  mon : ℤ := 0
  year : ℤ := 0
  wday : ℤ := 0
  yday : ℤ := 0
  deriving DecidableEq

def fillHMS (seconds : ℤ) (utc : Tm) : Tm :=
  let minutes := seconds / 60
  { utc with
    sec := seconds % 60
    min := minutes % 60
    hour := minutes / 60 }

def splitDays (secondsSinceEpoch : ℤ) : ℤ × ℤ :=
  let seconds := secondsSinceEpoch.tmod kSecondsPerDay
  let days := secondsSinceEpoch.tdiv kSecondsPerDay
  if seconds < 0 then (days - 1, seconds + kSecondsPerDay) else (days, seconds)

def toUtcTime (secondsSinceEpoch : ℤ) (yday : Bool) : Tm :=
  let (days, seconds) := splitDays secondsSinceEpoch
  let date := days + kJulianDayOf1970_01_01
  let ymd := getYearMonthDay date
  let startOfYear := getJulianDayNumber { year := ymd.year, month := 1, day := 1 }
  { fillHMS seconds {} with
    year := ymd.year - 1900
    mon := ymd.month - 1
    mday := ymd.day
    wday := weekDay date
    yday := if yday then date - startOfYear else 0 }

def Tm.date (utc : Tm) : Day := { year := utc.year + 1900, month := utc.mon + 1, day := utc.mday }

def fromUtcTime (utc : Tm) : ℤ :=
  let secondsInDay := utc.hour * 3600 + utc.min * 60 + utc.sec
  let days := getJulianDayNumber utc.date - kJulianDayOf1970_01_01
  days * kSecondsPerDay + secondsInDay

/-! ## Calendar times -/

/-- The fields name a second of a day. -/
structure Tm.Proper (utc : Tm) : Prop where
  date : utc.date.Valid
  hour : 0 ≤ utc.hour ∧ utc.hour < 24
  min : 0 ≤ utc.min ∧ utc.min < 60
  sec : 0 ≤ utc.sec ∧ utc.sec < 60

/-- The number of the day is computed without overflow. -/
structure Tm.InInt (utc : Tm) : Prop where
  year : IsInt utc.year
  date : Dates.InInt utc.date

def Tm.secondOfDay (utc : Tm) : ℤ := utc.hour * 3600 + utc.min * 60 + utc.sec

/-- An earlier day, or an earlier hour, minute or second of the day. -/
def Tm.Before (utc later : Tm) : Prop :=
  utc.date.Before later.date ∨
    utc.date = later.date ∧
      (utc.hour < later.hour ∨ utc.hour = later.hour ∧
        (utc.min < later.min ∨ utc.min = later.min ∧ utc.sec < later.sec))

/-- The fields that name the second. -/
def Tm.clock (utc : Tm) : Day × ℤ × ℤ × ℤ := (utc.date, utc.hour, utc.min, utc.sec)

/-- The seconds of the dates whose numbers are valid and are computed without overflow. -/
def InRange (seconds : ℤ) : Prop :=
  (firstValid - kJulianDayOf1970_01_01) * kSecondsPerDay ≤ seconds ∧
    seconds < (lastNumber + 1 - kJulianDayOf1970_01_01) * kSecondsPerDay

instance (seconds : ℤ) : Decidable (InRange seconds) := inferInstanceAs (Decidable (_ ∧ _))

theorem splitDays_eq (seconds : ℤ) :
    splitDays seconds = (seconds / kSecondsPerDay, seconds % kSecondsPerDay) := by
  have hday : kSecondsPerDay = 86400 := rfl
  rcases le_or_gt 0 seconds with hnonneg | hnegative
  · have hrest := Int.emod_nonneg seconds (b := kSecondsPerDay) (by decide)
    simp only [splitDays, Int.tmod_eq_emod_of_nonneg hnonneg,
      Int.tdiv_eq_ediv_of_nonneg hnonneg, if_neg (not_lt.mpr hrest)]
  · obtain ⟨k, rfl⟩ : ∃ k, seconds = -k := ⟨-seconds, (neg_neg _).symm⟩
    have hk : 0 ≤ k := by omega
    simp only [splitDays, Int.neg_tmod, Int.neg_tdiv, Int.tmod_eq_emod_of_nonneg hk,
      Int.tdiv_eq_ediv_of_nonneg hk, hday]
    split_ifs <;> ext <;> dsimp only <;> omega

/-- The number of the day, for seconds in range. -/
theorem number_of_inRange {seconds : ℤ} (hrange : InRange seconds) :
    InReach (seconds / kSecondsPerDay + kJulianDayOf1970_01_01) := by
  have hday : kSecondsPerDay = 86400 := rfl
  obtain ⟨hlower, hupper⟩ := hrange
  rw [hday] at *
  constructor <;> omega

section Fields

variable (seconds : ℤ) (yday : Bool)

theorem date_toUtcTime : (toUtcTime seconds yday).date =
    getYearMonthDay (seconds / kSecondsPerDay + kJulianDayOf1970_01_01) := by
  simp only [toUtcTime, fillHMS, splitDays_eq, Tm.date]
  ext <;> dsimp only <;> ring

theorem secondOfDay_toUtcTime :
    (toUtcTime seconds yday).secondOfDay = seconds % kSecondsPerDay := by
  simp only [toUtcTime, fillHMS, splitDays_eq, Tm.secondOfDay]
  omega

variable {seconds}

theorem proper_toUtcTime (hrange : InRange seconds) : (toUtcTime seconds yday).Proper := by
  have hday : kSecondsPerDay = 86400 := rfl
  have hlower := Int.emod_nonneg seconds (b := kSecondsPerDay) (by decide)
  have hupper := Int.emod_lt_of_pos seconds (b := kSecondsPerDay) (by decide)
  constructor
  · rw [date_toUtcTime]
    exact numbering.valid _ (number_of_inRange hrange).valid
  all_goals
    simp only [toUtcTime, fillHMS, splitDays_eq]
    omega

/-- The fields of seconds in range are put together without overflow. -/
theorem inInt_toUtcTime (hrange : InRange seconds) : (toUtcTime seconds yday).InInt := by
  have hreach := number_of_inRange hrange
  have hdate := inInt_getYearMonthDay hreach
  have hvalid := numbering.valid _ hreach.valid
  have hnumber := numbering.number_date _ hreach.valid
  have hmarch := marchYear_nonneg hvalid (hreach.valid.trans_eq hnumber.symm)
  rw [← date_toUtcTime seconds yday] at hdate hmarch
  refine ⟨?_, hdate⟩
  have hyear : IsInt (toUtcTime seconds yday).date.year := hdate _ (.head _)
  simp only [IsInt, Tm.date, marchYear] at hyear hmarch ⊢
  split_ifs at hmarch <;> omega

/-- What was split is put together again. -/
theorem fromUtcTime_toUtcTime (hrange : InRange seconds) :
    fromUtcTime (toUtcTime seconds yday) = seconds := by
  have hnumber := numbering.number_date _ (number_of_inRange hrange).valid
  have hsecond := secondOfDay_toUtcTime seconds yday
  simp only [Tm.secondOfDay] at hsecond
  simp only [fromUtcTime, date_toUtcTime, hnumber, hsecond]
  have hsplit := Int.mul_ediv_add_emod seconds kSecondsPerDay
  linarith

/-- Calendar times are in the order of the seconds. -/
theorem before_toUtcTime {later : ℤ} (hrange : InRange seconds) (hrange' : InRange later) :
    (toUtcTime seconds yday).Before (toUtcTime later yday) ↔ seconds < later := by
  have hnumber := (number_of_inRange hrange).valid
  have hnumber' := (number_of_inRange hrange').valid
  have hsame : getYearMonthDay (seconds / kSecondsPerDay + kJulianDayOf1970_01_01) =
      getYearMonthDay (later / kSecondsPerDay + kJulianDayOf1970_01_01) ↔
      seconds / kSecondsPerDay = later / kSecondsPerDay := by
    constructor
    · intro heq
      have hnumbers := congrArg getJulianDayNumber heq
      rw [numbering.number_date _ hnumber, numbering.number_date _ hnumber'] at hnumbers
      exact add_right_cancel hnumbers
    · intro heq
      rw [heq]
  obtain ⟨-, hhour, hmin, hsec⟩ := proper_toUtcTime yday hrange
  obtain ⟨-, hhour', hmin', hsec'⟩ := proper_toUtcTime yday hrange'
  have hsecond := secondOfDay_toUtcTime seconds yday
  have hsecond' := secondOfDay_toUtcTime later yday
  have hday : kSecondsPerDay = 86400 := rfl
  rw [Tm.Before, date_toUtcTime, date_toUtcTime, numbering.before_iff hnumber hnumber', hsame]
  rw [Tm.secondOfDay, hday] at hsecond hsecond'
  rw [hday]
  omega

end Fields

/-- What names a second is put together, and split again. -/
theorem toUtcTime_fromUtcTime {utc : Tm} (hproper : utc.Proper)
    (hrange : InRange (fromUtcTime utc)) (yday : Bool) :
    (toUtcTime (fromUtcTime utc) yday).clock = utc.clock := by
  have hday : kSecondsPerDay = 86400 := rfl
  obtain ⟨hdate, hhour, hmin, hsec⟩ := hproper
  have hquotient : fromUtcTime utc / kSecondsPerDay + kJulianDayOf1970_01_01 =
      getJulianDayNumber utc.date := by
    simp only [fromUtcTime, hday]
    omega
  have hremainder : fromUtcTime utc % kSecondsPerDay = utc.secondOfDay := by
    simp only [fromUtcTime, hday, Tm.secondOfDay]
    omega
  have hnumber := (number_of_inRange hrange).valid
  rw [hquotient] at hnumber
  have hdate' := date_toUtcTime (fromUtcTime utc) yday
  rw [hquotient, numbering.date_number _ hdate hnumber] at hdate'
  simp only [Tm.clock, hdate', Prod.mk.injEq, true_and]
  simp only [toUtcTime, fillHMS, splitDays_eq, hremainder, Tm.secondOfDay]
  omega

/-- Seconds are the calendar times, in their order, one number a time, as far as `int` goes. -/
theorem times_of_seconds {seconds later : ℤ} (hrange : InRange seconds)
    (hrange' : InRange later) (yday : Bool) :
    (toUtcTime seconds yday).Proper ∧ (toUtcTime seconds yday).InInt ∧
      fromUtcTime (toUtcTime seconds yday) = seconds ∧
      (∀ utc : Tm, utc.Proper → utc.InInt →
        (fromUtcTime utc = seconds ↔ utc.clock = (toUtcTime seconds yday).clock)) ∧
      ((toUtcTime seconds yday).Before (toUtcTime later yday) ↔ seconds < later) := by
  have hagain := fromUtcTime_toUtcTime yday hrange
  refine ⟨proper_toUtcTime yday hrange, inInt_toUtcTime yday hrange, hagain, ?_,
    before_toUtcTime yday hrange hrange'⟩
  intro utc hproper _
  constructor
  · rintro rfl
    exact (toUtcTime_fromUtcTime hproper hrange yday).symm
  · intro hclock
    rw [← hagain]
    simp only [Tm.clock, Prod.mk.injEq] at hclock
    simp only [fromUtcTime, hclock]

/-- The second before the epoch, and the epoch. -/
theorem times_of_epoch :
    (toUtcTime (-1) true).Proper ∧ (toUtcTime (-1) true).InInt ∧
      fromUtcTime (toUtcTime (-1) true) = -1 ∧
      (∀ utc : Tm, utc.Proper → utc.InInt →
        (fromUtcTime utc = -1 ↔ utc.clock = (toUtcTime (-1) true).clock)) ∧
      ((toUtcTime (-1) true).Before (toUtcTime 0 true) ↔ (-1 : ℤ) < 0) :=
  times_of_seconds (by decide) (by decide) true

end Cuber.TimeZones
