import Cuber.Core.Calendar

/-!
# Dates

A `Date` is a Julian day number, which is computed from a day of the Gregorian
calendar and back in integer arithmetic.  Years are counted from March there,
so that the day of a leap year comes last, and in centuries.  The functions are
those of the code where it computes within `int`, which is said of numbers and
of days at the end.
-/

namespace Cuber.Dates

open Cuber.Calendars

/-! ## The code -/

def getJulianDayNumber (date : Day) : ℤ :=
  let a := (14 - date.month).tdiv 12
  let y := date.year + 4800 - a
  let m := date.month + 12 * a - 3
  date.day + (153 * m + 2).tdiv 5 + y * 365 + y.tdiv 4 - y.tdiv 100 + y.tdiv 400 - 32045

def getYearMonthDay (julianDayNumber : ℤ) : Day :=
  let a := julianDayNumber + 32044
  let b := (4 * a + 3).tdiv 146097
  let c := a - (b * 146097).tdiv 4
  let d := (4 * c + 3).tdiv 1461
  let e := c - (1461 * d).tdiv 4
  let m := (5 * e + 2).tdiv 153
  { day := e - (153 * m + 2).tdiv 5 + 1
    month := m + 3 - 12 * m.tdiv 10
    year := b * 100 + d - 4800 + m.tdiv 10 }

def kJulianDayOf1970_01_01 : ℤ := getJulianDayNumber { year := 1970, month := 1, day := 1 }

/-- `Date::weekDay`, from Sunday. -/
def weekDay (julianDayNumber : ℤ) : ℤ := (julianDayNumber + 1).tmod 7

/-- The least number of a `Date` that is `valid`. -/
def firstValid : ℤ := 1

/-- The greatest number with which `getYearMonthDay` computes in `int`. -/
def lastNumber : ℤ := (2 ^ 31 - 4) / 4 - 32044

/-! ## Years from March -/

def daysBefore (year : ℤ) : ℤ := 365 * year + year / 4 - year / 100 + year / 400

/-- The days before a month, counted from March. -/
def daysBeforeMonth (month : ℤ) : ℤ := (153 * month + 2) / 5

/-- Whether the year from March to February has a 29 February at its end. -/
def EndsLeap (year : ℤ) : Prop := IsLeap (year + 1)

instance (year : ℤ) : Decidable (EndsLeap year) :=
  inferInstanceAs (Decidable (IsLeap (year + 1)))

/-- A year from March, and a day of it, that make a day of the calendar. -/
structure InYear (year dayOfYear : ℤ) : Prop where
  year_nonneg : 0 ≤ year
  day_nonneg : 0 ≤ dayOfYear
  day_le : dayOfYear ≤ 365
  leap : dayOfYear = 365 → EndsLeap year

theorem daysBefore_century {century year : ℤ} (hyear : 0 ≤ year) (hlt : year < 100) :
    daysBefore (100 * century + year) =
      36524 * century + century / 4 + (365 * year + year / 4) := by
  unfold daysBefore
  omega

/-- The last day of a leap year needs a year that is the last of four, and at the end of a
century the last of four. -/
theorem InYear.last {century year dayOfYear : ℤ}
    (hin : InYear (100 * century + year) dayOfYear) (hday : dayOfYear = 365) :
    year % 4 = 3 ∧ (year = 99 → century % 4 = 3) := by
  have hleap := hin.leap hday
  unfold EndsLeap IsLeap at hleap
  omega

/-- The arithmetic of `getYearMonthDay` finds the century, the year and the day of the year. -/
theorem century_eq {century year dayOfYear : ℤ} (hyear : 0 ≤ year) (hlt : year < 100)
    (hin : InYear (100 * century + year) dayOfYear) :
    (4 * (daysBefore (100 * century + year) + dayOfYear) + 3) / 146097 = century := by
  have hday := hin.day_nonneg
  have hday' := hin.day_le
  have hlast := hin.last
  rw [daysBefore_century hyear hlt]
  omega

theorem yearOfCentury_eq {century year dayOfYear : ℤ}
    (hin : InYear (100 * century + year) dayOfYear) :
    (4 * (365 * year + year / 4 + dayOfYear) + 3) / 1461 = year := by
  have hday := hin.day_nonneg
  have hday' := hin.day_le
  have hlast := hin.last
  omega

/-! ## Months from March -/

def marchYear (date : Day) : ℤ := if date.month ≤ 2 then date.year + 4799 else date.year + 4800

def marchMonth (date : Day) : ℤ := if date.month ≤ 2 then date.month + 9 else date.month - 3

def dayOfYear (date : Day) : ℤ := date.day - 1 + daysBeforeMonth (marchMonth date)

theorem isLeap_add_4800 (year : ℤ) : IsLeap (year + 4800) ↔ IsLeap year := by
  unfold IsLeap
  omega

/-- A month is as long as its share of the days before the next month, but for February. -/
theorem daysInMonth_eq {date : Day} (hmonth : 1 ≤ date.month) (hmonth' : date.month ≤ 12) :
    daysInMonth date.year date.month =
      if date.month = 2 then if EndsLeap (marchYear date) then 29 else 28
      else daysBeforeMonth (marchMonth date + 1) - daysBeforeMonth (marchMonth date) := by
  obtain ⟨year, month, day⟩ := date
  dsimp only at hmonth hmonth' ⊢
  have hleap : EndsLeap (year + 4799) ↔ IsLeap year := by
    rw [EndsLeap, add_assoc]
    exact isLeap_add_4800 year
  interval_cases month <;> simp [daysInMonth, daysBeforeMonth, marchMonth, marchYear, hleap]

/-- A valid day is a day of its year from March. -/
theorem inYear_dayOfYear {date : Day} (hvalid : date.Valid) (hyear : 0 ≤ marchYear date) :
    InYear (marchYear date) (dayOfYear date) := by
  obtain ⟨hmonth, hmonth', hday, hday'⟩ := hvalid
  rw [daysInMonth_eq hmonth hmonth'] at hday'
  refine ⟨hyear, ?_, ?_, ?_⟩
  · unfold dayOfYear daysBeforeMonth marchMonth
    split_ifs <;> omega
  · unfold dayOfYear daysBeforeMonth marchMonth at *
    split_ifs at * <;> omega
  · intro hlast
    by_contra hleap
    rw [if_neg hleap] at hday'
    unfold dayOfYear daysBeforeMonth marchMonth at *
    split_ifs at * <;> omega

theorem marchMonth_bounds {date : Day} (hmonth : 1 ≤ date.month) (hmonth' : date.month ≤ 12) :
    0 ≤ marchMonth date ∧ marchMonth date ≤ 11 := by
  unfold marchMonth
  split_ifs <;> omega

/-- `getJulianDayNumber` counts in years from March; before the year -4800 it rounds up. -/
theorem getJulianDayNumber_march {date : Day} (hmonth : 1 ≤ date.month)
    (hmonth' : date.month ≤ 12) :
    getJulianDayNumber date = dayOfYear date + (marchYear date * 365 + (marchYear date).tdiv 4 -
      (marchYear date).tdiv 100 + (marchYear date).tdiv 400) - 32044 := by
  have ha : (14 - date.month).tdiv 12 = if date.month ≤ 2 then 1 else 0 := by
    rw [Int.tdiv_eq_ediv_of_nonneg (by omega)]
    split_ifs <;> omega
  have hy : date.year + 4800 - (if date.month ≤ 2 then 1 else 0) = marchYear date := by
    unfold marchYear
    split_ifs <;> omega
  have hm : date.month + 12 * (if date.month ≤ 2 then 1 else 0) - 3 = marchMonth date := by
    unfold marchMonth
    split_ifs <;> omega
  have hbounds := marchMonth_bounds hmonth hmonth'
  simp only [getJulianDayNumber, ha, hy, hm]
  rw [Int.tdiv_eq_ediv_of_nonneg (a := 153 * marchMonth date + 2) (by omega), dayOfYear,
    daysBeforeMonth]
  ring

/-- What `getJulianDayNumber` computes. -/
theorem getJulianDayNumber_eq {date : Day} (hmonth : 1 ≤ date.month)
    (hmonth' : date.month ≤ 12) (hyear : 0 ≤ marchYear date) :
    getJulianDayNumber date = daysBefore (marchYear date) + dayOfYear date - 32044 := by
  rw [getJulianDayNumber_march hmonth hmonth', Int.tdiv_eq_ediv_of_nonneg hyear,
    Int.tdiv_eq_ediv_of_nonneg hyear, Int.tdiv_eq_ediv_of_nonneg hyear, daysBefore]
  ring

/-- Before March of the year -4800 the numbers are negative. -/
theorem marchYear_nonneg {date : Day} (hvalid : date.Valid)
    (hnumber : firstValid ≤ getJulianDayNumber date) : 0 ≤ marchYear date := by
  by_contra hnegative
  obtain ⟨hmonth, hmonth', hday, hday'⟩ := hvalid
  have hlength : daysInMonth date.year date.month ≤ 31 := by
    unfold daysInMonth
    split_ifs <;> decide
  have hbounds := marchMonth_bounds hmonth hmonth'
  have hquotient : ∀ n : ℤ, (marchYear date).tdiv n = -(-marchYear date / n) := by
    intro n
    rw [← Int.tdiv_eq_ediv_of_nonneg (by omega), Int.neg_tdiv, neg_neg]
  rw [getJulianDayNumber_march hmonth hmonth', hquotient, hquotient, hquotient, dayOfYear,
    daysBeforeMonth, firstValid] at hnumber
  omega

/-! ## And back -/

/-- The day of the calendar of a day of a year from March. -/
def ofYear (year dayOfYear : ℤ) : Day :=
  let m := (5 * dayOfYear + 2) / 153
  { day := dayOfYear - daysBeforeMonth m + 1
    month := m + 3 - 12 * (m / 10)
    year := year - 4800 + m / 10 }

theorem daysBefore_nonneg {year : ℤ} (hyear : 0 ≤ year) : 0 ≤ daysBefore year := by
  unfold daysBefore
  omega

/-- What `getYearMonthDay` computes. -/
theorem getYearMonthDay_eq {year dayOfYear : ℤ} (hin : InYear year dayOfYear) :
    getYearMonthDay (daysBefore year + dayOfYear - 32044) = ofYear year dayOfYear := by
  have hday := hin.day_nonneg
  have hyear := hin.year_nonneg
  have hlt : year % 100 < 100 := Int.emod_lt_of_pos _ (by decide)
  have hnonneg : 0 ≤ year % 100 := Int.emod_nonneg _ (by decide)
  have hsplit : year = 100 * (year / 100) + year % 100 := (Int.mul_ediv_add_emod year 100).symm
  have hcentury := century_eq hnonneg hlt (hsplit ▸ hin)
  have hofCentury := yearOfCentury_eq (hsplit ▸ hin : InYear (100 * (year / 100) + year % 100) _)
  have hbefore : daysBefore (100 * (year / 100) + year % 100) = _ :=
    daysBefore_century hnonneg hlt
  rw [← hsplit] at hcentury hbefore
  have hpositive := daysBefore_nonneg hyear
  have ha : daysBefore year + dayOfYear - 32044 + 32044 = daysBefore year + dayOfYear := by ring
  have hb : (4 * (daysBefore year + dayOfYear) + 3).tdiv 146097 = year / 100 := by
    rw [Int.tdiv_eq_ediv_of_nonneg (by omega), hcentury]
  have hc : daysBefore year + dayOfYear - (year / 100 * 146097).tdiv 4 =
      365 * (year % 100) + year % 100 / 4 + dayOfYear := by
    rw [Int.tdiv_eq_ediv_of_nonneg (by omega)]
    omega
  have hd : (4 * (365 * (year % 100) + year % 100 / 4 + dayOfYear) + 3).tdiv 1461 =
      year % 100 := by
    rw [Int.tdiv_eq_ediv_of_nonneg (by omega), hofCentury]
  have he : 365 * (year % 100) + year % 100 / 4 + dayOfYear - (1461 * (year % 100)).tdiv 4 =
      dayOfYear := by
    rw [Int.tdiv_eq_ediv_of_nonneg (by omega)]
    omega
  have hm : (5 * dayOfYear + 2).tdiv 153 = (5 * dayOfYear + 2) / 153 :=
    Int.tdiv_eq_ediv_of_nonneg (by omega)
  have hmonth : ((5 * dayOfYear + 2) / 153).tdiv 10 = (5 * dayOfYear + 2) / 153 / 10 :=
    Int.tdiv_eq_ediv_of_nonneg (by omega)
  have hdays : (153 * ((5 * dayOfYear + 2) / 153) + 2).tdiv 5 =
      daysBeforeMonth ((5 * dayOfYear + 2) / 153) := Int.tdiv_eq_ediv_of_nonneg (by omega)
  simp only [getYearMonthDay, ha, hb, hc, hd, he, hm, hmonth, hdays, ofYear]
  congr 1
  omega

/-- Every number from 1 March of the year -4800 on is that of a day of a year. -/
theorem exists_inYear {number : ℤ} (hnumber : firstValid ≤ number) :
    ∃ year dayOfYear, InYear year dayOfYear ∧
      number = daysBefore year + dayOfYear - 32044 := by
  rw [firstValid] at hnumber
  -- the century, the year and the day as `getYearMonthDay` finds them
  obtain ⟨a, ha⟩ : ∃ a, a = number + 32044 := ⟨_, rfl⟩
  obtain ⟨b, hb⟩ : ∃ b, b = (4 * a + 3) / 146097 := ⟨_, rfl⟩
  obtain ⟨c, hc⟩ : ∃ c, c = a - (36524 * b + b / 4) := ⟨_, rfl⟩
  obtain ⟨d, hd⟩ : ∃ d, d = (4 * c + 3) / 1461 := ⟨_, rfl⟩
  obtain ⟨e, he⟩ : ∃ e, e = c - (365 * d + d / 4) := ⟨_, rfl⟩
  have hcentury : 0 ≤ c ∧ c ≤ 36524 ∧ (c = 36524 → b % 4 = 3) := by omega
  have hyear : 0 ≤ d ∧ d < 100 ∧ 0 ≤ e ∧ e ≤ 365 ∧ (e = 365 → d % 4 = 3) := by omega
  refine ⟨100 * b + d, e, ⟨by omega, hyear.2.2.1, hyear.2.2.2.1, ?_⟩, ?_⟩
  · intro hlast
    have hfour := hyear.2.2.2.2 hlast
    unfold EndsLeap IsLeap
    omega
  · rw [daysBefore_century hyear.1 hyear.2.1]
    omega

/-- The months of a year from March are ten, and two of the next year. -/
theorem month_cases {dayOfYear : ℤ} (hday : 0 ≤ dayOfYear) (hday' : dayOfYear ≤ 365) :
    (0 ≤ (5 * dayOfYear + 2) / 153 ∧ (5 * dayOfYear + 2) / 153 ≤ 9 ∧
        (5 * dayOfYear + 2) / 153 / 10 = 0) ∨
      (10 ≤ (5 * dayOfYear + 2) / 153 ∧ (5 * dayOfYear + 2) / 153 ≤ 11 ∧
        (5 * dayOfYear + 2) / 153 / 10 = 1) := by
  omega

theorem marchYear_ofYear {year dayOfYear : ℤ} (hin : InYear year dayOfYear) :
    marchYear (ofYear year dayOfYear) = year := by
  have hmonth := month_cases hin.day_nonneg hin.day_le
  simp only [marchYear, ofYear]
  split_ifs <;> omega

theorem marchMonth_ofYear {year dayOfYear : ℤ} (hin : InYear year dayOfYear) :
    marchMonth (ofYear year dayOfYear) = (5 * dayOfYear + 2) / 153 := by
  have hmonth := month_cases hin.day_nonneg hin.day_le
  simp only [marchMonth, ofYear]
  split_ifs <;> omega

theorem dayOfYear_ofYear {year dayOfYear : ℤ} (hin : InYear year dayOfYear) :
    Dates.dayOfYear (ofYear year dayOfYear) = dayOfYear := by
  rw [Dates.dayOfYear, marchMonth_ofYear hin]
  simp only [ofYear]
  ring

theorem month_ofYear {year dayOfYear : ℤ} (hin : InYear year dayOfYear) :
    1 ≤ (ofYear year dayOfYear).month ∧ (ofYear year dayOfYear).month ≤ 12 := by
  have hmonth := month_cases hin.day_nonneg hin.day_le
  simp only [ofYear]
  omega

/-- Every day of a year from March is a valid day. -/
theorem valid_ofYear {year dayOfYear : ℤ} (hin : InYear year dayOfYear) :
    (ofYear year dayOfYear).Valid := by
  have hday := hin.day_nonneg
  have hday' := hin.day_le
  have hmonth := month_cases hday hday'
  obtain ⟨hfirst, hlast⟩ := month_ofYear hin
  refine ⟨hfirst, hlast, ?_, ?_⟩
  · simp only [ofYear, daysBeforeMonth]
    omega
  · rw [daysInMonth_eq hfirst hlast, marchYear_ofYear hin, marchMonth_ofYear hin]
    by_cases hfebruary : (ofYear year dayOfYear).month = 2
    · have hleap := hin.leap
      rw [if_pos hfebruary]
      simp only [ofYear, daysBeforeMonth] at hfebruary ⊢
      split_ifs with hends
      · omega
      · have hshort : dayOfYear ≠ 365 := fun heq => hends (hleap heq)
        omega
    · rw [if_neg hfebruary]
      simp only [ofYear, daysBeforeMonth]
      omega

theorem month_dayOfYear {date : Day} (hvalid : date.Valid) :
    (5 * dayOfYear date + 2) / 153 = marchMonth date := by
  obtain ⟨hmonth, hmonth', hday, hday'⟩ := hvalid
  rw [daysInMonth_eq hmonth hmonth'] at hday'
  unfold dayOfYear daysBeforeMonth marchMonth at *
  split_ifs at * <;> omega

/-- A valid day can be had from its year and its day of the year. -/
theorem ofYear_dayOfYear {date : Day} (hvalid : date.Valid) :
    ofYear (marchYear date) (dayOfYear date) = date := by
  have hmonth := hvalid.month_pos
  have hmonth' := hvalid.month_le
  ext
  · simp only [ofYear, month_dayOfYear hvalid]
    unfold marchYear marchMonth
    split_ifs <;> omega
  · simp only [ofYear, month_dayOfYear hvalid]
    unfold marchMonth
    split_ifs <;> omega
  · simp only [ofYear, month_dayOfYear hvalid]
    rw [dayOfYear]
    ring

theorem daysBefore_succ (year : ℤ) :
    daysBefore (year + 1) = daysBefore year + if EndsLeap year then 366 else 365 := by
  unfold daysBefore EndsLeap IsLeap
  split_ifs <;> omega

/-- From the last day of a month to the first of the next one. -/
theorem first_of_month {date : Day} (hmonth : 1 ≤ date.month) (hmonth' : date.month ≤ 12)
    (hlast : date.day = daysInMonth date.year date.month) (hyear : 0 ≤ marchYear date)
    {first : Day} (hfirst : first.day = 1)
    (hnext : date.month < 12 ∧ first.year = date.year ∧ first.month = date.month + 1 ∨
      date.month = 12 ∧ first.year = date.year + 1 ∧ first.month = 1) :
    getJulianDayNumber first = getJulianDayNumber date + 1 := by
  have hsucc := daysBefore_succ (marchYear date)
  rw [daysInMonth_eq hmonth hmonth'] at hlast
  have hmarch : marchYear first = marchYear date + (if date.month = 2 then 1 else 0) ∧
      marchMonth first = (if date.month = 2 then 0 else marchMonth date + 1) := by
    unfold marchYear marchMonth
    split_ifs <;> omega
  have hmonths : 1 ≤ first.month ∧ first.month ≤ 12 := by omega
  rw [getJulianDayNumber_eq hmonths.1 hmonths.2 (by split_ifs at hmarch <;> omega),
    getJulianDayNumber_eq hmonth hmonth' hyear, dayOfYear, dayOfYear, hfirst, hlast, hmarch.1,
    hmarch.2]
  by_cases hfebruary : date.month = 2
  · have hmarchMonth : marchMonth date = 11 := by
      unfold marchMonth
      split_ifs <;> omega
    simp only [hfebruary, if_true, hsucc, hmarchMonth, daysBeforeMonth]
    split_ifs <;> omega
  · simp only [hfebruary, if_false, add_zero]
    ring

/-- The day after has the next number. -/
theorem getJulianDayNumber_next {date : Day} (hvalid : date.Valid)
    (hnumber : firstValid ≤ getJulianDayNumber date) :
    getJulianDayNumber date.next = getJulianDayNumber date + 1 := by
  have hyear := marchYear_nonneg hvalid hnumber
  obtain ⟨hmonth, hmonth', hday, hday'⟩ := hvalid
  rw [Day.next]
  split_ifs with hlast hdecember
  · simp only [getJulianDayNumber]
    ring
  · exact first_of_month hmonth hmonth' (by omega) hyear rfl (.inl ⟨hdecember, rfl, rfl⟩)
  · exact first_of_month hmonth hmonth' (by omega) hyear rfl (.inr ⟨by omega, rfl, rfl⟩)

/-- The numbers of valid dates count the days of the calendar. -/
theorem numbering : Numbering getJulianDayNumber getYearMonthDay firstValid where
  valid n hn := by
    obtain ⟨year, day, hin, rfl⟩ := exists_inYear hn
    rw [getYearMonthDay_eq hin]
    exact valid_ofYear hin
  number_date n hn := by
    obtain ⟨year, day, hin, rfl⟩ := exists_inYear hn
    have hvalid := valid_ofYear hin
    rw [getYearMonthDay_eq hin, getJulianDayNumber_eq hvalid.month_pos hvalid.month_le,
      marchYear_ofYear hin, dayOfYear_ofYear hin]
    rw [marchYear_ofYear hin]
    exact hin.year_nonneg
  number_next day hvalid hnumber := getJulianDayNumber_next hvalid hnumber
  date_number day hvalid hnumber := by
    have hyear := marchYear_nonneg hvalid hnumber
    rw [getJulianDayNumber_eq hvalid.month_pos hvalid.month_le hyear,
      getYearMonthDay_eq (inYear_dayOfYear hvalid hyear), ofYear_dayOfYear hvalid]

/-! ## Numbers for which the code computes in `int` -/

def IsInt (n : ℤ) : Prop := -2 ^ 31 ≤ n ∧ n < 2 ^ 31

instance (n : ℤ) : Decidable (IsInt n) := inferInstanceAs (Decidable (_ ∧ _))

/-- The number is valid, and not too large for `getYearMonthDay`. -/
structure InReach (number : ℤ) : Prop where
  valid : firstValid ≤ number
  le_last : number ≤ lastNumber

/-- The numbers that `getYearMonthDay` divides. -/
def dividends (julianDayNumber : ℤ) : List ℤ :=
  let a := julianDayNumber + 32044
  let b := (4 * a + 3).tdiv 146097
  let c := a - (b * 146097).tdiv 4
  let d := (4 * c + 3).tdiv 1461
  let e := c - (1461 * d).tdiv 4
  let m := (5 * e + 2).tdiv 153
  [4 * a + 3, b * 146097, 4 * c + 3, 1461 * d, 5 * e + 2, 153 * m + 2, m]

/-- The numbers through which `getJulianDayNumber` comes to its sum, from left to right. -/
def summands (date : Day) : List ℤ :=
  let a := (14 - date.month).tdiv 12
  let y := date.year + 4800 - a
  let m := date.month + 12 * a - 3
  let days := date.day + (153 * m + 2).tdiv 5
  [date.year, date.month, date.day, 14 - date.month, date.year + 4800, y, date.month + 12 * a, m,
    153 * m + 2, days, y * 365, days + y * 365, days + y * 365 + y.tdiv 4,
    days + y * 365 + y.tdiv 4 - y.tdiv 100, days + y * 365 + y.tdiv 4 - y.tdiv 100 + y.tdiv 400,
    getJulianDayNumber date]

/-- `getJulianDayNumber` does not overflow; from the year 5 874 690 on it does. -/
def InInt (date : Day) : Prop := ∀ summand ∈ summands date, IsInt summand

instance (date : Day) : Decidable (InInt date) :=
  inferInstanceAs (Decidable (∀ summand ∈ summands date, IsInt summand))

/-- Up to the last number the products and the sums fit. -/
theorem isInt_dividends {number : ℤ} (hreach : InReach number) :
    ∀ dividend ∈ dividends number, IsInt dividend := by
  have hlastNumber : lastNumber = 536838867 := by decide
  obtain ⟨hfirst, hlast⟩ := hreach
  rw [firstValid] at hfirst
  rw [hlastNumber] at hlast
  obtain ⟨a, ha⟩ : ∃ a, a = number + 32044 := ⟨_, rfl⟩
  have hb := Int.tdiv_eq_ediv_of_nonneg (a := 4 * a + 3) (b := 146097) (by omega)
  obtain ⟨b, hb'⟩ : ∃ b, b = (4 * a + 3) / 146097 := ⟨_, rfl⟩
  have hc := Int.tdiv_eq_ediv_of_nonneg (a := b * 146097) (b := 4) (by omega)
  obtain ⟨c, hc'⟩ : ∃ c, c = a - b * 146097 / 4 := ⟨_, rfl⟩
  have hd := Int.tdiv_eq_ediv_of_nonneg (a := 4 * c + 3) (b := 1461) (by omega)
  obtain ⟨d, hd'⟩ : ∃ d, d = (4 * c + 3) / 1461 := ⟨_, rfl⟩
  have he := Int.tdiv_eq_ediv_of_nonneg (a := 1461 * d) (b := 4) (by omega)
  obtain ⟨e, he'⟩ : ∃ e, e = c - 1461 * d / 4 := ⟨_, rfl⟩
  have hm := Int.tdiv_eq_ediv_of_nonneg (a := 5 * e + 2) (b := 153) (by omega)
  simp only [dividends, ← ha, hb, ← hb', hc, ← hc', hd, ← hd', he, ← he', hm]
  simp only [List.forall_mem_cons, List.not_mem_nil, false_imp_iff, implies_true, and_true, IsInt]
  omega

example : ¬ ∀ dividend ∈ dividends (lastNumber + 1), IsInt dividend := by decide

/-- The sums of a day of the calendar fit for five million years from March. -/
theorem inInt_of_marchYear {date : Day} (hvalid : date.Valid) (hyear : 0 ≤ marchYear date)
    (hyear' : marchYear date ≤ 5000000) : InInt date := by
  obtain ⟨hmonth, hmonth', hday, hday'⟩ := hvalid
  have hlength : daysInMonth date.year date.month ≤ 31 := by
    unfold daysInMonth
    split_ifs <;> decide
  have ha := Int.tdiv_eq_ediv_of_nonneg (a := 14 - date.month) (b := 12) (by omega)
  obtain ⟨a, ha'⟩ : ∃ a, a = (14 - date.month) / 12 := ⟨_, rfl⟩
  obtain ⟨y, hy⟩ : ∃ y, y = date.year + 4800 - a := ⟨_, rfl⟩
  obtain ⟨m, hm⟩ : ∃ m, m = date.month + 12 * a - 3 := ⟨_, rfl⟩
  have hmarch : 0 ≤ y ∧ y ≤ 5000000 := by
    unfold marchYear at hyear hyear'
    split_ifs at hyear hyear' <;> omega
  have hmonths := Int.tdiv_eq_ediv_of_nonneg (a := 153 * m + 2) (b := 5) (by omega)
  simp only [InInt, summands, getJulianDayNumber, ha, ← ha', ← hy, ← hm, hmonths,
    Int.tdiv_eq_ediv_of_nonneg hmarch.1]
  simp only [List.forall_mem_cons, List.not_mem_nil, false_imp_iff, implies_true, and_true, IsInt]
  omega

/-- The day of a number in range has the number without overflow. -/
theorem inInt_getYearMonthDay {number : ℤ} (hreach : InReach number) :
    InInt (getYearMonthDay number) := by
  have hlastNumber : lastNumber = 536838867 := by decide
  obtain ⟨hfirst, hlast⟩ := hreach
  obtain ⟨year, day, hin, rfl⟩ := exists_inYear hfirst
  have hyear := hin.year_nonneg
  have hday := hin.day_nonneg
  rw [getYearMonthDay_eq hin]
  refine inInt_of_marchYear (valid_ofYear hin) ?_ ?_
  · rwa [marchYear_ofYear hin]
  · rw [marchYear_ofYear hin]
    unfold daysBefore at hlast
    omega

-- 21 January 11761191 would come out as 1 January 1970.
example : ¬ InInt { year := 11761191, month := 1, day := 21 } := by decide

theorem weekDay_succ {number : ℤ} (hfirst : firstValid ≤ number) :
    weekDay (number + 1) = (weekDay number + 1) % 7 := by
  rw [firstValid] at hfirst
  rw [weekDay, weekDay, Int.tmod_eq_emod_of_nonneg (by omega),
    Int.tmod_eq_emod_of_nonneg (by omega)]
  omega

-- 1 January 1970 was a Thursday.
example : weekDay kJulianDayOf1970_01_01 = 4 := by decide

/-- Valid dates are the days of the calendar, in their order, one number a day, as far as `int`
goes. -/
theorem days_of_numbers {n m : ℤ} (hn : InReach n) (hm : InReach m) :
    (∀ dividend ∈ dividends n, IsInt dividend) ∧
      (getYearMonthDay n).Valid ∧ InInt (getYearMonthDay n) ∧
      getJulianDayNumber (getYearMonthDay n) = n ∧
      (∀ day, day.Valid → InInt day →
        (getJulianDayNumber day = n ↔ day = getYearMonthDay n)) ∧
      (InReach (n + 1) → getYearMonthDay (n + 1) = (getYearMonthDay n).next ∧
        weekDay (n + 1) = (weekDay n + 1) % 7) ∧
      ((getYearMonthDay n).Before (getYearMonthDay m) ↔ n < m) := by
  have hnumber := numbering.number_date n hn.valid
  refine ⟨isInt_dividends hn, numbering.valid n hn.valid, inInt_getYearMonthDay hn, hnumber, ?_,
    fun _ => ⟨numbering.date_succ hn.valid, weekDay_succ hn.valid⟩,
    numbering.before_iff hn.valid hm.valid⟩
  intro day hvalid _
  constructor
  · rintro rfl
    exact (numbering.date_number day hvalid hn.valid).symm
  · rintro rfl
    exact hnumber

/-- The last day of a February and the day after. -/
theorem days_of_leapDay :
    (∀ dividend ∈ dividends 2460370, IsInt dividend) ∧
      (getYearMonthDay 2460370).Valid ∧ InInt (getYearMonthDay 2460370) ∧
      getJulianDayNumber (getYearMonthDay 2460370) = 2460370 ∧
      (∀ day : Day, day.Valid → InInt day →
        (getJulianDayNumber day = 2460370 ↔ day = getYearMonthDay 2460370)) ∧
      (InReach (2460370 + 1) → getYearMonthDay (2460370 + 1) = (getYearMonthDay 2460370).next ∧
        weekDay (2460370 + 1) = (weekDay 2460370 + 1) % 7) ∧
      ((getYearMonthDay 2460370).Before (getYearMonthDay 2460371) ↔ (2460370 : ℤ) < 2460371) :=
  days_of_numbers ⟨by decide, by decide⟩ ⟨by decide, by decide⟩

end Cuber.Dates
