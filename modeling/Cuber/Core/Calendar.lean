import Mathlib

/-!
# The Gregorian calendar

Days of the calendar, in their order, and the day after a day.  A numbering of
days that counts on from each day to the next, and that can be undone, puts
days in the same order as their numbers.
-/

namespace Cuber.Calendars

def IsLeap (year : ℤ) : Prop := year % 4 = 0 ∧ (year % 100 ≠ 0 ∨ year % 400 = 0)

instance (year : ℤ) : Decidable (IsLeap year) :=
  inferInstanceAs (Decidable (_ ∧ (_ ∨ _)))

def daysInMonth (year month : ℤ) : ℤ :=
  if month = 2 then if IsLeap year then 29 else 28
  else if month = 4 ∨ month = 6 ∨ month = 9 ∨ month = 11 then 30
  else 31

@[ext]
structure Day where
  year : ℤ
  month : ℤ
  day : ℤ
  deriving DecidableEq

namespace Day

structure Valid (day : Day) : Prop where
  month_pos : 1 ≤ day.month
  month_le : day.month ≤ 12
  day_pos : 1 ≤ day.day
  day_le : day.day ≤ daysInMonth day.year day.month

instance (day : Day) : Decidable day.Valid :=
  decidable_of_iff
    (1 ≤ day.month ∧ day.month ≤ 12 ∧ 1 ≤ day.day ∧ day.day ≤ daysInMonth day.year day.month)
    ⟨fun h => ⟨h.1, h.2.1, h.2.2.1, h.2.2.2⟩, fun h => ⟨h.1, h.2, h.3, h.4⟩⟩

/-- An earlier year, or an earlier month of the year, or an earlier day of the month. -/
def Before (day later : Day) : Prop :=
  day.year < later.year ∨
    day.year = later.year ∧
      (day.month < later.month ∨ day.month = later.month ∧ day.day < later.day)

instance (day later : Day) : Decidable (day.Before later) :=
  inferInstanceAs (Decidable (_ ∨ _ ∧ (_ ∨ _ ∧ _)))

def next (day : Day) : Day :=
  if day.day < daysInMonth day.year day.month then { day with day := day.day + 1 }
  else if day.month < 12 then { day with month := day.month + 1, day := 1 }
  else { year := day.year + 1, month := 1, day := 1 }

theorem Before.trans {first second third : Day} (hfirst : first.Before second)
    (hsecond : second.Before third) : first.Before third := by
  unfold Before at *
  omega

theorem not_before_self (day : Day) : ¬ day.Before day := by
  unfold Before
  omega

theorem before_next (day : Day) : day.Before day.next := by
  rw [next]
  split_ifs <;> simp [Before]

end Day

theorem daysInMonth_pos (year month : ℤ) : 28 ≤ daysInMonth year month := by
  unfold daysInMonth
  split_ifs <;> decide

theorem Day.Valid.next {day : Day} (hvalid : day.Valid) : day.next.Valid := by
  obtain ⟨hmonth, hmonth', hday, hday'⟩ := hvalid
  rw [Day.next]
  split_ifs with hlast hdecember
  · exact ⟨hmonth, hmonth', Int.le_add_one hday, Int.add_one_le_iff.mpr hlast⟩
  · have hlength := daysInMonth_pos day.year (day.month + 1)
    constructor <;> dsimp only <;> omega
  · have hlength := daysInMonth_pos (day.year + 1) 1
    constructor <;> dsimp only <;> omega

/-- Numbers for the days from some day on: the day after has the next number, and the day can
be had from its number. -/
structure Numbering (number : Day → ℤ) (date : ℤ → Day) (first : ℤ) : Prop where
  valid : ∀ n, first ≤ n → (date n).Valid
  number_date : ∀ n, first ≤ n → number (date n) = n
  number_next : ∀ day, day.Valid → first ≤ number day → number day.next = number day + 1
  date_number : ∀ day, day.Valid → first ≤ number day → date (number day) = day

namespace Numbering

variable {number : Day → ℤ} {date : ℤ → Day} {first : ℤ}

theorem date_succ (hnumbering : Numbering number date first) {n : ℤ} (hn : first ≤ n) :
    date (n + 1) = (date n).next := by
  have hnumber := hnumbering.number_date n hn
  have hnext := hnumbering.number_next (date n) (hnumbering.valid n hn) (by rwa [hnumber])
  rw [hnumber] at hnext
  rw [← hnext]
  apply hnumbering.date_number _ (hnumbering.valid n hn).next
  rw [hnext]
  omega

theorem date_add_natCast (hnumbering : Numbering number date first) {n : ℤ} (hn : first ≤ n)
    (k : ℕ) : date (n + k) = Day.next^[k] (date n) := by
  induction k with
  | zero => rw [Nat.cast_zero, add_zero, Function.iterate_zero, id]
  | succ k ih =>
      rw [Function.iterate_succ_apply', ← ih, ← hnumbering.date_succ (by omega), Nat.cast_succ,
        add_assoc]

theorem before_iterate (day : Day) (k : ℕ) : day.Before (Day.next^[k + 1] day) := by
  induction k with
  | zero => exact day.before_next
  | succ k ih =>
      rw [Function.iterate_succ_apply']
      exact ih.trans (Day.before_next _)

theorem before_of_lt (hnumbering : Numbering number date first) {n m : ℤ} (hn : first ≤ n)
    (hlt : n < m) : (date n).Before (date m) := by
  obtain ⟨k, rfl⟩ : ∃ k : ℕ, m = n + (k + 1 : ℕ) := ⟨(m - n - 1).toNat, by omega⟩
  rw [hnumbering.date_add_natCast hn]
  exact before_iterate _ k

/-- Earlier days have smaller numbers. -/
theorem before_iff (hnumbering : Numbering number date first) {n m : ℤ} (hn : first ≤ n)
    (hm : first ≤ m) : (date n).Before (date m) ↔ n < m := by
  constructor
  · intro hbefore
    rcases lt_trichotomy n m with hlt | heq | hgt
    · exact hlt
    · rw [heq] at hbefore
      exact absurd hbefore (Day.not_before_self _)
    · exact absurd (hbefore.trans (hnumbering.before_of_lt hm hgt)) (Day.not_before_self _)
  · exact hnumbering.before_of_lt hn

end Numbering

end Cuber.Calendars
