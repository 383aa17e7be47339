import Mathlib.Data.Int.Basic
import Mathlib.Tactic.Common

/-!
# The Gregorian calendar

Days counted from 1 January of the year 1, which is day 1, and the date of such a
day, extended to all integers.  The date is found as `datetime` finds it, by the
400-year cycle and a first guess at the month.

* `isLeap`, `daysBeforeYear`, `daysBeforeMonth`, `dayNumber` — from dates to days.
* `Date`, `date` — from days to dates.
* `dayNumber_date` — the date of a day is the date of that day.
* `monthStart` — the first day of the month of a day; days of one month share it.
-/

namespace Calendar

def isLeap (year : ℤ) : Bool := year % 4 = 0 ∧ (year % 100 ≠ 0 ∨ year % 400 = 0)

/-- The days before 1 January of a year. -/
def daysBeforeYear (year : ℤ) : ℤ :=
  let y := year - 1
  y * 365 + y / 4 - y / 100 + y / 400

/-- The days of a year before the first of a month. -/
def daysBeforeMonth (leap : Bool) (month : ℕ) : ℕ :=
  [0, 0, 31, 59, 90, 120, 151, 181, 212, 243, 273, 304, 334].getD month 0 +
    if 2 < month ∧ leap then 1 else 0

def daysInMonth (leap : Bool) (month : ℕ) : ℕ :=
  [0, 31, 28, 31, 30, 31, 30, 31, 31, 30, 31, 30, 31].getD month 0 +
    if month = 2 ∧ leap then 1 else 0

def dayNumber (year : ℤ) (month day : ℕ) : ℤ :=
  daysBeforeYear year + daysBeforeMonth (isLeap year) month + day

structure Date where
  year : ℤ
  month : ℕ
  day : ℕ
  deriving DecidableEq, Repr

/-- The month and day of the `n`-th day of a year, counted from 0. -/
def monthDay (leap : Bool) (n : ℕ) : ℕ × ℕ :=
  let month := (n + 50) / 32
  let preceding := daysBeforeMonth leap month
  if n < preceding then
    let preceding := preceding - daysInMonth leap (month - 1)
    (month - 1, n - preceding + 1)
  else (month, n - preceding + 1)

/-- The date of a day. -/
def date (dayNumber : ℤ) : Date :=
  let n := dayNumber - 1
  let n400 := n / 146097
  let n := n % 146097
  let n100 := n / 36524
  let n := n % 36524
  let n4 := n / 1461
  let n := n % 1461
  let n1 := n / 365
  let n := n % 365
  let year := n400 * 400 + 1 + (n100 * 100 + n4 * 4 + n1)
  if n1 = 4 ∨ n100 = 4 then ⟨year - 1, 12, 31⟩
  else
    let leap : Bool := n1 = 3 ∧ (n4 ≠ 24 ∨ n100 = 3)
    let (month, day) := monthDay leap n.toNat
    ⟨year, month, day⟩

/-- The month and day of a day of the year add up to it. -/
theorem monthDay_spec {b : Bool} {n : ℕ} (h : n < 366) (hn : b = true ∨ n < 365) :
    daysBeforeMonth b (monthDay b n).1 + (monthDay b n).2 = n + 1 ∧
      1 ≤ (monthDay b n).2 ∧ (monthDay b n).2 ≤ 31 := by
  have hall : ∀ b : Bool, ∀ n < 366, b = true ∨ n < 365 →
      daysBeforeMonth b (monthDay b n).1 + (monthDay b n).2 = n + 1 ∧
        1 ≤ (monthDay b n).2 ∧ (monthDay b n).2 ≤ 31 := by decide +kernel
  exact hall b n h hn

/-- The days before a year, from its place in the 400-year cycle. -/
theorem daysBeforeYear_cycle {n400 n100 n4 n1 : ℤ} (h100 : 0 ≤ n100 ∧ n100 ≤ 3)
    (h4 : 0 ≤ n4 ∧ n4 ≤ 24) (h1 : 0 ≤ n1 ∧ n1 ≤ 3) :
    daysBeforeYear (n400 * 400 + 1 + (n100 * 100 + n4 * 4 + n1)) =
      n400 * 146097 + n100 * 36524 + n4 * 1461 + n1 * 365 := by
  rw [daysBeforeYear]
  omega

/-- The leap years, from their place in the 400-year cycle. -/
theorem isLeap_cycle {n400 n100 n4 n1 : ℤ} (h100 : 0 ≤ n100 ∧ n100 ≤ 3)
    (h4 : 0 ≤ n4 ∧ n4 ≤ 24) (h1 : 0 ≤ n1 ∧ n1 ≤ 3) :
    isLeap (n400 * 400 + 1 + (n100 * 100 + n4 * 4 + n1)) =
      decide (n1 = 3 ∧ (n4 ≠ 24 ∨ n100 = 3)) := by
  rw [isLeap, decide_eq_decide]
  omega

/-- The last day of a leap year. -/
theorem dayNumber_last {n400 n100 n4 : ℤ} (h100 : 0 ≤ n100 ∧ n100 ≤ 3) (h4 : 0 ≤ n4 ∧ n4 ≤ 24)
    (hleap : n4 ≠ 24 ∨ n100 = 3) :
    dayNumber (n400 * 400 + 1 + (n100 * 100 + n4 * 4 + 3)) 12 31 =
      n400 * 146097 + n100 * 36524 + n4 * 1461 + 1461 := by
  have h3 : (0 : ℤ) ≤ 3 ∧ (3 : ℤ) ≤ 3 := by omega
  rw [dayNumber, isLeap_cycle h100 h4 h3, daysBeforeYear_cycle h100 h4 h3,
    decide_eq_true ⟨rfl, hleap⟩, show daysBeforeMonth true 12 = 335 from rfl]
  omega

/-- **The date of a day is the date of that day.** -/
theorem dayNumber_date (n : ℤ) :
    dayNumber (date n).year (date n).month (date n).day = n ∧
      1 ≤ (date n).day ∧ (date n).day ≤ 31 := by
  rw [date]
  dsimp only
  generalize hn400 : (n - 1) / 146097 = n400
  generalize hr400 : (n - 1) % 146097 = r400
  generalize hn100 : r400 / 36524 = n100
  generalize hr100 : r400 % 36524 = r100
  generalize hn4 : r100 / 1461 = n4
  generalize hr4 : r100 % 1461 = r4
  generalize hn1 : r4 / 365 = n1
  generalize hr1 : r4 % 365 = r1
  split
  next hlast =>
    refine ⟨?_, Nat.le_add_left 1 30, le_rfl⟩
    dsimp only
    by_cases h100 : n100 = 4
    · have hyear : n400 * 400 + 1 + (n100 * 100 + n4 * 4 + n1) - 1 =
          n400 * 400 + 1 + (3 * 100 + 24 * 4 + 3) := by omega
      rw [hyear, dayNumber_last (by omega) (by omega) (Or.inr rfl)]
      omega
    · have hyear : n400 * 400 + 1 + (n100 * 100 + n4 * 4 + n1) - 1 =
          n400 * 400 + 1 + (n100 * 100 + n4 * 4 + 3) := by omega
      rw [hyear, dayNumber_last (by omega) (by omega) (Or.inl (by omega))]
      omega
  next hlast =>
    have h100 : 0 ≤ n100 ∧ n100 ≤ 3 := by omega
    have h4 : 0 ≤ n4 ∧ n4 ≤ 24 := by omega
    have h1 : 0 ≤ n1 ∧ n1 ≤ 3 := by omega
    obtain ⟨hsum, hpos, hle⟩ := monthDay_spec (b := decide (n1 = 3 ∧ (n4 ≠ 24 ∨ n100 = 3)))
      (n := r1.toNat) (by omega) (Or.inr (by omega))
    refine ⟨?_, hpos, hle⟩
    dsimp only
    rw [dayNumber, isLeap_cycle h100 h4 h1, daysBeforeYear_cycle h100 h4 h1]
    omega

/-- The first day of the month of a day. -/
def monthStart (n : ℤ) : ℤ := dayNumber (date n).year (date n).month 1

/-- Days of one month share the day it starts on. -/
theorem monthStart_eq {n n' : ℤ} (hyear : (date n').year = (date n).year)
    (hmonth : (date n').month = (date n).month) : monthStart n' = monthStart n := by
  rw [monthStart, monthStart, hyear, hmonth]

theorem monthStart_add (n : ℤ) : monthStart n + (date n).day = n + 1 := by
  have h := (dayNumber_date n).1
  rw [dayNumber] at h
  rw [monthStart, dayNumber]
  omega

/-- A month starts on or before its days, and at most 30 days before them. -/
theorem monthStart_bounds (n : ℤ) : monthStart n ≤ n ∧ n ≤ monthStart n + 30 := by
  have hsum := monthStart_add n
  obtain ⟨-, hpos, hle⟩ := dayNumber_date n
  omega

end Calendar
