/-
Days of a calendar of twelve months, counted from the first day of a year.

Which years are leap years is a parameter. The days up to a date are the
days of the years before, of the months before, and of the month itself
(`dayNumber`), and the next date has the next number (`dayNumber_next`).

# Year by year

From March on, a date and the same date a year before are apart by the
length of the later of the two years. Counted so (`yearSteps`), the days
come to the date in the first year, whose February is then that of the
first year (`yearSteps_add_daysBeforeMonth`).
-/
import Mathlib.Tactic.Common

namespace TradingEngine.Lib

section Calendar

variable (leap : Nat → Bool) (epoch : Nat)

-- =================================================================== lengths

def yearLength (year : Nat) : Nat := if leap year then 366 else 365

def monthLength (year month : Nat) : Nat :=
  match month with
  | 2 => if leap year then 29 else 28
  | 4 => 30
  | 6 => 30
  | 9 => 30
  | 11 => 30
  | _ => 31

/-- The days of a year before a month of it. -/
def daysBeforeMonth (year : Nat) : Nat → Nat
  | 0 => 0
  | 1 => 0
  | month + 2 =>
      daysBeforeMonth year (month + 1) + monthLength leap year (month + 1)

/-- The days of the first years. -/
def daysBeforeYear : Nat → Nat
  | 0 => 0
  | n + 1 => daysBeforeYear n + yearLength leap (epoch + n)

/-- The days from a date in the first year to the same date so many years
later, from March on. -/
def yearSteps : Nat → Nat
  | 0 => 0
  | n + 1 => yearSteps n + yearLength leap (epoch + (n + 1))

/-- The days before the next month. -/
theorem daysBeforeMonth_succ {month : Nat} (h : 1 ≤ month) (year : Nat) :
    daysBeforeMonth leap year (month + 1)
      = daysBeforeMonth leap year month + monthLength leap year month := by
  obtain ⟨m, rfl⟩ := Nat.exists_eq_add_of_le' h
  rfl

/-- December ends the year. -/
theorem daysBeforeMonth_december (year : Nat) :
    daysBeforeMonth leap year 12 + monthLength leap year 12
      = yearLength leap year := by
  simp only [daysBeforeMonth, monthLength, yearLength]
  split <;> rfl

/-- Two years differ by their Februaries. -/
theorem daysBeforeMonth_add {month : Nat} (h : 2 < month) (year year' : Nat) :
    daysBeforeMonth leap year month + yearLength leap year'
      = daysBeforeMonth leap year' month + yearLength leap year := by
  induction h with
  | refl =>
      simp only [daysBeforeMonth, monthLength, yearLength]
      split <;> split <;> rfl
  | @step month hmonth ih =>
      have hlt : 2 < month := hmonth
      have hlength : monthLength leap year month
          = monthLength leap year' month := by
        unfold monthLength
        split
        · omega
        all_goals rfl
      rw [daysBeforeMonth_succ leap (by omega),
        daysBeforeMonth_succ leap (by omega), hlength]
      omega

/-- The steps of the years, from one side of February to the other. -/
theorem yearSteps_add (n : Nat) :
    yearSteps leap epoch n + yearLength leap epoch
      = daysBeforeYear leap epoch n + yearLength leap (epoch + n) := by
  induction n with
  | zero => rfl
  | succ n ih =>
      rw [yearSteps, daysBeforeYear]
      omega

/-- From March on the years can be counted either way. -/
theorem yearSteps_add_daysBeforeMonth {month : Nat} (h : 2 < month)
    (n : Nat) :
    yearSteps leap epoch n + daysBeforeMonth leap epoch month
      = daysBeforeYear leap epoch n
        + daysBeforeMonth leap (epoch + n) month := by
  have hyears := yearSteps_add leap epoch n
  have hmonths := daysBeforeMonth_add leap h epoch (epoch + n)
  omega

-- ===================================================================== dates

structure CalendarDate where
  year : Nat
  month : Nat
  day : Nat
  deriving DecidableEq, Repr

namespace CalendarDate

/-- A date of the calendar, not before the first year. -/
structure Valid (d : CalendarDate) : Prop where
  year : epoch ≤ d.year
  month : 1 ≤ d.month ∧ d.month ≤ 12
  day : 1 ≤ d.day ∧ d.day ≤ monthLength leap d.year d.month

instance (d : CalendarDate) : Decidable (d.Valid leap epoch) :=
  decidable_of_iff (epoch ≤ d.year ∧ (1 ≤ d.month ∧ d.month ≤ 12)
      ∧ (1 ≤ d.day ∧ d.day ≤ monthLength leap d.year d.month))
    ⟨fun ⟨a, b, c⟩ => ⟨a, b, c⟩, fun ⟨a, b, c⟩ => ⟨a, b, c⟩⟩

/-- The following date. -/
def next (d : CalendarDate) : CalendarDate :=
  if d.day < monthLength leap d.year d.month then
    { d with day := d.day + 1 }
  else if d.month < 12 then ⟨d.year, d.month + 1, 1⟩
  else ⟨d.year + 1, 1, 1⟩

/-- The number of a date, the first day of the first year being 1. -/
def dayNumber (d : CalendarDate) : Nat :=
  daysBeforeYear leap epoch (d.year - epoch)
    + daysBeforeMonth leap d.year d.month + d.day

/-- Every month has a day. -/
theorem monthLength_pos (year month : Nat) :
    1 ≤ monthLength leap year month := by
  unfold monthLength
  split
  · split <;> omega
  all_goals omega

/-- The day after a date of the calendar is one too. -/
theorem Valid.next {d : CalendarDate} (h : d.Valid leap epoch) :
    (d.next leap).Valid leap epoch := by
  have hyear := h.year
  have hmonth := h.month
  unfold CalendarDate.next
  split
  · exact ⟨hyear, hmonth, by dsimp only; omega⟩
  · split
    · exact ⟨hyear, by dsimp only; omega, Nat.le_refl 1,
        monthLength_pos leap d.year (d.month + 1)⟩
    · exact ⟨by dsimp only; omega, by dsimp only; omega, Nat.le_refl 1,
        monthLength_pos leap (d.year + 1) 1⟩

/-- And has the next number, across months and years. -/
theorem dayNumber_next {d : CalendarDate} (h : d.Valid leap epoch) :
    (d.next leap).dayNumber leap epoch = d.dayNumber leap epoch + 1 := by
  have hyear := h.year
  have hmonth := h.month
  have hday := h.day
  unfold CalendarDate.next dayNumber
  by_cases hinside : d.day < monthLength leap d.year d.month
  · rw [if_pos hinside]
    dsimp only
    omega
  · rw [if_neg hinside]
    split
    · have hmonths := daysBeforeMonth_succ leap hmonth.1 d.year
      dsimp only
      omega
    · have hdecember : d.month = 12 := by omega
      have hlast := daysBeforeMonth_december leap d.year
      have hyears : daysBeforeYear leap epoch (d.year + 1 - epoch)
          = daysBeforeYear leap epoch (d.year - epoch)
            + yearLength leap d.year := by
        have hsucc : d.year + 1 - epoch = d.year - epoch + 1 := by omega
        have hback : epoch + (d.year - epoch) = d.year := by omega
        rw [hsucc, daysBeforeYear, hback]
      rw [hdecember] at hday hinside ⊢
      dsimp only
      rw [hyears, daysBeforeMonth]
      omega

end CalendarDate

end Calendar

end TradingEngine.Lib
