/-! # Calendar dates
The Gregorian calendar extended to all years, days numbered from the first day of year one. -/
namespace LedgerSearch

structure Date where
  year : Nat
  month : Nat
  day : Nat
  deriving DecidableEq, Repr, Inhabited

namespace Date

def isLeap (year : Nat) : Bool := year % 4 == 0 && (year % 100 != 0 || year % 400 == 0)

def daysInMonth (year month : Nat) : Nat :=
  if month = 2 then (if isLeap year then 29 else 28)
  else if month = 4 ∨ month = 6 ∨ month = 9 ∨ month = 11 then 30
  else 31

def daysInYear (year : Nat) : Nat := if isLeap year then 366 else 365

/-- The days of all years before a positive year. -/
def daysBeforeYear (year : Nat) : Nat :=
  let past := year - 1
  past * 365 + past / 4 - past / 100 + past / 400

/-- The days of the year before a month. -/
def daysBeforeMonth (year : Nat) : Nat → Nat
  | 0 => 0
  | 1 => 0
  | month + 1 => daysBeforeMonth year month + daysInMonth year month

/-- The number of a date, one for the first day of year one. -/
def number (d : Date) : Nat := daysBeforeYear d.year + daysBeforeMonth d.year d.month + d.day

/-- Within the years that four digits can write. -/
def isValid (d : Date) : Bool :=
  1 ≤ d.year && d.year ≤ 9999 && 1 ≤ d.month && d.month ≤ 12 && 1 ≤ d.day &&
    d.day ≤ daysInMonth d.year d.month

/-- Moves the surplus of a day count over to the following months, at most `fuel` of them. -/
def carryMonths (year month day : Nat) : Nat → Date
  | 0 => ⟨year, month, day⟩
  | fuel + 1 =>
    if day ≤ daysInMonth year month then ⟨year, month, day⟩
    else carryMonths year (month + 1) (day - daysInMonth year month) fuel

/-- The date that lies a number of days after the last day of the year before. -/
def ofYearDay (year day : Nat) : Date :=
  if day ≤ daysInYear year then carryMonths year 1 day 11
  else carryMonths (year + 1) 1 (day - daysInYear year) 11

/-- The weekday of the first of January, zero for Monday. -/
def newYearWeekday (year : Nat) : Nat := daysBeforeYear year % 7

/-- A week year has 53 weeks if it starts on a Thursday, or on a Wednesday in a leap year. -/
def weeksInYear (year : Nat) : Nat :=
  if newYearWeekday year = 3 ∨ (newYearWeekday year = 2 ∧ isLeap year) then 53 else 52

/-- The date of a weekday in a numbered week; week one holds the first Thursday of its year. The weeks of
year zero lie before the first month of year one, where there is no valid date. -/
def ofWeek? (year week weekday : Nat) : Option Date :=
  if week = 0 ∨ weeksInYear year < week ∨ weekday = 0 ∨ 7 < weekday then none
  else if year = 0 then some ⟨1, 0, weekday⟩
  else
    let first : Int := if newYearWeekday year ≤ 3 then -(newYearWeekday year) else 7 - newYearWeekday year
    let day : Int := first + ((week - 1) * 7 + weekday : Nat)
    if 1 ≤ day then some (ofYearDay year day.toNat)
    else some (ofYearDay (year - 1) (daysInYear (year - 1) + day).toNat)

end Date
end LedgerSearch
