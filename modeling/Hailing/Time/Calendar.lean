/-!
# The calendar

Days are counted from the first of January 1970, forwards and backwards, in
the Gregorian calendar extended over all years. The calendar repeats after
400 years. Counting a year from March puts the leap day at its end, so that
the length of a month does not depend on the year.
-/

namespace Hailing.Time

/-- A day by year, month and day of the month. -/
structure Date where
  year : Int
  month : Nat
  day : Nat
  deriving DecidableEq, Repr

def isLeapYear (year : Int) : Bool :=
  year % 4 == 0 && (year % 100 != 0 || year % 400 == 0)

def daysInMonth (year : Int) (month : Nat) : Nat :=
  if month == 2 then (if isLeapYear year then 29 else 28)
  else if month == 4 || month == 6 || month == 9 || month == 11 then 30
  else 31

/-- A month and a day that the year has. -/
def Date.Valid (d : Date) : Prop :=
  1 ≤ d.month ∧ d.month ≤ 12 ∧ 1 ≤ d.day ∧ d.day ≤ daysInMonth d.year d.month

instance (d : Date) : Decidable d.Valid := by
  unfold Date.Valid; infer_instance

def daysPerCycle : Int := 146097

/-- Days from the first of March of year zero to the first day counted. -/
def cycleOffset : Int := 719468

/-- The day's number. -/
def Date.toDay (d : Date) : Int :=
  let year := if d.month ≤ 2 then d.year - 1 else d.year
  let yearOfCycle := year % 400
  let monthFromMarch : Int := (d.month + 9) % 12
  let dayOfYear := (153 * monthFromMarch + 2) / 5 + d.day - 1
  let dayOfCycle := yearOfCycle * 365 + yearOfCycle / 4 - yearOfCycle / 100 + dayOfYear
  year / 400 * daysPerCycle + dayOfCycle - cycleOffset

/-- The day with a given number. -/
def Date.ofDay (day : Int) : Date :=
  let shifted := day + cycleOffset
  let dayOfCycle := shifted % daysPerCycle
  let yearOfCycle :=
    (dayOfCycle - dayOfCycle / 1460 + dayOfCycle / 36524 - dayOfCycle / 146096) / 365
  let dayOfYear := dayOfCycle - (365 * yearOfCycle + yearOfCycle / 4 - yearOfCycle / 100)
  let monthFromMarch := (5 * dayOfYear + 2) / 153
  let month := ((monthFromMarch + 2) % 12 + 1).toNat
  let year := yearOfCycle + shifted / daysPerCycle * 400
  { year := if month ≤ 2 then year + 1 else year
    month := month
    day := (dayOfYear - (153 * monthFromMarch + 2) / 5 + 1).toNat }

/-- The first year that is kept. -/
def firstYear : Int := -262143

/-- The last year that is kept. -/
def lastYear : Int := 262142

def firstDay : Int := (Date.mk firstYear 1 1).toDay

def lastDay : Int := (Date.mk lastYear 12 31).toDay

theorem firstDay_eq : firstDay = -96465292 := by decide

theorem lastDay_eq : lastDay = 95026236 := by decide

end Hailing.Time
