/-!
# Calendar dates

Days are counted from the first of January 1970; a day before it has a negative number. The date of
a day is found in cycles of 400 years, which all have the same number of days, with the year
beginning in March so that a leap day is the last day of its year.
-/

namespace Roster

namespace Calendar

/-- The seconds of a day. -/
def daySeconds : Int := 86400

/-- The day that a moment belongs to, the moment given in seconds. -/
def dayOf (seconds : Int) : Int := seconds / daySeconds

/-- The days from the first of March of year 0 to the first of January 1970. -/
def epoch : Int := 719468

/-- The days of 400 years. -/
def cycle : Int := 146097

/-- Year, month and day of a day. -/
def date (day : Int) : Int × Int × Int :=
  let n := day + epoch
  let inCycle := n % cycle
  let year := (inCycle - inCycle / 1460 + inCycle / 36524 - inCycle / 146096) / 365
  let inYear := inCycle - (365 * year + year / 4 - year / 100)
  let month := (5 * inYear + 2) / 153
  let dayOfMonth := inYear - (153 * month + 2) / 5 + 1
  let fromMarch := n / cycle * 400 + year
  if month < 10 then (fromMarch, month + 3, dayOfMonth) else (fromMarch + 1, month - 9, dayOfMonth)

/-- A number with two digits at least. -/
def twoDigits (n : Int) : String := if n < 10 then s!"0{n}" else s!"{n}"

/-- A date written as year, month and day with hyphens between them. -/
def dateText (day : Int) : String :=
  let (year, month, dayOfMonth) := date day
  s!"{year}-{twoDigits month}-{twoDigits dayOfMonth}"

/-- Whether a text has the form of a date; a line break may follow. -/
def isDate (s : String) : Bool :=
  match s.toList.map Char.isDigit, s.toList with
  | [true, true, true, true, false, true, true, false, true, true],
    [_, _, _, _, '-', _, _, '-', _, _] => true
  | [true, true, true, true, false, true, true, false, true, true, false],
    [_, _, _, _, '-', _, _, '-', _, _, '\n'] => true
  | _, _ => false

example : dateText 0 = "1970-01-01" := by decide +kernel
example : dateText 19675 = "2023-11-14" := by decide +kernel
example : dateText (-1) = "1969-12-31" := by decide +kernel
example : date 11016 = (2000, 2, 29) := by decide +kernel

end Calendar

end Roster
