/-! Days of the proleptic Gregorian calendar. -/
namespace Compendium.Calendar

def isLeap (year : Nat) : Bool := year % 4 = 0 && (year % 100 != 0 || year % 400 = 0)

def daysInMonth (year month : Nat) : Nat :=
  if month = 2 then if isLeap year then 29 else 28
  else if month = 4 || month = 6 || month = 9 || month = 11 then 30
  else 31

/-- Days from the first of January of year 1 to the first of January of a year. -/
def daysBeforeYear (year : Nat) : Nat :=
  let y := year - 1
  y * 365 + y / 4 - y / 100 + y / 400

def daysBeforeMonth (year month : Nat) : Nat :=
  (List.range (month - 1)).foldl (fun days m => days + daysInMonth year (m + 1)) 0

/-- The number of a date; the first of January of year 1 has number 1. -/
def ordinal (year month day : Nat) : Nat := daysBeforeYear year + daysBeforeMonth year month + day

/-- The month and the day of the month on which a day of the year falls, months from `month` on. -/
def monthAndDay (year : Nat) : (fuel month day : Nat) → Nat × Nat
  | 0, month, day => (month, day)
  | fuel + 1, month, day =>
    if day ≤ daysInMonth year month then (month, day)
    else monthAndDay year fuel (month + 1) (day - daysInMonth year month)

/-- Year, month and day of a number, counted off by 400, 100, 4 and 1 years. -/
def ofOrdinal (number : Nat) : Nat × Nat × Nat :=
  let n := number - 1
  let c := n / 146097
  let n := n % 146097
  let century := min 3 (n / 36524)
  let n := n - century * 36524
  let four := n / 1461
  let n := n % 1461
  let one := min 3 (n / 365)
  let n := n - one * 365
  let year := c * 400 + century * 100 + four * 4 + one + 1
  let found := monthAndDay year 11 1 (n + 1)
  (year, found.1, found.2)

/-- Day of the week; Monday is 0. -/
def weekday (number : Nat) : Nat := (number + 6) % 7

/-- The number of the Monday that begins the first week of a year, the week that holds the first Thursday.
It is counted from the day before year 1, so that the weeks of year 1 have numbers as well. -/
def firstMonday (year : Nat) : Nat :=
  let first := ordinal year 1 1
  let day := weekday first
  if day ≤ 3 then first - day else first + 7 - day

/-- Whether a year has a week 53: it begins on a Thursday, or on a Wednesday and is leap. -/
def hasLongYear (year : Nat) : Bool :=
  let day := weekday (ordinal year 1 1)
  day = 3 || (day = 2 && isLeap year)

/-- The date of a day of a week of a year; weeks count from 1, and so do the days from Monday. -/
def ofWeek? (year week day : Nat) : Option (Nat × Nat × Nat) :=
  if year = 0 || week = 0 || 53 < week || (week = 53 && !hasLongYear year) || day = 0 || 7 < day then none
  else some (ofOrdinal (firstMonday year + (week - 1) * 7 + (day - 1)))

def isDate (year month day : Nat) : Bool :=
  1 ≤ year && year ≤ 9999 && 1 ≤ month && month ≤ 12 && 1 ≤ day && day ≤ daysInMonth year month

end Compendium.Calendar
