/-! The proleptic Gregorian calendar: days are counted from 1 January of the year 1, which is
day 1, and every day number of a year from 1 on belongs to exactly one date. -/

namespace ClientRegistry.Calendar

def isLeap (year : Nat) : Bool :=
  year % 4 == 0 && (year % 100 != 0 || year % 400 == 0)

def monthLengths (year : Nat) : List Nat :=
  [31, if isLeap year then 29 else 28, 31, 30, 31, 30, 31, 31, 30, 31, 30, 31]

def daysInMonth (year month : Nat) : Nat :=
  (monthLengths year).getD (month - 1) 0

/-- A date that the calendar has, the year 0 included. -/
def isDate (year month day : Nat) : Bool :=
  1 ≤ month && month ≤ 12 && 1 ≤ day && day ≤ daysInMonth year month

/-- The number of days before 1 January of a year. -/
def daysBeforeYear (year : Nat) : Nat :=
  let y := year - 1
  y * 365 + y / 4 - y / 100 + y / 400

def daysBeforeMonth (year month : Nat) : Nat :=
  ((monthLengths year).take (month - 1)).foldl (fun total days => total + days) 0

def ordinal (year month day : Nat) : Nat :=
  daysBeforeYear year + daysBeforeMonth year month + day

/-- Month and day of the day with index `n` from the start of the year. -/
def monthAndDay : List Nat → Nat → Nat → Nat × Nat
  | [], month, n => (month, n + 1)
  | len :: rest, month, n =>
    if n < len then (month, n + 1) else monthAndDay rest (month + 1) (n - len)

/-- The date of a day number. A cycle of 400 years has 146097 days; the last day of a cycle of
4 or of 400 years would fall into a fifth part and belongs to the fourth. -/
def ofOrdinal (ordinal : Nat) : Nat × Nat × Nat :=
  let n := ordinal - 1
  let centuries := min ((n % 146097) / 36524) 3
  let inCentury := n % 146097 - centuries * 36524
  let years := min ((inCentury % 1461) / 365) 3
  let year := n / 146097 * 400 + centuries * 100 + inCentury / 1461 * 4 + years + 1
  let inYear := inCentury % 1461 - years * 365
  (year, monthAndDay (monthLengths year) 1 inYear)

/-- The day number of 1 January 1970. -/
def epoch : Nat := 719163

example : ordinal 1970 1 1 = epoch := by decide
example : ofOrdinal epoch = (1970, 1, 1) := by decide
example : ofOrdinal (ordinal 2000 12 31) = (2000, 12, 31) := by decide
example : ofOrdinal (ordinal 2400 2 29) = (2400, 2, 29) := by decide

end ClientRegistry.Calendar
