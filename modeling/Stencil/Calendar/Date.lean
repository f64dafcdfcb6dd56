/-! Dates of the Gregorian calendar, extended to all years, and their count of days. Day
zero is the first of January 1970. -/

namespace Stencil.Calendar

structure Date where
  year : Int
  month : Nat
  day : Nat
deriving DecidableEq, Repr

def isLeap (year : Int) : Bool := year % 4 = 0 && (year % 100 ≠ 0 || year % 400 = 0)

def monthLengths (year : Int) : List Nat :=
  [31, if isLeap year then 29 else 28, 31, 30, 31, 30, 31, 31, 30, 31, 30, 31]

def greatestYear : Int := 262142
def leastYear : Int := -262143

/-- The days of the years before this one, counted from the first day of year zero. -/
def daysBeforeYear (year : Int) : Int :=
  365 * year + (year + 3).fdiv 4 - (year + 99).fdiv 100 + (year + 399).fdiv 400

/-- The first of January 1970, counted from the first day of year zero. -/
def epochDay : Int := daysBeforeYear 1970

namespace Date

def isValid (date : Date) : Bool :=
  leastYear ≤ date.year && date.year ≤ greatestYear && 1 ≤ date.day &&
    match date.month with
    | 0 => false
    | month + 1 =>
      match (monthLengths date.year)[month]? with
      | some length => date.day ≤ length
      | none => false

/-- The place of the day in its year; the first of January is day one. -/
def ordinal (date : Date) : Nat := ((monthLengths date.year).take (date.month - 1)).foldl (· + ·) 0 + date.day

def toDays (date : Date) : Int := daysBeforeYear date.year + date.ordinal - 1 - epochDay

/-- The month and day of a place in the year, counted from zero. -/
def inYear (month : Nat) (lengths : List Nat) (rest : Nat) : Nat × Nat :=
  match lengths with
  | [] => (month, rest + 1)
  | length :: lengths =>
    if rest < length then (month, rest + 1) else inYear (month + 1) lengths (rest - length)

/-- The estimate is the year or the one before it. -/
def ofDays (days : Int) : Date :=
  let total := days + epochDay
  let estimate := (total * 400).fdiv 146097
  let year := if daysBeforeYear (estimate + 1) ≤ total then estimate + 1
    else if total < daysBeforeYear estimate then estimate - 1 else estimate
  let (month, day) := inYear 1 (monthLengths year) (total - daysBeforeYear year).toNat
  ⟨year, month, day⟩

/-- Days since Monday. -/
def weekday (date : Date) : Nat := ((date.toDays + 3) % 7).toNat

/-- Days since Sunday. -/
def fromSunday (date : Date) : Nat := (date.weekday + 1) % 7

/-- Full weeks begun by the given weekday; the days before the first one are week zero. -/
def weekFrom (date : Date) (sinceStart : Nat) : Nat := (date.ordinal + 6 - sinceStart) / 7

/-- A week belongs to the year that holds its Thursday. -/
def weekYear (date : Date) : Int := (ofDays (date.toDays + 3 - date.weekday)).year

def weekOfYear (date : Date) : Nat := ((ofDays (date.toDays + 3 - date.weekday)).ordinal + 6) / 7

end Date
end Stencil.Calendar
