import Stencil.Calendar.Date

/-! A moment in universal time: a day, a second of it and a fraction. The fraction of a
leap second is counted on from the second before it, past a whole second. -/

namespace Stencil.Calendar

structure Moment where
  days : Int
  second : Nat
  nanos : Nat := 0
deriving DecidableEq, Repr

def secondsPerDay : Int := 86400

namespace Moment

def date (moment : Moment) : Date := Date.ofDays moment.days

/-- Seconds since the start of 1970. -/
def timestamp (moment : Moment) : Int := moment.days * secondsPerDay + moment.second

/-- Nothing when the year is out of range. -/
def ofTimestamp? (seconds : Int) (nanos : Nat) : Option Moment :=
  let days := seconds.fdiv secondsPerDay
  let year := (Date.ofDays days).year
  if leastYear ≤ year && year ≤ greatestYear then
    some ⟨days, (seconds.fmod secondsPerDay).toNat, nanos⟩
  else none

def hour (moment : Moment) : Nat := moment.second / 3600
def minute (moment : Moment) : Nat := moment.second / 60 % 60

/-- The second of the minute, up to sixty in a leap second. -/
def secondOfMinute (moment : Moment) : Nat := moment.second % 60 + moment.nanos / 1000000000

def fraction (moment : Moment) : Nat := moment.nanos % 1000000000

/-- A clock time on a date, off from universal time by some seconds. The sixtieth second
of a minute is a leap second. -/
def ofClock? (date : Date) (hour minute second nanos : Nat) (offset : Int) : Option Moment :=
  if date.isValid && hour ≤ 23 && minute ≤ 59 && second ≤ 60 then
    let shown := if second = 60 then 59 else second
    let leap := if second = 60 then 1000000000 else 0
    let seconds := date.toDays * secondsPerDay + hour * 3600 + minute * 60 + shown - offset
    ofTimestamp? seconds (nanos + leap)
  else none

end Moment
end Stencil.Calendar
