import Stencil.Calendar.Moment
import Stencil.Decimal.Numeral
import Stencil.Text.Blank

/-! Reading moments from text. Three forms are known: a date and time with its offset from
universal time, a date and time without one, and a date alone. -/

namespace Stencil.Calendar
open Decimal Text

/-- A run of digits, at least `least` and at most `most` of them. -/
def digits? (least most : Nat) (text : List Char) : Option (Nat × List Char) :=
  let run := (text.take most).takeWhile isDigit
  if run.length < least then none else some (natOfDigits run, text.drop run.length)

def char? (expected : Char) (text : List Char) : Option (List Char) :=
  match text with
  | c :: rest => if c = expected then some rest else none
  | [] => none

/-- A fraction of a second in nanoseconds; digits past the ninth are passed over. -/
def fraction? (text : List Char) : Option (Nat × List Char) :=
  match text with
  | '.' :: rest => do
    let (value, after) ← digits? 1 9 rest
    some (value * Nat.pow 10 (9 - (rest.length - after.length)), after.dropWhile isDigit)
  | _ => some (0, text)

/-- An offset from universal time in seconds. -/
def offset? (text : List Char) : Option (Int × List Char) :=
  let clock (text : List Char) : Option (Int × List Char) := do
    let (hours, rest) ← digits? 2 2 text
    let rest ← char? ':' rest
    let (minutes, rest) ← digits? 2 2 rest
    if 59 < minutes || 23 < hours then none else some ((hours * 3600 + minutes * 60 : Nat), rest)
  match text with
  | [] => none
  | sign :: rest =>
    if sign = 'Z' || sign = 'z' then some (0, rest)
    else if sign = '+' then clock rest
    else if sign = '-' || sign.toNat = 0x2212 then
      (clock rest).map fun (seconds, rest) => (-seconds, rest)
    else none

/-- `2024-03-09T10:30:00.5+01:00`, with all digits present. -/
def zoned? (text : List Char) : Option Moment := do
  let (year, rest) ← digits? 4 4 text
  let (month, rest) ← digits? 2 2 (← char? '-' rest)
  let (day, rest) ← digits? 2 2 (← char? '-' rest)
  match rest with
  | [] => none
  | mark :: rest =>
    if mark = 'T' || mark = 't' || mark = ' ' then
      let (hour, rest) ← digits? 2 2 rest
      let (minute, rest) ← digits? 2 2 (← char? ':' rest)
      let (second, rest) ← digits? 2 2 (← char? ':' rest)
      let (nanos, rest) ← fraction? rest
      let (offset, rest) ← offset? rest
      if rest.isEmpty then Moment.ofClock? ⟨year, month, day⟩ hour minute second nanos offset else none
    else none

/-- One or two digits, after blanks. -/
def short? (text : List Char) : Option (Nat × List Char) := digits? 1 2 (trimLeft text)

/-- Four digits at most, or any number of them after a sign. -/
def year? (text : List Char) : Option (Int × List Char) :=
  match trimLeft text with
  | '-' :: rest => (digits? 1 rest.length rest).map fun (value, rest) => (-(value : Int), rest)
  | '+' :: rest => (digits? 1 rest.length rest).map fun (value, rest) => ((value : Int), rest)
  | text => (digits? 1 4 text).map fun (value, rest) => ((value : Int), rest)

def dayPart? (text : List Char) : Option (Date × List Char) := do
  let (year, rest) ← year? text
  let (month, rest) ← short? (← char? '-' rest)
  let (day, rest) ← short? (← char? '-' rest)
  some (⟨year, month, day⟩, rest)

/-- `2024-03-09 10:30:00`; the blanks in between may be missing. -/
def local? (text : List Char) : Option Moment := do
  let (date, rest) ← dayPart? text
  let (hour, rest) ← short? (trimLeft rest)
  let (minute, rest) ← short? (← char? ':' rest)
  let (second, rest) ← short? (← char? ':' rest)
  if rest.isEmpty then Moment.ofClock? date hour minute second 0 0 else none

def day? (text : List Char) : Option Moment := do
  let (date, rest) ← dayPart? text
  if rest.isEmpty then Moment.ofClock? date 0 0 0 0 0 else none

def moment? (text : String) : Option Moment :=
  let text := trim text.toList
  (zoned? text).or ((local? text).or (day? text))

end Stencil.Calendar
