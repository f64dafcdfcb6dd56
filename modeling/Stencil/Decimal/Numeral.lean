import Stencil.Text.Search

/-! Reading decimal numerals. The value is the binary number nearest to the decimal that
is written, and a tie goes to the even significand. -/

namespace Stencil.Decimal
open Text

def isDigit (c : Char) : Bool := '0' ≤ c && c ≤ '9'

def digitValue (c : Char) : Nat := c.toNat - '0'.toNat

def natOfDigits (digits : List Char) : Nat := digits.foldl (fun total c => 10 * total + digitValue c) 0

/-- The number nearest to `digits * 10 ^ exponent`. Far outside the range of the binary
format the answer is known without computing the power. -/
def nearest (digits : Nat) (exponent : Int) : Float :=
  let size : Int := (Nat.toDigits 10 digits).length
  if digits = 0 then 0
  else if exponent + size > 400 then 1 / 0
  else if exponent + size < -400 then 0
  else Float.ofScientific digits (exponent < 0) exponent.natAbs

/-- An optional sign and at least one digit. -/
def integer? (text : List Char) : Option Int :=
  let read (digits : List Char) : Option Nat :=
    if digits.isEmpty || !digits.all isDigit then none else some (natOfDigits digits)
  match text with
  | '-' :: digits => (read digits).map fun n => -(n : Int)
  | '+' :: digits => (read digits).map fun n => (n : Int)
  | digits => (read digits).map fun n => (n : Int)

/-- The exponent part of a numeral: nothing, or `e` and an integer. -/
def exponent? : List Char → Option Int
  | [] => some 0
  | c :: text => if c = 'e' || c = 'E' then integer? text else none

/-- Digits with an optional point among them, then an optional exponent. -/
def unsigned? (text : List Char) : Option Float := do
  let whole := text.takeWhile isDigit
  let rest := text.dropWhile isDigit
  let (fraction, rest) := match rest with
    | '.' :: rest => (rest.takeWhile isDigit, rest.dropWhile isDigit)
    | rest => ([], rest)
  if whole.isEmpty && fraction.isEmpty then none
  else
    let exponent ← exponent? rest
    some (nearest (natOfDigits (whole ++ fraction)) (exponent - fraction.length))

def lowerAscii (c : Char) : Char := if 'A' ≤ c && c ≤ 'Z' then Char.ofNat (c.toNat + 32) else c

/-- A numeral in any of its spellings: signed, with an exponent, infinite or not a number. -/
def float? (text : List Char) : Option Float :=
  let magnitude (text : List Char) : Option Float :=
    let word := String.ofList (text.map lowerAscii)
    if word = "inf" || word = "infinity" then some (1 / 0)
    else if word = "nan" then some (0 / 0)
    else unsigned? text
  match text with
  | '-' :: text => (magnitude text).map fun x => -x
  | '+' :: text => magnitude text
  | text => magnitude text

end Stencil.Decimal
