import Stencil.Json.Basic
import Stencil.Decimal.Numeral
import Stencil.Decimal.Word

/-! Reading JSON documents. Integers are kept exactly while they fit in 64 bits. Any other
number is a significand of as many leading digits as fit in 64 bits, scaled by one power
of ten at a time, so a long numeral may miss the nearest binary number by one step. -/

namespace Stencil.Json
open Decimal

def skipBlanks (text : List Char) : List Char :=
  text.dropWhile fun c => c = ' ' || c = '\t' || c = '\n' || c = '\r'

/-- Powers of ten up to the greatest that is finite. -/
def powerOfTen (exponent : Nat) : Float := Float.ofScientific 1 false exponent

/-- Divides by the greatest power of ten until the rest of the exponent has one. -/
def scaleDown (value : Float) (exponent : Nat) : Nat → Float
  | 0 => value
  | fuel + 1 =>
    if exponent ≤ 308 then value / powerOfTen exponent
    else if value == 0 then value
    else scaleDown (value / powerOfTen 308) (exponent - 308) fuel

/-- Nothing when the number is too large to be finite. -/
def scaled? (significand : Nat) (exponent : Int) : Option Float :=
  let value := Float.ofNat significand
  if exponent < 0 then some (scaleDown value exponent.natAbs 4)
  else if significand = 0 then some value
  else if exponent > 308 then none
  else
    let value := value * powerOfTen exponent.toNat
    if value.isInf then none else some value

/-- Takes digits into the significand while they fit, and tells which are left over. -/
def takeDigits (significand : Nat) : List Char → Nat × Nat × List Char
  | [] => (significand, 0, [])
  | c :: text =>
    let next := 10 * significand + digitValue c
    if next ≤ greatestUnsigned then
      let (total, taken, left) := takeDigits next text
      (total, taken + 1, left)
    else (significand, 0, c :: text)

/-- An exponent mark with its integer, and the text behind it. -/
def exponentPart? (text : List Char) : Option (Option Int × List Char) :=
  match text with
  | c :: rest =>
    if c = 'e' || c = 'E' then
      let (negative, rest) := match rest with
        | '-' :: rest => (true, rest)
        | '+' :: rest => (false, rest)
        | rest => (false, rest)
      let digits := rest.takeWhile isDigit
      if digits.isEmpty then none
      else
        let size : Int := natOfDigits digits
        some (some (if negative then -size else size), rest.dropWhile isDigit)
    else some (none, text)
  | [] => some (none, [])

def readMagnitude? (negative : Bool) (text : List Char) : Option (Json × List Char) := do
  let whole := text.takeWhile isDigit
  let rest := text.dropWhile isDigit
  if whole.isEmpty || (whole.head? == some '0' && 1 < whole.length) then none
  else
    let (significand, _, left) := takeDigits 0 whole
    let (fraction, rest) ← match rest with
      | '.' :: rest =>
        let digits := rest.takeWhile isDigit
        if digits.isEmpty then none else some (some digits, rest.dropWhile isDigit)
      | rest => some (none, rest)
    let (significand, places) := match fraction with
      | some digits =>
        let (total, taken, _) := takeDigits significand digits
        (total, taken)
      | none => (significand, 0)
    let (exponent, rest) ← exponentPart? rest
    let fits := left.isEmpty && (!negative || isWord (-(significand : Int)))
    if fraction.isNone && exponent.isNone && fits && !(negative && significand = 0) then
      some (.integer (if negative then -(significand : Int) else significand), rest)
    else
      let value ← scaled? significand ((left.length : Int) - places + exponent.getD 0)
      some (.decimal (if negative then -value else value), rest)

def readNumber? : List Char → Option (Json × List Char)
  | '-' :: text => readMagnitude? true text
  | text => readMagnitude? false text

def hexValue? (c : Char) : Option Nat :=
  if isDigit c then some (digitValue c)
  else if 'a' ≤ c && c ≤ 'f' then some (c.toNat - 87)
  else if 'A' ≤ c && c ≤ 'F' then some (c.toNat - 55)
  else none

def hexUnit? (a b c d : Char) : Option Nat := do
  let a ← hexValue? a
  let b ← hexValue? b
  let c ← hexValue? c
  let d ← hexValue? d
  some (((a * 16 + b) * 16 + c) * 16 + d)

def simpleEscape? (c : Char) : Option Char :=
  match c with
  | '"' => some '"'
  | '\\' => some '\\'
  | '/' => some '/'
  | 'b' => some (Char.ofNat 8)
  | 'f' => some (Char.ofNat 12)
  | 'n' => some '\n'
  | 'r' => some '\r'
  | 't' => some '\t'
  | _ => none

/-- The characters up to the closing quote. Two escaped halves of a pair make one
character; a half that stands alone is refused. -/
def readChars? : List Char → Option (List Char × List Char)
  | [] => none
  | '"' :: rest => some ([], rest)
  | '\\' :: 'u' :: a :: b :: c :: d :: rest => do
    let unit ← hexUnit? a b c d
    if 0xD800 ≤ unit && unit < 0xDC00 then
      match rest with
      | '\\' :: 'u' :: e :: f :: g :: h :: rest =>
        let low ← hexUnit? e f g h
        if 0xDC00 ≤ low && low < 0xE000 then
          let (chars, rest) ← readChars? rest
          some (Char.ofNat (0x10000 + (unit - 0xD800) * 0x400 + (low - 0xDC00)) :: chars, rest)
        else none
      | _ => none
    else if 0xDC00 ≤ unit && unit < 0xE000 then none
    else
      let (chars, rest) ← readChars? rest
      some (Char.ofNat unit :: chars, rest)
  | '\\' :: c :: rest => do
    let meant ← simpleEscape? c
    let (chars, rest) ← readChars? rest
    some (meant :: chars, rest)
  | c :: rest => do
    if c.toNat < 32 || c = '\\' then none
    else
      let (chars, rest) ← readChars? rest
      some (c :: chars, rest)

/-- A character that stands for itself. -/
theorem readChars?_plain {c : Char} (rest : List Char) (visible : 32 ≤ c.toNat) (notQuote : c ≠ '"')
    (notSlash : c ≠ '\\') : readChars? (c :: rest) = (readChars? rest).map fun (chars, rest) => (c :: chars, rest) := by
  rw [readChars?.eq_5 c rest notQuote (by simp [notSlash]) (by simp [notSlash]), if_neg (by simp [notSlash]; omega),
    Option.map_eq_bind]
  rfl

def readWord? (word : String) (meant : Json) (text : List Char) : Option (Json × List Char) :=
  (Text.stripPrefix? word.toList text).map fun rest => (meant, rest)

mutual
/-- Reads one value. Lists and records may stand inside each other `depth` deep. -/
def readValue? : Nat → Nat → List Char → Option (Json × List Char)
  | 0, _, _ => none
  | fuel + 1, depth, text =>
    match skipBlanks text with
    | '[' :: rest =>
      match depth with
      | 0 => none
      | depth + 1 =>
        match skipBlanks rest with
        | ']' :: rest => some (.array [], rest)
        | rest => do
          let (items, rest) ← readItems? fuel depth rest
          some (.array items, rest)
    | '\x7b' :: rest =>
      match depth with
      | 0 => none
      | depth + 1 =>
        match skipBlanks rest with
        | '\x7d' :: rest => some (.object [], rest)
        | rest => do
          let (members, rest) ← readMembers? fuel depth rest
          some (.object members, rest)
    | '"' :: rest => do
      let (chars, rest) ← readChars? rest
      some (.string (String.ofList chars), rest)
    | 'n' :: rest => readWord? "ull" .null rest
    | 't' :: rest => readWord? "rue" (.bool true) rest
    | 'f' :: rest => readWord? "alse" (.bool false) rest
    | rest => readNumber? rest

def readItems? : Nat → Nat → List Char → Option (List Json × List Char)
  | 0, _, _ => none
  | fuel + 1, depth, text => do
    let (item, rest) ← readValue? fuel depth text
    match skipBlanks rest with
    | ',' :: rest =>
      let (items, rest) ← readItems? fuel depth rest
      some (item :: items, rest)
    | ']' :: rest => some ([item], rest)
    | _ => none

def readMembers? : Nat → Nat → List Char → Option (List (String × Json) × List Char)
  | 0, _, _ => none
  | fuel + 1, depth, text => do
    match skipBlanks text with
    | '"' :: rest =>
      let (name, rest) ← readChars? rest
      match skipBlanks rest with
      | ':' :: rest =>
        let (value, rest) ← readValue? fuel depth rest
        let member := (String.ofList name, value)
        match skipBlanks rest with
        | ',' :: rest =>
          let (members, rest) ← readMembers? fuel depth rest
          some (member :: members, rest)
        | '\x7d' :: rest => some ([member], rest)
        | _ => none
      | _ => none
    | _ => none
end

/-- Lists and records inside each other beyond this depth are refused. -/
def nestingLimit : Nat := 127

/-- Reads a document that fills the whole text but for blanks around it. -/
def read? (text : String) : Option Json := do
  let chars := text.toList
  let (document, rest) ← readValue? (2 * chars.length + 2) nestingLimit chars
  if (skipBlanks rest).isEmpty then some document else none

end Stencil.Json
