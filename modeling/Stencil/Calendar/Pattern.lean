import Stencil.Calendar.Moment
import Stencil.Text.Search

/-! Writing a moment by a pattern. A percent sign and a letter stand for one or more items;
a hyphen, an underscore or a zero between them says how a single number is padded. -/

namespace Stencil.Calendar

inductive Padding where
  | none | zero | blank
deriving DecidableEq, Repr

inductive Quantity where
  | year | century | yearOfCentury | weekYear | weekYearOfCentury | quarter | month | day
  | weekFromSunday | weekFromMonday | weekOfYear | daysSinceSunday | dayOfWeek | dayOfYear
  | hour | hourOfHalf | minute | second | nanos | timestamp
deriving DecidableEq, Repr

inductive Phrase where
  | weekday | shortWeekday | month | shortMonth | half | lowerHalf
  /-- The fraction of the second behind a point, in as many groups of three as it needs. -/
  | fraction
  /-- A fixed number of digits of the fraction, with a point in front or not. -/
  | fractionDigits (point : Bool) (count : Nat)
  | zoneName
  | offset (text : String)
  /-- Date and time in the form that reading knows. -/
  | full
deriving DecidableEq, Repr

inductive Item where
  | literal (text : String)
  | number (quantity : Quantity) (padding : Padding)
  | phrase (phrase : Phrase)
deriving DecidableEq, Repr

def weekdayNames : List String :=
  ["Monday", "Tuesday", "Wednesday", "Thursday", "Friday", "Saturday", "Sunday"]

def monthNames : List String :=
  ["January", "February", "March", "April", "May", "June", "July", "August", "September",
   "October", "November", "December"]

/-- Fills a text up to a width from the left. -/
def padLeft (fill : Char) (width : Nat) (text : String) : String :=
  String.ofList (List.replicate (width - text.length) fill) ++ text

/-- A number in at least two places; a third digit does not fit in the first place and
counts on from its character. -/
def twoPlaces (padding : Padding) (value : Nat) : String :=
  let tens := value / 10
  let first := if tens = 0 && padding = .none then ""
    else if tens = 0 && padding = .blank then " "
    else String.singleton (Char.ofNat (48 + tens))
  first ++ String.singleton (Char.ofNat (48 + value % 10))

/-- A number in some places. The sign stands before the zeros and behind the blanks. -/
def places (padding : Padding) (width : Nat) (signed : Bool) (value : Int) : String :=
  let sign := if value < 0 then "-" else if signed then "+" else ""
  let width := if signed then width + 1 else width
  let size := toString value.natAbs
  match padding with
  | .none => sign ++ size
  | .zero => sign ++ padLeft '0' (width - sign.length) size
  | .blank => padLeft ' ' width (sign ++ size)

/-- Years of more than four digits and years before year zero have a sign. -/
def yearText (padding : Padding) (year : Int) : String :=
  places padding 4 (year < 0 || 9999 < year) year

def halfDayHour (hour : Nat) : Nat := if hour % 12 = 0 then 12 else hour % 12

/-- The last two digits of a quotient count as a byte. -/
def centuryOf (year : Int) : Nat := ((year.fdiv 100) % 256).toNat

def Quantity.write (moment : Moment) (padding : Padding) (quantity : Quantity) : String :=
  let date := moment.date
  match quantity with
  | .year => yearText padding date.year
  | .century => twoPlaces padding (centuryOf date.year)
  | .yearOfCentury => twoPlaces padding (date.year % 100).toNat
  | .weekYear => yearText padding date.weekYear
  | .weekYearOfCentury => twoPlaces padding (date.weekYear % 100).toNat
  | .quarter => toString ((date.month + 2) / 3)
  | .month => twoPlaces padding date.month
  | .day => twoPlaces padding date.day
  | .weekFromSunday => twoPlaces padding (date.weekFrom date.fromSunday)
  | .weekFromMonday => twoPlaces padding (date.weekFrom date.weekday)
  | .weekOfYear => twoPlaces padding date.weekOfYear
  | .daysSinceSunday => toString date.fromSunday
  | .dayOfWeek => toString (date.weekday + 1)
  | .dayOfYear => places padding 3 false date.ordinal
  | .hour => twoPlaces padding moment.hour
  | .hourOfHalf => twoPlaces padding (halfDayHour moment.hour)
  | .minute => twoPlaces padding moment.minute
  | .second => twoPlaces padding moment.secondOfMinute
  | .nanos => places padding 9 false moment.fraction
  | .timestamp => places padding 9 false moment.timestamp

/-- The fewest groups of three digits that hold the fraction. -/
def fractionText (nanos : Nat) : String :=
  if nanos = 0 then ""
  else if nanos % 1000000 = 0 then "." ++ padLeft '0' 3 (toString (nanos / 1000000))
  else if nanos % 1000 = 0 then "." ++ padLeft '0' 6 (toString (nanos / 1000))
  else "." ++ padLeft '0' 9 (toString nanos)

def two (value : Nat) : String := twoPlaces .zero value

def fullText (moment : Moment) : String :=
  let date := moment.date
  yearText .zero date.year ++ "-" ++ two date.month ++ "-" ++ two date.day ++ "T" ++ two moment.hour
    ++ ":" ++ two moment.minute ++ ":" ++ two moment.secondOfMinute ++ fractionText moment.fraction
    ++ "+00:00"

def nameAt (names : List String) (index : Nat) : String := names[index]?.getD ""

def short (name : String) : String := String.ofList (name.toList.take 3)

def Phrase.write (moment : Moment) : Phrase → String
  | .weekday => nameAt weekdayNames moment.date.weekday
  | .shortWeekday => short (nameAt weekdayNames moment.date.weekday)
  | .month => nameAt monthNames (moment.date.month - 1)
  | .shortMonth => short (nameAt monthNames (moment.date.month - 1))
  | .half => if moment.hour < 12 then "AM" else "PM"
  | .lowerHalf => if moment.hour < 12 then "am" else "pm"
  | .fraction => fractionText moment.fraction
  | .fractionDigits point count =>
    (if point then "." else "") ++ padLeft '0' count (toString (moment.fraction / Nat.pow 10 (9 - count)))
  | .zoneName => "UTC"
  | .offset written => written
  | .full => fullText moment

def Item.write (moment : Moment) : Item → String
  | .literal characters => characters
  | .number quantity padding => quantity.write moment padding
  | .phrase words => words.write moment

def zeros (quantity : Quantity) : Item := .number quantity .zero
def blanks (quantity : Quantity) : Item := .number quantity .blank
def bare (quantity : Quantity) : Item := .number quantity .none

def slashedDate : List Item := [zeros .month, .literal "/", zeros .day, .literal "/", zeros .yearOfCentury]

def clock : List Item := [zeros .hour, .literal ":", zeros .minute, .literal ":", zeros .second]

/-- What a letter stands for. -/
def letter? (c : Char) : Option (List Item) :=
  match c with
  | 'A' => some [.phrase .weekday]
  | 'B' => some [.phrase .month]
  | 'C' => some [zeros .century]
  | 'D' => some slashedDate
  | 'F' => some [zeros .year, .literal "-", zeros .month, .literal "-", zeros .day]
  | 'G' => some [zeros .weekYear]
  | 'H' => some [zeros .hour]
  | 'I' => some [zeros .hourOfHalf]
  | 'M' => some [zeros .minute]
  | 'P' => some [.phrase .lowerHalf]
  | 'R' => some [zeros .hour, .literal ":", zeros .minute]
  | 'S' => some [zeros .second]
  | 'T' => some clock
  | 'U' => some [zeros .weekFromSunday]
  | 'V' => some [zeros .weekOfYear]
  | 'W' => some [zeros .weekFromMonday]
  | 'X' => some clock
  | 'Y' => some [zeros .year]
  | 'Z' => some [.phrase .zoneName]
  | 'a' => some [.phrase .shortWeekday]
  | 'b' => some [.phrase .shortMonth]
  | 'h' => some [.phrase .shortMonth]
  | 'c' => some ([.phrase .shortWeekday, .literal " ", .phrase .shortMonth, .literal " ", blanks .day,
      .literal " "] ++ clock ++ [.literal " ", zeros .year])
  | 'd' => some [zeros .day]
  | 'e' => some [blanks .day]
  | 'f' => some [zeros .nanos]
  | 'g' => some [zeros .weekYearOfCentury]
  | 'j' => some [zeros .dayOfYear]
  | 'k' => some [blanks .hour]
  | 'l' => some [blanks .hourOfHalf]
  | 'm' => some [zeros .month]
  | 'n' => some [.literal "\n"]
  | 'p' => some [.phrase .half]
  | 'q' => some [bare .quarter]
  | 'r' => some [zeros .hourOfHalf, .literal ":", zeros .minute, .literal ":", zeros .second, .literal " ",
      .phrase .half]
  | 's' => some [bare .timestamp]
  | 't' => some [.literal "\t"]
  | 'u' => some [bare .dayOfWeek]
  | 'v' => some [blanks .day, .literal "-", .phrase .shortMonth, .literal "-", zeros .year]
  | 'w' => some [bare .daysSinceSunday]
  | 'x' => some slashedDate
  | 'y' => some [zeros .yearOfCentury]
  | 'z' => some [.phrase (.offset "+0000")]
  | '+' => some [.phrase .full]
  | '%' => some [.literal "%"]
  | _ => none

def padding? (c : Char) : Option Padding :=
  match c with
  | '-' => some .none
  | '0' => some .zero
  | '_' => some .blank
  | _ => none

/-- The items behind a percent sign with how many characters they take. -/
def specifier? (text : List Char) : Option (List Item × Nat) :=
  match text with
  | '.' :: '3' :: 'f' :: _ => some ([.phrase (.fractionDigits true 3)], 3)
  | '.' :: '6' :: 'f' :: _ => some ([.phrase (.fractionDigits true 6)], 3)
  | '.' :: '9' :: 'f' :: _ => some ([.phrase (.fractionDigits true 9)], 3)
  | '.' :: 'f' :: _ => some ([.phrase .fraction], 2)
  | '3' :: 'f' :: _ => some ([.phrase (.fractionDigits false 3)], 2)
  | '6' :: 'f' :: _ => some ([.phrase (.fractionDigits false 6)], 2)
  | '9' :: 'f' :: _ => some ([.phrase (.fractionDigits false 9)], 2)
  | ':' :: ':' :: ':' :: 'z' :: _ => some ([.phrase (.offset "+00")], 4)
  | ':' :: ':' :: 'z' :: _ => some ([.phrase (.offset "+00:00:00")], 3)
  | ':' :: 'z' :: _ => some ([.phrase (.offset "+00:00")], 2)
  | c :: rest =>
    match padding? c with
    | none => (letter? c).map fun items => (items, 1)
    | some padding =>
      match rest.head?.bind letter? with
      | some [.number quantity _] => some ([.number quantity padding], 2)
      | _ => none
  | [] => none

/-- Reads a pattern; one that holds an unknown specifier is none. -/
def items? (pattern : List Char) : Option (List Item) :=
  match pattern with
  | [] => some []
  | '%' :: rest => do
    let (items, width) ← specifier? rest
    let others ← items? (rest.drop width)
    some (items ++ others)
  | c :: rest => do
    let others ← items? rest
    some (.literal (String.singleton c) :: others)
termination_by pattern.length
decreasing_by
  · exact Text.length_drop_lt _ _ _
  · exact Nat.lt_succ_self _

def Moment.format? (moment : Moment) (pattern : String) : Option String :=
  (items? pattern.toList).map fun items => String.join (items.map (Item.write moment))

end Stencil.Calendar
