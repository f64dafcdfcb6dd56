import Stencil.Calendar.Pattern
import Stencil.Calendar.Reader
import Stencil.Engine.Query
import Stencil.Html

/-! The directives that every engine knows: a value as JSON, a list of class names by
condition, and a date by a pattern. -/

namespace Stencil.Directive
open Calendar

/-- Characters that mean something to HTML or end a script are escaped once more. -/
def inertChar (c : Char) : List Char :=
  match c with
  | '<' => "\\u003c".toList
  | '>' => "\\u003e".toList
  | '&' => "\\u0026".toList
  | '\'' => "\\u0027".toList
  | _ => [c]

def inert (text : String) : String := String.ofList (text.toList.flatMap inertChar)

/-- The first argument as JSON, laid out on lines if the second one holds. -/
def json : Handler := fun call => do
  match ← call.required 0 with
  | .error error => return .error error
  | .ok value =>
    let pretty := ((← call.value? 1).map Value.isTruthy).getD false
    return .ok (inert (if pretty then value.toJson.pretty else value.toJson.compact))

/-- The names in an object whose conditions hold, or the items of an array that hold. -/
def classNames? : Value → Option (List String)
  | .object fields => some ((fields.filter fun (_, condition) => condition.isTruthy).map Prod.fst)
  | .array items => some ((items.filter Value.isTruthy).map Value.display)
  | _ => none

def classList : Handler := fun call => do
  match ← call.required 0 with
  | .error error => return .error error
  | .ok value =>
    match classNames? value with
    | some names => return .ok (Html.escape (String.intercalate " " names))
    | none => return .error (.invalidArgument call.name ("expected an object, got " ++ value.display))

def defaultDatePattern : String := "%Y-%m-%d"

/-- Null is the present moment, a number counts seconds, and text is read as a date. -/
def momentOf? (now : Moment) : Value → Option Moment
  | .null => some now
  | .number seconds => Moment.ofTimestamp? (Decimal.toWord seconds) 0
  | .string text | .safe text => moment? text
  | _ => none

def date (now : Moment) : Handler := fun call => do
  let value := (← call.value? 0).getD .null
  let pattern := (← call.string? 1).getD defaultDatePattern
  match momentOf? now value with
  | none => return .error (.invalidArgument call.name ("not a date: " ++ value.display))
  | some moment =>
    match moment.format? pattern with
    | some text => return .ok (Html.escape text)
    | none => return .error (.invalidArgument call.name ("invalid date format: " ++ pattern))

def builtins (now : Moment) : Fields Handler :=
  [("class", classList), ("date", date now), ("json", json)]

end Stencil.Directive
