import Stencil.Fields
import Stencil.Json.Basic

/-! The data that templates read and print. Text marked as safe has been rendered already
and is never escaped again; in every other respect it is text. -/

namespace Stencil

inductive Value where
  | null
  | bool (value : Bool)
  | number (value : Float)
  | string (text : String)
  | safe (text : String)
  | array (items : List Value)
  | object (fields : List (String × Value))
deriving Inhabited

namespace Value

/-- Everything but null, false, zero, NaN and what is empty; objects always count. -/
def isTruthy : Value → Bool
  | .null => false
  | .bool value => value
  | .number value => value != 0 && !value.isNaN
  | .string text | .safe text => !text.isEmpty
  | .array items => !items.isEmpty
  | .object _ => true

def isNull : Value → Bool
  | .null => true
  | _ => false

def isSafe : Value → Bool
  | .safe _ => true
  | _ => false

def text? : Value → Option String
  | .string text | .safe text => some text
  | _ => none

def number? : Value → Option Float
  | .number value => some value
  | _ => none

def array? : Value → Option (List Value)
  | .array items => some items
  | _ => none

def object? : Value → Option (Fields Value)
  | .object fields => some fields
  | _ => none

/-- The fields of an object; any other value has none. -/
def fields (value : Value) : Fields Value := value.object?.getD []

def field? (value : Value) (name : String) : Option Value := value.fields.find? name

/-- Elements of an array, characters of a text, fields of an object. -/
def length? : Value → Option Nat
  | .array items => some items.length
  | .string text | .safe text => some text.length
  | .object fields => some fields.length
  | _ => none

/-- The text when there is some that is not empty. -/
def nonemptyText? (value : Value) : Option String := value.text?.filter fun text => !text.isEmpty

def ofNat (n : Nat) : Value := .number (Float.ofNat n)

/-- Whole numbers of fewer than sixteen digits are written as integers. -/
def integer? (value : Float) : Option Int := (Decimal.whole? value).filter fun n => n.natAbs < 1000000000000000

mutual
/-- Equality without coercion; safe text equals plain text. -/
def same : Value → Value → Bool
  | .null, .null => true
  | .bool a, .bool b => a == b
  | .number a, .number b => a == b
  | .string a, .string b | .string a, .safe b | .safe a, .string b | .safe a, .safe b => a == b
  | .array a, .array b => sameItems a b
  | .object a, .object b => sameFields a b
  | _, _ => false

def sameItems : List Value → List Value → Bool
  | [], [] => true
  | a :: as, b :: bs => same a b && sameItems as bs
  | _, _ => false

def sameFields : List (String × Value) → List (String × Value) → Bool
  | [], [] => true
  | (name, a) :: as, (other, b) :: bs => name == other && same a b && sameFields as bs
  | _, _ => false
end

instance : BEq Value := ⟨same⟩

mutual
def toJson : Value → Json
  | .null => .null
  | .bool value => .bool value
  | .number value =>
    match integer? value, Decimal.Binary.ofFloat? value with
    | some n, _ => .integer n
    | none, some _ => .decimal value
    | none, none => .null
  | .string text | .safe text => .string text
  | .array items => .array (itemsToJson items)
  | .object fields => .object (fieldsToJson fields)

def itemsToJson : List Value → List Json
  | [] => []
  | item :: items => toJson item :: itemsToJson items

def fieldsToJson : List (String × Value) → List (String × Json)
  | [] => []
  | (name, value) :: fields => (name, toJson value) :: fieldsToJson fields
end

mutual
def ofJson : Json → Value
  | .null => .null
  | .bool value => .bool value
  | .integer value => .number (Float.ofInt value)
  | .decimal value => .number value
  | .string value => .string value
  | .array items => .array (itemsOfJson items)
  | .object members => .object (Fields.ofEntries (fieldsOfJson members))

def itemsOfJson : List Json → List Value
  | [] => []
  | item :: items => ofJson item :: itemsOfJson items

def fieldsOfJson : List (String × Json) → List (String × Value)
  | [] => []
  | (name, value) :: members => (name, ofJson value) :: fieldsOfJson members
end

def layout : Decimal.Layout where
  tie := .up
  positional := none
  wholeEnd := ""

/-- All digits that identify the number, never with a power of ten. -/
def numberText (value : Float) : String :=
  match Decimal.Binary.ofFloat? value with
  | some binary => layout.write binary
  | none => if value.isNaN then "NaN" else if value < 0 then "-inf" else "inf"

mutual
/-- What an interpolation prints, before escaping. -/
def display : Value → String
  | .null => ""
  | .bool value => if value then "true" else "false"
  | .number value =>
    match integer? value with
    | some n => toString n
    | none => numberText value
  | .string text | .safe text => text
  | .array items => String.intercalate "," (displayItems items)
  | .object fields => (Json.object (fieldsToJson fields)).compact

def displayItems : List Value → List String
  | [] => []
  | item :: items => display item :: displayItems items
end

end Value
end Stencil
