import Stencil.Decimal.Layout

/-! JSON documents and their text. Members keep the order they are given in, whole
numbers are written as integers, and other numbers with the fewest digits that
identify them: positionally from the fifth place after the point up to sixteen digits. -/

namespace Stencil

inductive Json where
  | null
  | bool (value : Bool)
  | integer (value : Int)
  | decimal (value : Float)
  | string (value : String)
  | array (items : List Json)
  | object (members : List (String × Json))
deriving Inhabited

namespace Json

def layout : Decimal.Layout where
  tie := .even
  positional := some (-5, 15)
  wholeEnd := ".0"

def hexDigit (n : Nat) : Char := if n < 10 then Char.ofNat (48 + n) else Char.ofNat (87 + n)

/-- Quotes, backslashes and control characters are escaped; all else is literal. -/
def escapeChar (c : Char) : List Char :=
  if c = '"' then ['\\', '"']
  else if c = '\\' then ['\\', '\\']
  else if c = '\n' then ['\\', 'n']
  else if c = '\r' then ['\\', 'r']
  else if c = '\t' then ['\\', 't']
  else if c.toNat = 8 then ['\\', 'b']
  else if c.toNat = 12 then ['\\', 'f']
  else if c.toNat < 32 then ['\\', 'u', '0', '0', hexDigit (c.toNat / 16), hexDigit (c.toNat % 16)]
  else [c]

def quote (text : String) : String :=
  "\"" ++ String.ofList (text.toList.flatMap escapeChar) ++ "\""

/-- Infinities and NaN have no numeral. -/
def decimalText (value : Float) : String :=
  match Decimal.Binary.ofFloat? value with
  | some binary => layout.write binary
  | none => "null"

def openBrace : String := "\x7b"
def closeBrace : String := "\x7d"

mutual
def compact : Json → String
  | .null => "null"
  | .bool value => if value then "true" else "false"
  | .integer value => toString value
  | .decimal value => decimalText value
  | .string value => quote value
  | .array items => "[" ++ String.intercalate "," (compactItems items) ++ "]"
  | .object members => openBrace ++ String.intercalate "," (compactMembers members) ++ closeBrace

def compactItems : List Json → List String
  | [] => []
  | item :: items => compact item :: compactItems items

def compactMembers : List (String × Json) → List String
  | [] => []
  | (name, value) :: members => (quote name ++ ":" ++ compact value) :: compactMembers members
end

def lineBreak (depth : Nat) : String := "\n" ++ String.ofList (List.replicate (2 * depth) ' ')

/-- Entries on lines of their own, indented one step deeper than the brackets around them. -/
def bracketed (opener closer : String) (depth : Nat) (entries : List String) : String :=
  if entries.isEmpty then opener ++ closer
  else
    opener ++ lineBreak (depth + 1) ++ String.intercalate ("," ++ lineBreak (depth + 1)) entries
      ++ lineBreak depth ++ closer

mutual
def prettyAt (depth : Nat) : Json → String
  | .null => "null"
  | .bool value => if value then "true" else "false"
  | .integer value => toString value
  | .decimal value => decimalText value
  | .string value => quote value
  | .array items => bracketed "[" "]" depth (prettyItems (depth + 1) items)
  | .object members => bracketed openBrace closeBrace depth (prettyMembers (depth + 1) members)

def prettyItems (depth : Nat) : List Json → List String
  | [] => []
  | item :: items => prettyAt depth item :: prettyItems depth items

def prettyMembers (depth : Nat) : List (String × Json) → List String
  | [] => []
  | (name, value) :: members =>
    (quote name ++ ": " ++ prettyAt depth value) :: prettyMembers depth members
end

def pretty (document : Json) : String := prettyAt 0 document

end Json
end Stencil
