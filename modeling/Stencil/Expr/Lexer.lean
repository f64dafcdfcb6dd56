import Stencil.Text.Span
import Stencil.Text.Search
import Stencil.Decimal.Numeral
import Stencil.Expr.Token
import Stencil.Expr.Quoted

/-! Cutting an expression into tokens. At each place that is not blank the longest token
is taken; a place where no token starts ends the reading and is reported. -/

namespace Stencil.Expr
open Text Decimal

/-- Only these four characters separate tokens. -/
def isSpace (c : Char) : Bool := c = ' ' || c = '\t' || c = '\r' || c = '\n'

def isAsciiLetter (c : Char) : Bool := ('a' ≤ c && c ≤ 'z') || ('A' ≤ c && c ≤ 'Z')

def isNameStart (c : Char) : Bool := isAsciiLetter c || c = '_' || c = '$'

def isNameChar (c : Char) : Bool := isNameStart c || isDigit c

/-- A letter, underscore or dollar sign, then these and digits. -/
def isIdentifier (text : List Char) : Bool :=
  match text with
  | [] => false
  | c :: rest => isNameStart c && rest.all isNameChar

def wordToken (word : List Char) : Token :=
  if word = "true".toList then .bool true
  else if word = "false".toList then .bool false
  else if word = "null".toList || word = "undefined".toList then .null
  else .ident (String.ofList word)

/-- The digits behind a point, when there are some. -/
def fractionDigits : List Char → List Char
  | '.' :: rest => rest.takeWhile isDigit
  | _ => []

/-- The number whose first digit is `c`, and how many further characters it takes. -/
def numberToken (c : Char) (tail : List Char) : Token × Nat :=
  let whole := tail.takeWhile isDigit
  let fraction := fractionDigits (tail.dropWhile isDigit)
  let value := nearest (natOfDigits (c :: whole ++ fraction)) (-(fraction.length : Int))
  (.number value, whole.length + if fraction.isEmpty then 0 else fraction.length + 1)

def markAt? (text : List Char) : Option Mark :=
  Mark.all.find? fun mark => (stripPrefix? mark.spelling text).isSome

/-- The token that starts with `c`, or nothing, and how many further characters belong to
the token or to the failure. -/
def tokenAt (c : Char) (tail : List Char) : Option Token × Nat :=
  if c = '"' || c = '\'' then
    match Quoted.scan c tail with
    | (items, some _) => (some (.string (String.ofList (Quoted.decode items))), items.length + 1)
    | (items, none) => (none, items.length)
  else if isDigit c then
    let (token, further) := numberToken c tail
    (some token, further)
  else if isNameStart c then
    let word := tail.takeWhile isNameChar
    (some (wordToken (c :: word)), word.length)
  else
    match markAt? (c :: tail) with
    | some mark => (some (.mark mark), mark.spelling.length - 1)
    | none => (none, 0)

/-- The tokens from a byte offset on, or the span of the first stray characters. -/
def lexFrom (start : Nat) (text : List Char) : Except Span (List (Located Token)) :=
  match text with
  | [] => .ok []
  | c :: tail =>
    if isSpace c then lexFrom (start + c.utf8Size) tail
    else
      let (token?, further) := tokenAt c tail
      let stop := start + c.utf8Size + byteLength (tail.take further)
      match token? with
      | none => .error ⟨start, stop⟩
      | some token => do
        let tokens ← lexFrom stop (tail.drop further)
        .ok (⟨token, ⟨start, stop⟩⟩ :: tokens)
termination_by text.length
decreasing_by
  · exact Nat.lt_succ_self _
  · exact length_drop_lt _ _ _

theorem lexFrom_nil (start : Nat) : lexFrom start [] = .ok [] := by rw [lexFrom]

def lex (text : String) : Except Span (List (Located Token)) := lexFrom 0 text.toList

end Stencil.Expr
