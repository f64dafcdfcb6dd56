import Stencil.Argument.Split
import Stencil.Expr.Lexer
import Stencil.Value

/-! The headers of loops. A loop over a collection names it and its variable; a counting
loop has a start, a condition with a limit, and an increment. -/

namespace Stencil.Loop
open Text

/-- The collection and the variable around the last ` as `. -/
def foreachHeader? (args : String) : Option (String × String) := do
  let (collection, name) ← cutLast? " as ".toList args.toList
  let name := trim name
  if Expr.isIdentifier name then some (String.ofList collection, String.ofList name) else none

structure Counter where
  name : String
  start : Int
  /-- The expression whose value bounds the loop. -/
  limit : String
  /-- Whether the limit itself still counts. -/
  inclusive : Bool
  step : Int
deriving DecidableEq, Repr

/-- An integer of 64 bits. -/
def word? (text : List Char) : Option Int :=
  (Decimal.integer? text).filter Decimal.isWord

def declarations : List (List Char) := ["let ".toList, "var ".toList, "const ".toList]

def withoutDeclaration (text : List Char) : List Char :=
  (declarations.findSome? fun word => stripPrefix? word text).getD text

/-- The sides of the condition and whether equality is allowed. -/
def condition? (text : List Char) : Option (Bool × List Char × List Char) :=
  match cutFirst? ['<', '='] text with
  | some (left, limit) => some (true, left, limit)
  | none => (cutFirst? ['<'] text).map fun (left, limit) => (false, left, limit)

/-- `v++`, `++v`, `v += n` or `v = v + n`, with any blanks. -/
def increment? (name text : List Char) : Option Int :=
  let text := text.filter fun c => !isBlank c
  if text = name ++ ['+', '+'] || text = ['+', '+'] ++ name then some 1
  else match stripPrefix? (name ++ ['+', '=']) text with
    | some step => word? step
    | none => (stripPrefix? (name ++ ['='] ++ name ++ ['+']) text).bind word?

def Counter.ofArgs? (args : String) : Option Counter :=
  match Argument.split ';' args.toList with
  | [init, condition, increment] => do
    let (name, start) ← cutFirst? ['='] (withoutDeclaration init)
    let name := trim name
    let start ← word? (trim start)
    let (inclusive, left, limit) ← condition? condition
    let limit := trim limit
    if Expr.isIdentifier name && trim left = name && !limit.isEmpty then
      let step ← increment? name increment
      some ⟨String.ofList name, start, String.ofList limit, inclusive, step⟩
    else none
  | _ => none

/-- Whether the loop goes on at a count. -/
def Counter.holds (counter : Counter) (limit : Float) (count : Int) : Bool :=
  if counter.inclusive then Float.ofInt count ≤ limit else Float.ofInt count < limit

/-- What a body knows of its loop. -/
def info (index count : Nat) : Value :=
  .object (Fields.ofEntries [
    ("index", .ofNat index), ("iteration", .ofNat (index + 1)), ("first", .bool (index = 0)),
    ("last", .bool (index + 1 = count)), ("count", .ofNat count), ("remaining", .ofNat (count - index - 1))])

end Stencil.Loop
