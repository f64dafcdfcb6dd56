import Stencil.Template.Token
import Stencil.Text.Search
import Stencil.Text.Word
import Stencil.Expr.Lexer

/-! Cutting template source into tokens. What opens without being closed, and an at sign
that starts no directive, is literal text. -/

namespace Stencil.Template
open Text

/-- Where a scan for a closing parenthesis stands. -/
structure Nest where
  depth : Nat := 0
  quote : Option Char := none
  escaped : Bool := false

/-- Inside quotes parentheses do not count. -/
def Nest.step (nest : Nest) (c : Char) : Nest :=
  match nest.quote with
  | some quote =>
    if nest.escaped then { nest with escaped := false }
    else if c = '\\' then { nest with escaped := true }
    else if c = quote then { nest with quote := none }
    else nest
  | none =>
    if c = '\'' || c = '"' then { nest with quote := some c }
    else if c = '(' then { nest with depth := nest.depth + 1 }
    else if c = ')' then { nest with depth := nest.depth - 1 }
    else nest

/-- The text up to the parenthesis that closes the one before it. -/
def insideParens? (nest : Nest) : List Char → Option (List Char)
  | [] => none
  | c :: rest =>
    if c = ')' && nest.depth = 0 && nest.quote.isNone then some []
    else (insideParens? (nest.step c) rest).map (c :: ·)

/-- What starts at a place in the source. -/
inductive Piece where
  | literal (text : List Char)
  | comment
  | token (token : Token)
deriving DecidableEq

/-- The marks around comments, escaped interpolations and raw ones. -/
def commentMarks : List Char × List Char := ("\x7b\x7b--".toList, "--\x7d\x7d".toList)
def echoMarks : List Char × List Char := ("\x7b\x7b".toList, "\x7d\x7d".toList)
def rawMarks : List Char × List Char := ("\x7b!!".toList, "!!\x7d".toList)

def isDirectiveStart (c : Char) : Bool := Expr.isAsciiLetter c || c = '_'

/-- The name after an at sign: letters and underscores, and digits except at the start. -/
def directiveName : List Char → List Char
  | [] => []
  | c :: rest =>
    if isDirectiveStart c then c :: rest.takeWhile fun c => isDirectiveStart c || Decimal.isDigit c else []

def keyword? (name : List Char) : Option String :=
  bareKeywords.find? fun keyword => (stripPrefix? keyword.toList name).isSome

def opensWith (marks : List Char × List Char) (text : List Char) : Bool :=
  (stripPrefix? marks.1 text).isSome

/-- The text between two marks, when the first one stands here and the second follows. -/
def enclosed? (marks : List Char × List Char) (text : List Char) : Option (List Char) :=
  (stripPrefix? marks.1 text).bind fun rest => (cutFirst? marks.2 rest).map Prod.fst

/-- How many characters follow the first one when these marks stand around the text. -/
def enclosedWidth (marks : List Char × List Char) (inside : List Char) : Nat :=
  marks.1.length + inside.length + marks.2.length - 1

/-- Braces that an at sign keeps from being an interpolation, with what they hold. -/
def verbatim? (tail : List Char) : Option (List Char) :=
  [echoMarks, rawMarks].findSome? fun marks =>
    (enclosed? marks tail).map fun inside => marks.1 ++ inside ++ marks.2

/-- A directive with arguments. In the middle of a word only the builtin ones count. -/
def called? (inWord : Bool) (tail : List Char) : Option (Piece × Nat) :=
  let name := directiveName tail
  if name.isEmpty then none
  else match tail.drop name.length with
    | '(' :: rest =>
      if !inWord || String.ofList name ∈ builtinNames then
        (insideParens? {} rest).map fun args =>
          (.token (.directive (String.ofList name) (some (String.ofList args))), name.length + args.length + 2)
      else none
    | _ => none

/-- What an at sign starts, and how many characters after it belong to that. -/
def atSign (inWord : Bool) (tail : List Char) : Piece × Nat :=
  if tail.head? == some '@' then (.literal ['@'], 1)
  else match verbatim? tail with
    | some text => (.literal text, text.length)
    | none =>
      match called? inWord tail with
      | some found => found
      | none =>
        match keyword? (directiveName tail) with
        | some keyword => (.token (.directive keyword none), keyword.length)
        | none => (.literal ['@'], 0)

def echoOf (raw : Bool) (inside : List Char) : Piece :=
  .token (.echo (String.ofList (trim inside)) raw)

/-- A piece between two marks, or the single character when the second mark is missing. -/
def markedPiece (marks : List Char × List Char) (c : Char) (tail : List Char)
    (piece : List Char → Piece) : Piece × Nat :=
  match enclosed? marks (c :: tail) with
  | some inside => (piece inside, enclosedWidth marks inside)
  | none => (.literal [c], 0)

/-- What starts with `c`, and how many characters after it belong to that. The mark of a
comment is never the start of an interpolation. -/
def pieceAt (inWord : Bool) (c : Char) (tail : List Char) : Piece × Nat :=
  if opensWith commentMarks (c :: tail) then markedPiece commentMarks c tail fun _ => .comment
  else if opensWith rawMarks (c :: tail) then markedPiece rawMarks c tail (echoOf true)
  else if opensWith echoMarks (c :: tail) then markedPiece echoMarks c tail (echoOf false)
  else if c = '@' then atSign inWord tail
  else (.literal [c], 0)

/-- Literal text that has not become a token yet, its last character first. -/
structure Pending where
  start : Nat := 0
  reversed : List Char := []

namespace Pending

def inWord (pending : Pending) : Bool := pending.reversed.head?.any isWord

def push (pending : Pending) (position : Nat) (text : List Char) : Pending :=
  { start := if pending.reversed.isEmpty then position else pending.start
    reversed := text.reverse ++ pending.reversed }

def flush (pending : Pending) (stop : Nat) : List Lexeme :=
  if pending.reversed.isEmpty then []
  else [⟨.text (String.ofList pending.reversed.reverse), ⟨pending.start, stop⟩⟩]

end Pending

def tokenizeFrom (position : Nat) (pending : Pending) (text : List Char) : List Lexeme :=
  match text with
  | [] => pending.flush position
  | c :: tail =>
    let (piece, further) := pieceAt pending.inWord c tail
    let stop := position + c.utf8Size + byteLength (tail.take further)
    match piece with
    | .literal text => tokenizeFrom stop (pending.push position text) (tail.drop further)
    | .comment => pending.flush position ++ tokenizeFrom stop {} (tail.drop further)
    | .token token =>
      pending.flush position ++ ⟨token, ⟨position, stop⟩⟩ :: tokenizeFrom stop {} (tail.drop further)
termination_by text.length
decreasing_by all_goals exact length_drop_lt _ _ _

theorem tokenizeFrom_nil (position : Nat) (pending : Pending) :
    tokenizeFrom position pending [] = pending.flush position := by rw [tokenizeFrom]

def tokenize (source : String) : List Lexeme := tokenizeFrom 0 {} source.toList

end Stencil.Template
