import Stencil.Expr.Parse

/-! Expressions as they are written. A phrase says which numeral, which quotes and which of
two spellings of equality stand in the text, and nothing of brackets: those are put where
the operators around them would otherwise tear the phrase apart. -/

namespace Stencil.Expr
open Decimal

/-- Words that stand for values and so cannot name anything. -/
def literalWords : List String := ["true", "false", "null", "undefined"]

/-- A name that a variable or a member can have. -/
structure Name where
  text : String
  isIdentifier : isIdentifier text.toList = true
  isFree : text ∉ literalWords
deriving DecidableEq

/-- Digits, and further digits behind a point if there are any. -/
structure Numeral where
  whole : List Char
  fraction : List Char := []
  digits : ∀ c ∈ whole ++ fraction, isDigit c = true
  nonempty : whole ≠ []
deriving DecidableEq

def Numeral.value (numeral : Numeral) : Float :=
  nearest (natOfDigits (numeral.whole ++ numeral.fraction)) (-(numeral.fraction.length : Int))

def Numeral.spelling (numeral : Numeral) : List Char :=
  numeral.whole ++ if numeral.fraction.isEmpty then [] else '.' :: numeral.fraction

namespace Quoted

inductive Quote where
  | single
  | double
deriving DecidableEq

def Quote.char : Quote → Char
  | .single => '\''
  | .double => '"'

def encodeChar (quote : Quote) (c : Char) : List Char :=
  if c = '\n' then ['\\', 'n']
  else if c = '\t' then ['\\', 't']
  else if c = '\r' then ['\\', 'r']
  else if c = '\\' ∨ c = quote.char then ['\\', c]
  else [c]

def encode (quote : Quote) (text : List Char) : List Char := text.flatMap (encodeChar quote)

end Quoted

/-- A token together with how it is written. -/
inductive Word where
  | mark (sign : Mark)
  | bool (truth : Bool)
  | null
  | ident (name : Name)
  | string (quote : Quoted.Quote) (text : String)
  | number (numeral : Numeral)

namespace Word

def token : Word → Token
  | .mark sign => .mark sign
  | .bool truth => .bool truth
  | .null => .null
  | .ident name => .ident name.text
  | .string _ text => .string text
  | .number numeral => .number numeral.value

def spelling : Word → List Char
  | .mark sign => sign.spelling
  | .bool true => "true".toList
  | .bool false => "false".toList
  | .null => "null".toList
  | .ident name => name.text.toList
  | .string quote text => quote.char :: Quoted.encode quote text.toList ++ [quote.char]
  | .number numeral => numeral.spelling

def spell : List Word → List Char
  | [] => []
  | [word] => word.spelling
  | word :: words => word.spelling ++ ' ' :: spell words

def enclose (needed : Bool) (words : List Word) : List Word :=
  if needed then .mark .parenOpen :: words ++ [.mark .parenClose] else words

end Word

def Mark.ofPrefix : PrefixOp → Mark
  | .not => .bang
  | .negate => .minus

/-- Equality has a strict and a loose spelling. -/
def Mark.ofBinary (strict : Bool) : BinaryOp → Mark
  | .add => .plus
  | .sub => .minus
  | .mul => .star
  | .div => .slash
  | .rem => .percent
  | .eq => if strict then .strictEq else .eq
  | .notEq => if strict then .strictNotEq else .notEq
  | .less => .less
  | .lessOrEqual => .lessOrEqual
  | .greater => .greater
  | .greaterOrEqual => .greaterOrEqual
  | .and => .and
  | .or => .or

inductive Phrase where
  | null
  | bool (truth : Bool)
  | string (quote : Quoted.Quote) (text : String)
  | number (numeral : Numeral)
  | variable (name : Name)
  | member (object : Phrase) (key : Name)
  | index (object key : Phrase)
  | array (items : List Phrase)
  | applied (op : PrefixOp) (operand : Phrase)
  /-- Operators other than equality have but one spelling. -/
  | binary (strict : Bool) (op : BinaryOp) (left right : Phrase)

namespace Phrase

/-- Prefix operators bind more tightly than binary ones, and access even more so. -/
def prefixLevel : Nat := 7

def accessLevel : Nat := 8

/-- How tightly the outermost construct of the phrase binds. -/
def level : Phrase → Nat
  | .binary _ op .. => op.precedence
  | .applied .. => prefixLevel
  | _ => accessLevel

mutual
/-- The words of the phrase. A left operand has to bind as tightly as its operator, and a
right one more tightly, since operators group to the left. -/
def words : Phrase → List Word
  | .null => [.null]
  | .bool truth => [.bool truth]
  | .string quote text => [.string quote text]
  | .number numeral => [.number numeral]
  | .variable name => [.ident name]
  | .member object key =>
    Word.enclose (object.level < accessLevel) (words object) ++ [.mark .dot, .ident key]
  | .index object key =>
    Word.enclose (object.level < accessLevel) (words object) ++
      .mark .bracketOpen :: words key ++ [.mark .bracketClose]
  | .array items => .mark .bracketOpen :: itemWords items ++ [.mark .bracketClose]
  | .applied op operand => .mark (.ofPrefix op) :: Word.enclose (operand.level < prefixLevel) (words operand)
  | .binary strict op left right =>
    Word.enclose (left.level < op.precedence) (words left) ++
      .mark (.ofBinary strict op) :: Word.enclose (right.level < op.precedence + 1) (words right)

def itemWords : List Phrase → List Word
  | [] => []
  | [item] => words item
  | item :: items => words item ++ .mark .comma :: itemWords items
end

def text (phrase : Phrase) : String := String.ofList (Word.spell phrase.words)

def tokens (phrase : Phrase) : List Token := phrase.words.map Word.token

mutual
def expr : Phrase → Expr
  | .null => .literal .null
  | .bool truth => .literal (.bool truth)
  | .string _ text => .literal (.string text)
  | .number numeral => .literal (.number numeral.value)
  | .variable name => .variable name.text
  | .member object key => .member (expr object) key.text
  | .index object key => .index (expr object) (expr key)
  | .array items => .array (exprs items)
  | .applied op operand => .applied op (expr operand)
  | .binary _ op left right => .binary op (expr left) (expr right)

def exprs : List Phrase → List Expr
  | [] => []
  | item :: items => expr item :: exprs items
end

end Phrase

/-- Whether no token goes past the cap on nesting. -/
def Nesting.fits (nesting : Nesting) : List Token → Bool
  | [] => true
  | token :: tokens => (nesting.step token).depth ≤ nestingCap && fits (nesting.step token) tokens

end Stencil.Expr
