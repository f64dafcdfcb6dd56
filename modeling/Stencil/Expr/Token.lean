import Stencil.Value

/-! The tokens of the expression language: fixed operators and punctuation marks, the
literal words, identifiers, texts and numbers. -/

namespace Stencil.Expr

inductive Mark where
  | strictEq | strictNotEq | eq | notEq | lessOrEqual | greaterOrEqual | less | greater
  | and | or | bang | plus | minus | star | slash | percent
  | dot | comma | parenOpen | parenClose | bracketOpen | bracketClose
deriving DecidableEq, Repr

inductive Token where
  | mark (sign : Mark)
  | bool (truth : Bool)
  | null
  | ident (name : String)
  | string (text : String)
  | number (value : Float)
deriving Repr

namespace Mark

def spelling : Mark → List Char
  | strictEq => ['=', '=', '=']
  | strictNotEq => ['!', '=', '=']
  | eq => ['=', '=']
  | notEq => ['!', '=']
  | lessOrEqual => ['<', '=']
  | greaterOrEqual => ['>', '=']
  | less => ['<']
  | greater => ['>']
  | and => ['&', '&']
  | or => ['|', '|']
  | bang => ['!']
  | plus => ['+']
  | minus => ['-']
  | star => ['*']
  | slash => ['/']
  | percent => ['%']
  | dot => ['.']
  | comma => [',']
  | parenOpen => ['(']
  | parenClose => [')']
  | bracketOpen => ['[']
  | bracketClose => [']']

def name : Mark → String
  | strictEq => "StrictEq"
  | strictNotEq => "StrictNotEq"
  | eq => "Eq"
  | notEq => "NotEq"
  | lessOrEqual => "LessOrEqual"
  | greaterOrEqual => "GreaterOrEqual"
  | less => "Less"
  | greater => "Greater"
  | and => "And"
  | or => "Or"
  | bang => "Bang"
  | plus => "Plus"
  | minus => "Minus"
  | star => "Star"
  | slash => "Slash"
  | percent => "Percent"
  | dot => "Dot"
  | comma => "Comma"
  | parenOpen => "ParenOpen"
  | parenClose => "ParenClose"
  | bracketOpen => "BracketOpen"
  | bracketClose => "BracketClose"

/-- Every mark. A mark stands before the marks that its spelling begins with. -/
def all : List Mark :=
  [strictEq, strictNotEq, eq, notEq, lessOrEqual, greaterOrEqual, and, or, less, greater, bang,
   plus, minus, star, slash, percent, dot, comma, parenOpen, parenClose, bracketOpen, bracketClose]

theorem mem_all (mark : Mark) : mark ∈ all := by cases mark <;> decide

/-- Brackets and separators are quoted in messages, operators are named. -/
def describe (mark : Mark) : String :=
  match mark with
  | dot | comma | parenOpen | parenClose | bracketOpen | bracketClose =>
    "'" ++ String.ofList mark.spelling ++ "'"
  | _ => "operator " ++ mark.name

end Mark

def Token.describe : Token → String
  | .mark sign => sign.describe
  | .bool truth => if truth then "'true'" else "'false'"
  | .null => "'null'"
  | .ident word => "identifier '" ++ word ++ "'"
  | .string text => "string \"" ++ text ++ "\""
  | .number value => "number " ++ Value.numberText value

end Stencil.Expr
