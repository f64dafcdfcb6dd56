import Stencil.Expr.Token
import Stencil.Text.Span

/-! What can be wrong with the text of an expression or a template, where, and in which
words it is reported. -/

namespace Stencil
open Text

/-- Something that could have stood where an expression went wrong. -/
inductive Expected where
  | mark (sign : Expr.Mark)
  | finish
deriving DecidableEq, Repr

inductive Problem where
  | unrecognised
  | tooDeep
  /-- Nothing is found at the end of the text. -/
  | unexpected (found : Option Expr.Token) (expected : List Expected)
  | unclosed (opener : String)
  | unopened (closer : String)
deriving Repr

structure Diagnostic where
  span : Span
  problem : Problem
deriving Repr

def endName : String := "end of expression"

def Expected.describe : Expected → String
  | .mark sign => sign.describe
  | .finish => endName

def Problem.message : Problem → String
  | .unrecognised => "unrecognised character in expression"
  | .tooDeep => "expression nested too deeply"
  | .unexpected (some token) _ => "Unexpected " ++ token.describe
  | .unexpected none _ => "Unexpected " ++ endName
  | .unclosed opener => "unclosed @" ++ opener
  | .unopened closer => "unexpected @" ++ closer ++ " without a matching opener"

namespace Diagnostic

def message (diagnostic : Diagnostic) : String := diagnostic.problem.message

/-- Descriptions of what was expected, in alphabetical order. -/
def expected (diagnostic : Diagnostic) : List String :=
  match diagnostic.problem with
  | .unexpected _ expected => (expected.map Expected.describe).mergeSort fun a b => decide (a ≤ b)
  | _ => []

def display (diagnostic : Diagnostic) : String :=
  "Parse error at " ++ toString diagnostic.span.start ++ ".." ++ toString diagnostic.span.stop
    ++ ": " ++ diagnostic.message

end Diagnostic
end Stencil
