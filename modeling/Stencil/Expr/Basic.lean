import Stencil.Value

/-! Expressions: queries on data with no calls, assignments or loops. -/

namespace Stencil

inductive PrefixOp where
  | not
  | negate
deriving DecidableEq, Repr

inductive BinaryOp where
  | add | sub | mul | div | rem
  | eq | notEq | less | lessOrEqual | greater | greaterOrEqual
  | and
  /-- Logical or, which also supplies a fallback for what is missing. -/
  | or
deriving DecidableEq, Repr

inductive Expr where
  | literal (value : Value)
  | variable (name : String)
  | member (object : Expr) (key : String)
  | index (object : Expr) (key : Expr)
  | array (items : List Expr)
  | applied (op : PrefixOp) (operand : Expr)
  | binary (op : BinaryOp) (left right : Expr)
deriving Inhabited

/-- How tightly an operator binds; all of them group to the left. -/
def BinaryOp.precedence : BinaryOp → Nat
  | .or => 1
  | .and => 2
  | .eq | .notEq => 3
  | .less | .lessOrEqual | .greater | .greaterOrEqual => 4
  | .add | .sub => 5
  | .mul | .div | .rem => 6

/-- The dotted path of a variable and plain keys. -/
def Expr.path? : Expr → Option String
  | .variable name => some name
  | .member object key => (path? object).map fun path => path ++ "." ++ key
  | _ => none

end Stencil
