import Stencil.Scope
import Stencil.Expr.Basic
import Stencil.Decimal.Numeral

/-! Evaluation is total: what is missing, of the wrong kind or not defined gives null. -/

namespace Stencil.Expr

/-- Positions in an object are keys; positions past 64 bits all mean the last one. -/
def elementAt (object : Value) (position : Nat) : Value :=
  match object with
  | .array items => items[position]?.getD .null
  | .string text | .safe text =>
    match text.toList[position]? with
    | some c => .string (String.singleton c)
    | none => .null
  | .object fields => (Fields.find? fields (toString (min position Decimal.greatestUnsigned))).getD .null
  | _ => .null

/-- Only whole numbers from zero on are positions. -/
def element (object : Value) (position : Float) : Value :=
  match Decimal.whole? position with
  | some (.ofNat n) => elementAt object n
  | _ => .null

/-- An array also reads a key that is written as a number. -/
def memberOf (object : Value) (key : String) : Value :=
  match object with
  | .object fields => (Fields.find? fields key).getD .null
  | .array items =>
    if key = "length" then .ofNat items.length
    else match Decimal.float? key.toList with
      | some position => element object position
      | none => .null
  | .string text | .safe text => if key = "length" then .ofNat text.length else .null
  | _ => .null

def indexed (object key : Value) : Value :=
  match object, key with
  | .null, _ => .null
  | object, .number position => element object position
  | object, .string name | object, .safe name => memberOf object name
  | _, _ => .null

def negated : Value → Value
  | .number value => .number (-value)
  | _ => .null

/-- Numbers add up; next to a text everything is joined as text. -/
def sum (left right : Value) : Value :=
  match left, right with
  | .number a, .number b => .number (a + b)
  | left, right =>
    if left.text?.isSome || right.text?.isSome then .string (left.display ++ right.display) else .null

def arithmetic (left right : Value) (f : Float → Float → Option Float) : Value :=
  match left, right with
  | .number a, .number b => ((f a b).map Value.number).getD .null
  | _, _ => .null

/-- Two numbers or two texts have an order; any other pair has none and compares false. -/
def ordered (left right : Value) (numbers : Float → Float → Bool) (texts : String → String → Bool) : Value :=
  match left, right with
  | .number a, .number b => .bool (numbers a b)
  | left, right =>
    match left.text?, right.text? with
    | some a, some b => .bool (texts a b)
    | _, _ => .bool false

/-- Both operands are at hand; the operators that may skip one are not computed here. -/
def applyBinary (op : BinaryOp) (left right : Value) : Value :=
  match op with
  | .add => sum left right
  | .sub => arithmetic left right fun a b => some (a - b)
  | .mul => arithmetic left right fun a b => some (a * b)
  | .div => arithmetic left right fun a b => if b == 0 then none else some (a / b)
  | .rem => arithmetic left right fun a b => if b == 0 then none else some (Decimal.remainder a b)
  | .eq => .bool (left == right)
  | .notEq => .bool (left != right)
  | .less => ordered left right (fun a b => a < b) fun a b => a < b
  | .lessOrEqual => ordered left right (fun a b => a ≤ b) fun a b => a ≤ b
  | .greater => ordered left right (fun a b => b < a) fun a b => b < a
  | .greaterOrEqual => ordered left right (fun a b => b ≤ a) fun a b => b ≤ a
  | .and | .or => .null

mutual
def eval (scope : Scope) : Expr → Value
  | .literal value => value
  | .variable name => (scope.get? name).getD .null
  | .member object key => memberOf (eval scope object) key
  | .index object key => indexed (eval scope object) (eval scope key)
  | .array items => .array (evalItems scope items)
  | .applied .not operand => .bool !(eval scope operand).isTruthy
  | .applied .negate operand => negated (eval scope operand)
  | .binary .and left right =>
    let value := eval scope left
    if value.isTruthy then eval scope right else value
  | .binary .or left right =>
    let value := eval scope left
    if value.isTruthy then value else eval scope right
  | .binary op left right => applyBinary op (eval scope left) (eval scope right)

def evalItems (scope : Scope) : List Expr → List Value
  | [] => []
  | item :: items => eval scope item :: evalItems scope items
end

end Stencil.Expr
