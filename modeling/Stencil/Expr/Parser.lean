import Stencil.Expr.Basic
import Stencil.Expr.Lexer

/-! Building an expression from tokens. The state holds what is open: prefix operators and
left operands that wait for the rest, and brackets that wait to be closed. Every token
either moves the state on or cannot stand at its place, so the tokens that could have
stood there are found by trying them. -/

namespace Stencil.Expr
open Text

inductive Frame where
  | applied (op : PrefixOp)
  | left (op : BinaryOp) (operand : Expr)
  | group
  | items (before : List Expr)
  | key (object : Expr)

/-- What the tokens so far ask for next. -/
inductive Focus where
  | operand
  | complete (operand : Expr)
  | afterDot (object : Expr)

structure State where
  frames : List Frame := []
  focus : Focus := .operand

namespace State

/-- Closes the operators that bind at least as tightly as `least`. Prefix operators bind
more tightly than every binary one. -/
def reduce (least : Nat) : List Frame → Expr → List Frame × Expr
  | .applied op :: frames, operand => reduce least frames (.applied op operand)
  | .left op left :: frames, right =>
    if least ≤ op.precedence then reduce least frames (.binary op left right)
    else (.left op left :: frames, right)
  | frames, operand => (frames, operand)

def binaryOp? : Mark → Option BinaryOp
  | .plus => some .add
  | .minus => some .sub
  | .star => some .mul
  | .slash => some .div
  | .percent => some .rem
  | .strictEq | .eq => some .eq
  | .strictNotEq | .notEq => some .notEq
  | .less => some .less
  | .lessOrEqual => some .lessOrEqual
  | .greater => some .greater
  | .greaterOrEqual => some .greaterOrEqual
  | .and => some .and
  | .or => some .or
  | _ => none

/-- Where an operand must start. The items of an array may end after a comma. -/
def startOperand? (frames : List Frame) : Token → Option State
  | .bool truth => some ⟨frames, .complete (.literal (.bool truth))⟩
  | .null => some ⟨frames, .complete (.literal .null)⟩
  | .string text => some ⟨frames, .complete (.literal (.string text))⟩
  | .number value => some ⟨frames, .complete (.literal (.number value))⟩
  | .ident name => some ⟨frames, .complete (.variable name)⟩
  | .mark .bang => some ⟨.applied .not :: frames, .operand⟩
  | .mark .minus => some ⟨.applied .negate :: frames, .operand⟩
  | .mark .parenOpen => some ⟨.group :: frames, .operand⟩
  | .mark .bracketOpen => some ⟨.items [] :: frames, .operand⟩
  | .mark .bracketClose =>
    match frames with
    | .items before :: frames => some ⟨frames, .complete (.array before)⟩
    | _ => none
  | .mark _ => none

/-- Behind a complete operand. -/
def extend? (frames : List Frame) (operand : Expr) : Token → Option State
  | .mark .dot => some ⟨frames, .afterDot operand⟩
  | .mark .bracketOpen => some ⟨.key operand :: frames, .operand⟩
  | .mark .parenClose =>
    match reduce 0 frames operand with
    | (.group :: frames, inner) => some ⟨frames, .complete inner⟩
    | _ => none
  | .mark .bracketClose =>
    match reduce 0 frames operand with
    | (.items before :: frames, last) => some ⟨frames, .complete (.array (before ++ [last]))⟩
    | (.key object :: frames, key) => some ⟨frames, .complete (.index object key)⟩
    | _ => none
  | .mark .comma =>
    match reduce 0 frames operand with
    | (.items before :: frames, item) => some ⟨.items (before ++ [item]) :: frames, .operand⟩
    | _ => none
  | .mark sign =>
    (binaryOp? sign).map fun op =>
      let (frames, left) := reduce op.precedence frames operand
      ⟨.left op left :: frames, .operand⟩
  | _ => none

/-- A number behind a dot is an index, a name is a key. -/
def access? (frames : List Frame) (object : Expr) : Token → Option State
  | .ident name => some ⟨frames, .complete (.member object name)⟩
  | .number value => some ⟨frames, .complete (.index object (.literal (.number value)))⟩
  | _ => none

def step? (state : State) (token : Token) : Option State :=
  match state.focus with
  | .operand => startOperand? state.frames token
  | .complete operand => extend? state.frames operand token
  | .afterDot object => access? state.frames object token

/-- The whole expression, when nothing is left open. -/
def finish? (state : State) : Option Expr :=
  match state.focus with
  | .complete operand =>
    match reduce 0 state.frames operand with
    | ([], whole) => some whole
    | _ => none
  | _ => none

/-- The marks that could come next. -/
def expected (state : State) : List Mark := Mark.all.filter fun sign => (state.step? (.mark sign)).isSome

/-- Runs through the tokens and stops in front of the first that cannot follow. -/
def run (state : State) : List (Located Token) → State × Option (Located Token)
  | [] => (state, none)
  | token :: tokens =>
    match state.step? token.value with
    | some next => run next tokens
    | none => (state, some token)

end State
end Stencil.Expr
