import Stencil.Argument.Basic
import Stencil.Scope

/-! What a directive may do: evaluate expressions in the scope it stands in, and then give
its result. A handler is such a program, so it can neither see nor change anything else. -/

namespace Stencil

inductive Query (α : Type) where
  | done (result : α)
  | evaluate (text : String) (next : Value → Query α)

namespace Query

def bind {α β : Type} : Query α → (α → Query β) → Query β
  | .done result, next => next result
  | .evaluate text rest, next => .evaluate text fun value => bind (rest value) next

instance : Monad Query where
  pure := .done
  bind := bind

/-- Asks for one expression. -/
def ask (text : String) : Query Value := .evaluate text .done

/-- Runs the query with a way to evaluate expressions. -/
def run {m : Type → Type} [Monad m] {α : Type} (expression : String → m Value) : Query α → m α
  | .done result => pure result
  | .evaluate text next => do run expression (next (← expression text))

end Query

inductive DirectiveError where
  | missingArgument (directive : String) (index : Nat)
  | invalidArgument (directive : String) (message : String)
  | failed (message : String)
deriving DecidableEq, Repr

/-- A directive as it stands in a template. -/
structure Call where
  /-- The name without the at sign. -/
  name : String
  /-- The text between the parentheses. -/
  raw : String
  scope : Scope

namespace Call

def parts (call : Call) : List String := Argument.list call.raw

def valueOf (part : String) : Query Value := (Argument.read part.toList).evaluate Query.ask

/-- The value of an argument; an object literal becomes an object. -/
def value? (call : Call) (index : Nat) : Query (Option Value) :=
  match call.parts[index]? with
  | some part => do return some (← valueOf part)
  | none => return none

def values (call : Call) : Query (List Value) := call.parts.mapM valueOf

def required (call : Call) (index : Nat) : Query (Except DirectiveError Value) := do
  match ← call.value? index with
  | some value => return .ok value
  | none => return .error (.missingArgument call.name index)

/-- The text of an argument: a quoted literal as written, else its value as displayed. -/
def string? (call : Call) (index : Nat) : Query (Option String) :=
  match call.parts[index]? with
  | none => return none
  | some part =>
    match Argument.stringLiteral? part.toList with
    | some text => return some (String.ofList text)
    | none => do return some (← Query.ask part).display

end Call

abbrev Handler := Call → Query (Except DirectiveError String)

end Stencil
