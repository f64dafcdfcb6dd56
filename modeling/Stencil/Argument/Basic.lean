import Stencil.Argument.Literal
import Stencil.Value

/-! An argument is an expression, or an object literal whose members are arguments again.
Reading one never fails: text that starts like an object and is none has no members. -/

namespace Stencil

inductive Argument where
  | expression (text : String)
  | object (members : List (String × Argument))
deriving Inhabited

namespace Argument
open Text

mutual
def read (text : List Char) : Argument :=
  if isObject text then .object (readMembers text) else .expression (String.ofList text)
termination_by (text.length, 1)

/-- The members of an object literal; text that is no object literal has none. -/
def readMembers (text : List Char) : List (String × Argument) :=
  match shape : objectMembers? text with
  | none => []
  | some members => members.attach.map fun ⟨(key, value), inside⟩ =>
    have : value.length < text.length := length_lt_of_mem_objectMembers? shape inside
    (String.ofList key, read value)
termination_by (text.length, 0)
end

mutual
/-- The value of an argument, given how expressions are evaluated. -/
def evaluate {m : Type → Type} [Monad m] (expression : String → m Value) : Argument → m Value
  | .expression text => expression text
  | .object members => do return .object (Fields.ofEntries (← evaluateMembers expression members))

def evaluateMembers {m : Type → Type} [Monad m] (expression : String → m Value) :
    List (String × Argument) → m (List (String × Value))
  | [] => pure []
  | (key, argument) :: members => do
    let value ← evaluate expression argument
    let rest ← evaluateMembers expression members
    return (key, value) :: rest
end

end Argument
end Stencil
