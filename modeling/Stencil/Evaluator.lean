import Stencil.Argument.Basic
import Stencil.Expr.Eval
import Stencil.Expr.Parse
import Stencil.Text.Blank

/-! Evaluating expression text. Each text is read once: what came of it, a failure
included, is kept under the text without the blanks around it. -/

namespace Stencil

/-- Texts that were read before, each with its expression if it is one. Nothing else can be
on record for a text, so looking it up is as good as reading it again. -/
structure Evaluator where
  compiled : List (String × Option Expr) := []
  /-- Every text that was to be read, the latest first. It only tells what went on: no
  evaluation looks at it. -/
  asked : List String := []
  faithful : ∀ entry ∈ compiled, entry.2 = (Expr.parse entry.1).toOption := by exact List.forall_mem_nil _

namespace Evaluator

/-- Nothing has been read yet. -/
def empty : Evaluator := {}

instance : Inhabited Evaluator := ⟨empty⟩

/-- The expressions of the texts, remembered under the text as it was read. -/
def compile (text : String) : StateM Evaluator (Option Expr) := fun evaluator =>
  let key := Text.trimmed text
  match evaluator.compiled.lookup key with
  | some known => (known, { evaluator with asked := text :: evaluator.asked })
  | none =>
    let read := (Expr.parse key).toOption
    (read, ⟨(key, read) :: evaluator.compiled, text :: evaluator.asked, by
      intro entry inside
      rcases List.mem_cons.1 inside with rfl | inside
      · rfl
      · exact evaluator.faithful entry inside⟩)

/-- Text that is no expression has the value null. -/
def valueOf (read : Option Expr) (scope : Scope) : Value := (read.map (Expr.eval scope)).getD .null

def evaluate (scope : Scope) (text : String) : StateM Evaluator Value := do
  return valueOf (← compile text) scope

def condition (scope : Scope) (text : String) : StateM Evaluator Bool := do
  return (← evaluate scope text).isTruthy

/-- The value of an object literal or expression. -/
def argument (scope : Scope) (text : String) : StateM Evaluator Value :=
  (Argument.read text.toList).evaluate (evaluate scope)

/-- The fields of an object literal; any other text has none. -/
def object (scope : Scope) (text : String) : StateM Evaluator (Fields Value) := do
  return Fields.ofEntries (← Argument.evaluateMembers (evaluate scope) (Argument.readMembers text.toList))

/-- How many different texts were read. -/
def cached (evaluator : Evaluator) : Nat := evaluator.compiled.length

theorem eq_of_lookup {entries : List (String × Option Expr)} {key : String} {known : Option Expr}
    (found : entries.lookup key = some known) : (key, known) ∈ entries := by
  induction entries with
  | nil => simp at found
  | cons entry entries ih =>
    obtain ⟨other, kept⟩ := entry
    rw [List.lookup_cons] at found
    split at found
    next same => simp_all
    next => exact List.mem_cons_of_mem _ (ih found)

@[simp] theorem compile_fst (text : String) (evaluator : Evaluator) :
    (compile text evaluator).1 = (Expr.parse (Text.trimmed text)).toOption := by
  unfold compile
  dsimp only
  split
  next known found => exact evaluator.faithful _ (eq_of_lookup found)
  next => rfl

end Evaluator
end Stencil
