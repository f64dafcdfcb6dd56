import Stencil.Engine.Query
import Stencil.Evaluator

/-! What was read before saves work and changes no value. Every way that an expression, an
argument or a directive is evaluated has a value of its own and reads texts of its own,
whatever is on record. -/

namespace Stencil

/-- What is on record when these texts have been read too. -/
def Evaluator.reading (evaluator : Evaluator) (texts : List String) : Evaluator :=
  texts.foldl (fun evaluator text => (compile text evaluator).2) evaluator

theorem Evaluator.reading_append (evaluator : Evaluator) (first second : List String) :
    evaluator.reading (first ++ second) = (evaluator.reading first).reading second :=
  List.foldl_append

/-- The action gives the same and reads the same texts whatever was read before. -/
def Settled {α : Type} (action : StateM Evaluator α) : Prop :=
  ∃ value texts, ∀ evaluator, action evaluator = (value, evaluator.reading texts)

namespace Settled

variable {α β : Type}

theorem same {action : StateM Evaluator α} (settled : Settled action) (first second : Evaluator) :
    (action first).1 = (action second).1 := by
  obtain ⟨value, texts, given⟩ := settled
  rw [given, given]

theorem pure (value : α) : Settled (Pure.pure value) := ⟨value, [], fun _ => rfl⟩

theorem bind {action : StateM Evaluator α} {next : α → StateM Evaluator β} (settled : Settled action)
    (rest : ∀ value, Settled (next value)) : Settled (action >>= next) := by
  obtain ⟨value, texts, given⟩ := settled
  obtain ⟨result, later, followed⟩ := rest value
  refine ⟨result, texts ++ later, fun evaluator => ?_⟩
  change next (action evaluator).1 (action evaluator).2 = _
  rw [given, followed, Evaluator.reading_append]

theorem compile (text : String) : Settled (Evaluator.compile text) := by
  refine ⟨(Expr.parse (Text.trimmed text)).toOption, [text], fun evaluator => ?_⟩
  rw [← Evaluator.compile_fst text evaluator]
  rfl

theorem evaluate (scope : Scope) (text : String) : Settled (Evaluator.evaluate scope text) :=
  (compile text).bind fun _ => pure _

theorem condition (scope : Scope) (text : String) : Settled (Evaluator.condition scope text) :=
  (evaluate scope text).bind fun _ => pure _

mutual
theorem argument_evaluate {expression : String → StateM Evaluator Value}
    (settled : ∀ text, Settled (expression text)) (argument : Argument) :
    Settled (argument.evaluate expression) := by
  cases argument with
  | expression text => exact settled text
  | object members =>
    rw [Argument.evaluate]
    exact (members_evaluate settled members).bind fun _ => pure _

theorem members_evaluate {expression : String → StateM Evaluator Value}
    (settled : ∀ text, Settled (expression text)) (members : List (String × Argument)) :
    Settled (Argument.evaluateMembers expression members) := by
  match members with
  | [] => exact pure _
  | (key, argument) :: members =>
    rw [Argument.evaluateMembers]
    exact (argument_evaluate settled argument).bind fun _ =>
      (members_evaluate settled members).bind fun _ => pure _
end

theorem argument (scope : Scope) (text : String) : Settled (Evaluator.argument scope text) :=
  argument_evaluate (evaluate scope) _

theorem object (scope : Scope) (text : String) : Settled (Evaluator.object scope text) :=
  (members_evaluate (evaluate scope) _).bind fun _ => pure _

theorem query (scope : Scope) (query : Query α) : Settled (query.run (Evaluator.evaluate scope)) := by
  induction query with
  | done result => exact pure result
  | evaluate text next ih => exact (evaluate scope text).bind ih

end Settled
end Stencil
