import Mathlib.Data.List.Dedup
import Stencil.Dependencies
import Stencil.Proofs.RenderEnding

/-! An engine that has been asked before answers as a new one does. What it keeps are the
expressions it has read, under their texts, and during one rendering the templates it has
fetched. Which texts a call has to read is the same whatever was read before, so the record
after some calls can be told from each of the calls alone. -/

namespace Stencil

namespace Evaluator

theorem compile_asked (text : String) (evaluator : Evaluator) :
    (compile text evaluator).2.asked = text :: evaluator.asked := by
  unfold compile
  dsimp only
  split <;> rfl

theorem reading_asked (texts : List String) (evaluator : Evaluator) :
    (evaluator.reading texts).asked = texts.reverse ++ evaluator.asked := by
  induction texts generalizing evaluator with
  | nil => rfl
  | cons text texts ih =>
    change ((compile text evaluator).2.reading texts).asked = _
    rw [ih, compile_asked, List.reverse_cons, List.append_assoc, List.singleton_append]

/-- On record are the texts that were to be read, without the blanks around them and each once. -/
structure Recorded (evaluator : Evaluator) : Prop where
  distinct : (evaluator.compiled.map Prod.fst).Nodup
  known : ∀ key, key ∈ evaluator.compiled.map Prod.fst ↔ key ∈ evaluator.asked.map Text.trimmed

namespace Recorded

theorem empty : Recorded .empty := ⟨List.nodup_nil, fun _ => Iff.rfl⟩

variable {evaluator : Evaluator}

theorem compile (recorded : Recorded evaluator) (text : String) : Recorded (Evaluator.compile text evaluator).2 := by
  unfold Evaluator.compile
  dsimp only
  split
  next known found =>
    refine ⟨recorded.distinct, fun key => ?_⟩
    have there : Text.trimmed text ∈ evaluator.compiled.map Prod.fst :=
      List.mem_map_of_mem (eq_of_lookup found)
    rw [List.map_cons, List.mem_cons, ← recorded.known]
    constructor
    · exact .inr
    · rintro (rfl | inside)
      · exact there
      · exact inside
  next missing =>
    have absent : Text.trimmed text ∉ evaluator.compiled.map Prod.fst := by
      intro inside
      obtain ⟨entry, inside, same⟩ := List.mem_map.1 inside
      have := List.lookup_eq_none_iff.1 missing entry inside
      simp [same] at this
    refine ⟨List.nodup_cons.2 ⟨absent, recorded.distinct⟩, fun key => ?_⟩
    rw [List.map_cons, List.map_cons, List.mem_cons, List.mem_cons, recorded.known]

theorem reading (recorded : Recorded evaluator) (texts : List String) : Recorded (evaluator.reading texts) := by
  induction texts generalizing evaluator with
  | nil => exact recorded
  | cons text texts ih => exact ih (recorded.compile text)

theorem cached (recorded : Recorded evaluator) :
    evaluator.cached = (evaluator.asked.map Text.trimmed).dedup.length := by
  have same : (evaluator.compiled.map Prod.fst).Perm (evaluator.asked.map Text.trimmed).dedup :=
    (List.perm_ext_iff_of_nodup recorded.distinct (List.nodup_dedup _)).2 fun key => by
      rw [List.mem_dedup, recorded.known]
  rw [← same.length_eq, List.length_map]
  rfl

theorem lookup (recorded : Recorded evaluator) (key : String) (outcome : Option Expr) :
    evaluator.compiled.lookup key = some outcome ↔
      key ∈ evaluator.asked.map Text.trimmed ∧ outcome = (Expr.parse key).toOption := by
  constructor
  · intro found
    have inside := eq_of_lookup found
    exact ⟨(recorded.known key).1 (List.mem_map_of_mem inside), evaluator.faithful _ inside⟩
  · rintro ⟨asked, rfl⟩
    obtain ⟨entry, inside, rfl⟩ := List.mem_map.1 ((recorded.known key).2 asked)
    cases found : evaluator.compiled.lookup entry.1 with
    | none =>
      have := List.lookup_eq_none_iff.1 found entry inside
      simp at this
    | some known => exact congrArg some (evaluator.faithful _ (eq_of_lookup found))

end Recorded
end Evaluator

namespace Engine

inductive Call where
  | compile (text : String)
  | evaluate (scope : Scope) (text : String)
  | condition (scope : Scope) (text : String)
  | argument (scope : Scope) (text : String)
  | object (scope : Scope) (text : String)
  | request (request : Request)
  | analyze (root : String)

namespace Call

variable {engine : Engine}

/-- Expressions play no part in what depends on what. -/
def leaves (engine : Engine) (call : Call) (evaluator : Evaluator) : Evaluator :=
  match call with
  | .compile text => (Evaluator.compile text evaluator).2
  | .evaluate scope text => (Evaluator.evaluate scope text evaluator).2
  | .condition scope text => (Evaluator.condition scope text evaluator).2
  | .argument scope text => (Evaluator.argument scope text evaluator).2
  | .object scope text => (Evaluator.object scope text evaluator).2
  | .request asked => (asked.answer engine evaluator).2
  | .analyze _ => evaluator

/-- The texts that the call has to read, the first one first. -/
def texts (engine : Engine) (call : Call) : List String := (call.leaves engine .empty).asked.reverse

theorem reads (call : Call) (evaluator : Evaluator) :
    ∃ texts, call.leaves engine .empty = Evaluator.empty.reading texts ∧
      call.leaves engine evaluator = evaluator.reading texts := by
  have settled {α : Type} {action : StateM Evaluator α} (settled : Settled action) :
      ∃ texts, (action .empty).2 = Evaluator.empty.reading texts ∧
        (action evaluator).2 = evaluator.reading texts := by
    obtain ⟨value, texts, given⟩ := settled
    exact ⟨texts, by rw [given], by rw [given]⟩
  cases call with
  | compile text => exact settled (.compile text)
  | evaluate scope text => exact settled (.evaluate scope text)
  | condition scope text => exact settled (.condition scope text)
  | argument scope text => exact settled (.argument scope text)
  | object scope text => exact settled (.object scope text)
  | request asked =>
    simp only [leaves, asked.answer_eq_run]
    exact ((asked.action_steady engine.config.maxDepth).2 {} { evaluator } rfl (Nat.zero_add _)).2.1.read
  | analyze root => exact ⟨[], rfl, rfl⟩

theorem leaves_eq (call : Call) (evaluator : Evaluator) :
    call.leaves engine evaluator = evaluator.reading (call.texts engine) := by
  obtain ⟨texts, alone, read⟩ := call.reads evaluator
  have same : call.texts engine = texts := by
    unfold Call.texts
    rw [alone, Evaluator.reading_asked]
    simp [Evaluator.empty]
  rw [read, same]

end Call

/-- What is on record when a new engine has been asked for all this. -/
def after (engine : Engine) (calls : List Call) : Evaluator :=
  calls.foldl (fun evaluator call => call.leaves engine evaluator) .empty

theorem after_eq (engine : Engine) (calls : List Call) :
    engine.after calls = Evaluator.empty.reading (calls.flatMap (Call.texts engine)) := by
  unfold after
  generalize Evaluator.empty = evaluator
  induction calls generalizing evaluator with
  | nil => rfl
  | cons call calls ih => rw [List.foldl_cons, ih, call.leaves_eq, List.flatMap_cons, Evaluator.reading_append]

theorem after_asked (engine : Engine) (calls : List Call) :
    (engine.after calls).asked = (calls.flatMap (Call.texts engine)).reverse := by
  rw [after_eq, Evaluator.reading_asked]
  exact List.append_nil _

/-- How an engine goes on after some calls: as a new one, but for the texts it need not read again. -/
structure Unaffected (engine : Engine) (calls : List Call) : Prop where
  evaluate : ∀ scope text,
    (Evaluator.evaluate scope text (engine.after calls)).1 = (Evaluator.evaluate scope text .empty).1
  condition : ∀ scope text,
    (Evaluator.condition scope text (engine.after calls)).1 = (Evaluator.condition scope text .empty).1
  argument : ∀ scope text,
    (Evaluator.argument scope text (engine.after calls)).1 = (Evaluator.argument scope text .empty).1
  object : ∀ scope text,
    (Evaluator.object scope text (engine.after calls)).1 = (Evaluator.object scope text .empty).1
  answer : ∀ request : Request, (request.answer engine (engine.after calls)).1 = (request.answer engine .empty).1
  compile : ∀ text,
    (Evaluator.compile text (engine.after calls)).1 = (Expr.parse (Text.trimmed text)).toOption
  /-- The texts that had to be read are those that each call has to read on its own. -/
  asked : (engine.after calls).asked = (calls.flatMap (Call.texts engine)).reverse
  record : ∀ key outcome, (engine.after calls).compiled.lookup key = some outcome ↔
    key ∈ (calls.flatMap (Call.texts engine)).map Text.trimmed ∧ outcome = (Expr.parse key).toOption
  cached : (engine.after calls).cached = ((calls.flatMap (Call.texts engine)).map Text.trimmed).dedup.length
  template : ∀ name (session : Session engine), (Render.template? name session).1 = .ok (engine.template? name)

/-- Whatever an engine was asked before, and whatever came of it, changes no result. -/
theorem earlier_calls_are_invisible (engine : Engine) (calls : List Call) : Unaffected engine calls := by
  have recorded : (engine.after calls).Recorded := by
    rw [after_eq]
    exact Evaluator.Recorded.empty.reading _
  exact {
    evaluate := fun scope text => (Settled.evaluate scope text).same _ _
    condition := fun scope text => (Settled.condition scope text).same _ _
    argument := fun scope text => (Settled.argument scope text).same _ _
    object := fun scope text => (Settled.object scope text).same _ _
    answer := fun request => by
      rw [request.answer_eq_run]
      exact ((request.action_steady engine.config.maxDepth).2 {} { evaluator := engine.after calls } rfl
        (Nat.zero_add _)).1
    compile := fun text => Evaluator.compile_fst text _
    asked := after_asked engine calls
    record := fun key outcome => by
      rw [recorded.lookup, after_asked, List.map_reverse, List.mem_reverse]
    cached := by
      rw [recorded.cached, after_asked, List.map_reverse]
      exact (List.reverse_perm _).dedup.length_eq
    template := Render.template?_fst }

end Engine
end Stencil
