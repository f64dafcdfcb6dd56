import Stencil.Proofs.RenderResult

/-! Every call of an engine comes to an end unless adapters go round in a circle. Each other
way from one template or component to the next takes a level of the stack: so whatever else
goes round in a circle is stopped by the limit, and the call reports it. A circle of adapters
takes no level. What it renders has no end, however often the adapters pass it on. -/

namespace Stencil.Engine
open Render

variable {engine : Engine}

inductive Request where
  | render (reference : String) (data : Value)
  | inline (source : String) (data : Value)
  | component (name : String) (props : Value) (slots : Fields String)

namespace Request

def answer (request : Request) (engine : Engine) : Outcome String :=
  match request with
  | .render reference data => engine.render reference data
  | .inline source data => engine.renderInline source data
  | .component name props slots => engine.renderComponent name props slots

def action (request : Request) (engine : Engine) : Render engine String :=
  match request with
  | .render reference data => engine.rendering reference data
  | .inline source data => engine.renderingInline source data
  | .component name props slots => onStack fun below => Render.component below name props.fields slots

theorem answer_eq_run (request : Request) (engine : Engine) :
    request.answer engine = engine.run (request.action engine) := by
  cases request <;> rfl

theorem action_twin {other : Engine} (twin : engine.Twin other) (request : Request) (left : Nat) :
    (twinRules twin).Steady left (request.action engine) (request.action other) := by
  have source (text : String) (scope : Scope) : (twinRules twin).Steady left
      (onStack fun below => Render.source below text scope) (onStack fun below => Render.source below text scope) := by
    apply onStack_alike (twin.alike (.all engine)) (Realm.closed_all engine)
    intro left first second below
    exact Rules.source below trivial _
  cases request with
  | render reference data =>
    simp only [action, rendering, twin.dataScope]
    apply (twinRules twin).bind ((twinRules twin).isNamed trivial)
    intro named _
    split
    · apply onStack_alike (twin.alike (.all engine)) (Realm.closed_all engine)
      intro left first second below
      exact Rules.named below (fun _ => (Realm.boundless_all engine).opens _) _
    · exact source reference _
  | inline text data =>
    simp only [action, renderingInline, twin.dataScope]
    exact source text _
  | component name props slots =>
    apply onStack_alike (twin.alike (.all engine)) (Realm.closed_all engine)
    intro left first second below
    exact Rules.component below trivial props.fields fun _ _ => trivial

theorem action_steady (request : Request) (left : Nat) :
    (resultRules engine).Steady left (request.action engine) (request.action engine) :=
  request.action_twin (.refl engine) left

end Request

/-- A box that contains itself, and an adapter that leads to it. -/
def nested : Engine :=
  { components := [("box", .ofSource "[@component('link')@endcomponent]"), ("link", .adapter "box" Instance.props)] }

theorem Forwards.unique {first second third : String} (forwards : engine.Forwards first second)
    (other : engine.Forwards first third) : second = third := by
  obtain ⟨target, forward, adapter, component, reached⟩ := forwards
  obtain ⟨target', forward', adapter', component', reached'⟩ := other
  cases adapter.symm.trans adapter'
  cases reached.symm.trans reached'
  rfl

/-- Whatever an adapter on a circle passes on to is on the circle too. -/
theorem Forwards.stays {first second : String} (forwards : engine.Forwards first second)
    (circle : Relation.TransGen engine.Forwards first first) : Relation.TransGen engine.Forwards second second := by
  obtain ⟨third, other, back⟩ := Relation.TransGen.head'_iff.1 circle
  cases forwards.unique other
  exact Relation.TransGen.tail' back forwards

theorem registered_on_circle {reference name : String} {component : Component}
    (reached : engine.reached? reference = some (name, component))
    (circle : Relation.TransGen engine.Forwards name name) : engine.component? name = some component := by
  obtain ⟨_, ⟨_, _, adapter, _⟩, _⟩ := Relation.TransGen.head'_iff.1 circle
  rcases reached?_known reached with known | ⟨missing, _⟩
  · exact known
  · cases adapter.symm.trans missing

/-- No number of hops leads out of a circle of adapters. -/
theorem definition_on_circle {name : String} {component : Component} (found : engine.component? name = some component)
    (circle : Relation.TransGen engine.Forwards name name) (below : Below engine) (hops : Nat) (use : Instance)
    (session : Session engine) : (definition below hops component use session).1 = .error .unending := by
  induction hops generalizing name component use session with
  | zero =>
    obtain ⟨_, ⟨target, forward, adapter, _⟩, _⟩ := Relation.TransGen.head'_iff.1 circle
    cases found.symm.trans adapter
    rfl
  | succ hops ih =>
    obtain ⟨next, forwards, _⟩ := Relation.TransGen.head'_iff.1 circle
    have onward := forwards.stays circle
    obtain ⟨target, forward, adapter, inner, reached⟩ := forwards
    cases found.symm.trans adapter
    have fetched := component?_fst target session
    rcases ran : Render.component? target session with ⟨result, after⟩
    rw [ran, reached] at fetched
    cases fetched
    rw [definition, bind_ok ran]
    exact ih (registered_on_circle reached onward) onward _ after

theorem bind_fst_error {α β : Type} {action : Render engine α} {next : α → Render engine β} {session : Session engine}
    {halt : Halt} (failed : (action session).1 = .error halt) : ((action >>= next) session).1 = .error halt := by
  rcases ran : action session with ⟨result, after⟩
  rw [ran] at failed
  cases failed
  rw [bind_error ran]

theorem within_error {α : Type} (name : String) {action : Render engine α} {halt : Halt} {session : Session engine}
    (room : session.stack.length < engine.config.maxDepth) (failing : ∀ entered, (action entered).1 = .error halt) :
    (within name action session).1 = .error halt := by
  rw [within, bind_ok (enter_room name room)]
  exact failing _

theorem component_on_circle {reference name : String} {component : Component}
    (reached : engine.reached? reference = some (name, component))
    (circle : Relation.TransGen engine.Forwards name name) (room : 0 < engine.config.maxDepth) (props : Value)
    (slots : Fields String) (evaluator : Evaluator) :
    (engine.renderComponent reference props slots evaluator).1 = .error .unending := by
  let start : Session engine := { evaluator }
  obtain ⟨fewer, depth⟩ : ∃ fewer, engine.config.maxDepth = fewer + 1 := ⟨_, (Nat.succ_pred_eq_of_pos room).symm⟩
  have fetched := component?_fst reference start
  have kept : (Render.component? reference start).2.stack = [] :=
    Orderly.restores (@Rules.component? _ _ _ (resultRules engine) _ reference trivial).1 start (Nat.zero_add _)
  rcases ran : Render.component? reference start with ⟨result, after⟩
  rw [ran] at fetched kept
  rw [reached] at fetched
  cases fetched
  change (Render.component (levels engine engine.config.maxDepth) reference props.fields slots start).1 = _
  rw [depth, Render.component, bind_ok ran]
  have bounded : after.stack.length < engine.config.maxDepth := by rwa [kept]
  apply bind_fst_error
  apply within_error name bounded
  exact definition_on_circle (registered_on_circle reached circle) circle (levels engine fewer) (hopLimit engine) _

/-- Whoever can enter a component at all can ask for one that never comes to an end. -/
theorem circle_never_ends (circular : engine.Circular) (room : 0 < engine.config.maxDepth) :
    ∃ reference, ∀ props slots evaluator,
      (engine.renderComponent reference props slots evaluator).1 = .error .unending := by
  obtain ⟨name, circle⟩ := circular
  obtain ⟨next, forwards, _⟩ := Relation.TransGen.head'_iff.1 circle
  have onward := forwards.stays circle
  obtain ⟨reference, _, _, component, reached⟩ := forwards
  exact ⟨reference, component_on_circle reached onward room⟩

end Stencil.Engine
