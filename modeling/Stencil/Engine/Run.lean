import Stencil.Engine.Render

/-! Rendering with an engine, from the outside. Each call starts with an empty stack; the
expressions that were read stay with the caller's evaluator. -/

namespace Stencil.Engine

/-- What a call gives: the text or why there is none, and the expressions read by then. -/
abbrev Outcome (α : Type) := StateM Evaluator (Except Halt α)

def run {α : Type} (engine : Engine) (action : Render engine α) : Outcome α := fun evaluator =>
  let (result, session) := action { evaluator }
  (result, session.evaluator)

/-- Data given to a call hides the shared data. -/
def dataScope (engine : Engine) (data : Value) : Scope := engine.globals.childWith data.fields

/-- Whether a reference is a name: it has an alias, or the form of a name, or a template
goes by it as it stands. -/
def isNamed (engine : Engine) (reference : String) : Render engine Bool :=
  if engine.config.expand reference ≠ .plain || Template.isName reference then return true
  else do return (← Render.template? reference).isSome

/-- Renders the template that a reference names, or the reference itself as source. -/
def rendering (engine : Engine) (reference : String) (data : Value) : Render engine String := do
  let scope := engine.dataScope data
  if ← engine.isNamed reference then Render.onStack fun below => Render.named below reference scope
  else Render.onStack fun below => Render.source below reference scope

def renderingInline (engine : Engine) (source : String) (data : Value) : Render engine String :=
  Render.onStack fun below => Render.source below source (engine.dataScope data)

def render (engine : Engine) (reference : String) (data : Value) : Outcome String :=
  engine.run (engine.rendering reference data)

def renderInline (engine : Engine) (source : String) (data : Value) : Outcome String :=
  engine.run (engine.renderingInline source data)

/-- Renders a component outside of any template. -/
def renderComponent (engine : Engine) (name : String) (props : Value) (slots : Fields String) : Outcome String :=
  engine.run (Render.onStack fun below => Render.component below name props.fields slots)

/-- Renders one use of a component that need not be registered. -/
def renderInstance (engine : Engine) (component : Component) (use : Instance) :
    Outcome (Except ComponentError String) :=
  engine.run (Render.onStack fun below => Render.definition below (Render.hopLimit engine) component use)

/-- The name and the kind of the component that a reference finds. -/
def resolve (engine : Engine) (reference : String) : Outcome (Option (String × ComponentKind)) :=
  engine.run do
    return (← Render.component? reference).map fun (resolved, component) => (resolved, component.kind)

/-- The value of an expression over the shared data. -/
def evaluate (engine : Engine) (text : String) : StateM Evaluator Value :=
  Evaluator.evaluate engine.globals text

end Stencil.Engine

namespace Stencil

/-- Renders source with the directives that every engine knows. -/
def render (now : Calendar.Moment) (source : String) (data : Value) : Except Halt String :=
  ((Engine.new {} now).renderInline source data .empty).1

end Stencil
