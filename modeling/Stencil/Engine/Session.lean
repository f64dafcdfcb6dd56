import Stencil.Engine.Basic
import Stencil.Evaluator

/-! The state of one rendering: what is being rendered inside what, the templates fetched
from the loader so far, and the expressions read so far. It outlives failures, so a
failure inside a component leaves everything in order for what comes after it. -/

namespace Stencil

/-- What happened to the stack, and what it was before that or, on leaving, after it. -/
inductive Event where
  | entered (stack : List String) (name : String)
  | refused (stack : List String) (name : String) (error : RenderError)
  | left (stack : List String)
deriving DecidableEq, Repr

structure Session (engine : Engine) where
  /-- The templates and components being rendered, the innermost first. -/
  stack : List String := []
  /-- All that happened to the stack, the latest first. It only tells what went on: no
  rendering looks at it. -/
  log : List Event := []
  loaded : List (String × Template) := []
  evaluator : Evaluator := .empty
  /-- What is kept under a name is what the loader gives for it. -/
  genuine : ∀ entry ∈ loaded, engine.load? entry.1 = some entry.2 := by exact List.forall_mem_nil _

abbrev Render (engine : Engine) (α : Type) := ExceptT Halt (StateM (Session engine)) α

namespace Render

variable {engine : Engine} {α : Type}

/-- An action on the expressions read so far. -/
def evaluating (action : StateM Evaluator α) : Render engine α := fun session =>
  let (result, evaluator) := action session.evaluator
  (.ok result, { session with evaluator })

def fail (error : RenderError) : Render engine α := throw (.failed error)

/-- Makes a failure a result. Only a rendering without an end stays one. -/
def caught (action : Render engine α) : Render engine (Except RenderError α) := fun session =>
  match action session with
  | (.ok result, after) => (.ok (.ok result), after)
  | (.error (.failed error), after) => (.ok (.error error), after)
  | (.error .unending, after) => (.error .unending, after)

/-- A registered template, or one from the loader, which is asked once for each name. -/
def template? (name : String) : Render engine (Option Template) := fun session =>
  match engine.templates.find? name with
  | some template => (.ok (some template), session)
  | none =>
    match session.loaded.lookup name with
    | some template => (.ok (some template), session)
    | none =>
      match found : engine.load? name with
      | none => (.ok none, session)
      | some template =>
        (.ok (some template),
          { session with
            loaded := (name, template) :: session.loaded
            genuine := by
              intro entry inside
              rcases List.mem_cons.1 inside with rfl | inside
              · exact found
              · exact session.genuine entry inside })

def depth : Render engine Nat := do return (← get).stack.length

/-- Counts one more template or component as being rendered. A full stack refuses it. -/
def enter (name : String) : Render engine Unit := fun session =>
  let stack := session.stack
  if engine.config.maxDepth ≤ stack.length then
    let error := .recursionLimit engine.config.maxDepth (stack.reverse ++ [name])
    (.error (.failed error), { session with log := .refused stack name error :: session.log })
  else
    (.ok (), { session with
      stack := Template.title name :: stack
      log := .entered stack name :: session.log })

/-- Restores the stack behind an action, whether it failed or not. -/
def restoring (restore : List String → List String) (action : Render engine α) : Render engine α :=
  fun session =>
    let (result, after) := action session
    let stack := restore after.stack
    (result, { after with stack, log := .left stack :: after.log })

/-- Runs the action one level deeper. -/
def within (name : String) (action : Render engine α) : Render engine α := do
  enter name
  restoring List.tail action

/-- Takes whatever the action left on the stack off again. -/
def unwinding (action : Render engine α) : Render engine α := fun session =>
  restoring (fun stack => stack.drop (stack.length - session.stack.length)) action session

def evaluate (scope : Scope) (text : String) : Render engine Value :=
  evaluating (Evaluator.evaluate scope text)

def condition (scope : Scope) (text : String) : Render engine Bool :=
  evaluating (Evaluator.condition scope text)

def argument (scope : Scope) (text : String) : Render engine Value :=
  evaluating (Evaluator.argument scope text)

/-- A name as it is quoted; else the value of the expression if that is text and not
empty; else the argument itself. -/
def nameArgument (scope : Scope) (text : String) : Render engine String :=
  match Argument.stringLiteral? text.toList with
  | some name => return String.ofList name
  | none => do return (← evaluate scope text).nonemptyText?.getD (Text.trimmed text)

/-- The fields of an optional argument. -/
def fieldsArgument (scope : Scope) : Option String → Render engine (Fields Value)
  | some text => do return (← argument scope text).fields
  | none => return []

/-- The name that a reference stands for. -/
def resolveName (reference : String) : Render engine String :=
  match engine.config.expand reference with
  | .plain => return reference
  | .expanded name => return name
  | .unknown short => fail (.aliasNotRegistered short)

/-- The first of the names that a component or template is known under. -/
def firstComponent? : List String → Render engine (Option (String × Component))
  | [] => return none
  | name :: names => do
    match engine.component? name with
    | some component => return some (name, component)
    | none =>
      match ← template? name with
      | some template => return some (name, .fragment template)
      | none => firstComponent? names

/-- The definition of a component, with the name it was found under. -/
def component? (reference : String) : Render engine (Option (String × Component)) :=
  match engine.config.expand reference with
  | .plain => firstComponent? (engine.config.candidates reference)
  | .expanded name => firstComponent? (engine.config.candidates name)
  | .unknown _ => return none

end Render
end Stencil
