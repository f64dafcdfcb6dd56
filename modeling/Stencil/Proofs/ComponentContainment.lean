import Stencil.Proofs.InheritanceChain
import Stencil.Proofs.RenderEnding

/-! Components that fail. Whatever goes wrong in a component stays in it: a comment takes its place and the
rendering goes on, on the stack that it had before. Only the limit of the stack is passed on. What stands
before and behind a component is therefore rendered as if the component were not there. -/

namespace Stencil.Render
open Template

variable {engine : Engine} {α β : Type}

/-- The action hands every failure over as a result. -/
def Reports (action : Render engine α) : Prop := ∀ session error, (action session).1 ≠ .error (.failed error)

namespace Reports

theorem pure (value : α) : Reports (Pure.pure value : Render engine α) := fun _ _ => nofun

theorem bind {action : Render engine α} {next : α → Render engine β} (reports : Reports action)
    (rest : ∀ value, Reports (next value)) : Reports (action >>= next) := by
  intro session error
  rcases ran : action session with ⟨halt | value, after⟩
  · rw [bind_error ran]
    intro failed
    exact reports session error (by rw [ran]; exact congrArg Except.error (Except.error.inj failed))
  · rw [bind_ok ran]
    exact rest value after error

theorem template? (name : String) : Reports (Render.template? name : Render engine _) := by
  intro session error
  rw [template?_fst]
  exact nofun

theorem component? (reference : String) : Reports (Render.component? reference : Render engine _) := by
  intro session error
  rw [component?_fst]
  exact nofun

theorem caught (action : Render engine α) : Reports (Render.caught action) := by
  intro session error
  unfold Render.caught
  split <;> exact nofun

theorem program (below : Below engine) (calls : Program) : Reports (Render.program below calls) := by
  induction calls with
  | done result => exact pure result
  | depth next ih => exact bind (fun _ _ => nofun) ih
  | globals next ih => exact ih engine.globals
  | template name next ih => exact bind (template? name) ih
  | resolve name next ih => exact bind (component? name) fun found => ih _
  | renderNamed name scope next ih => exact bind (caught _) ih
  | renderSource text scope next ih => exact bind (caught _) ih
  | renderTemplate template scope next ih => exact bind (caught _) ih
  | renderComponent name props slots next ih => exact bind (caught _) ih

theorem reported (action : Render engine String) : Reports (Render.reported action) :=
  bind (caught action) fun _ => pure _

theorem definition (below : Below engine) (hops : Nat) (component : Component) (use : Instance) :
    Reports (Render.definition below hops component use) := by
  induction hops generalizing component use with
  | zero =>
    cases component with
    | fragment body => exact reported _
    | function run => exact program below (run use)
    | adapter target forward => exact fun _ _ => nofun
  | succ hops ih =>
    cases component with
    | fragment body => exact reported _
    | function run => exact program below (run use)
    | adapter target forward =>
      apply bind (component? target)
      intro found
      match found with
      | none => exact pure _
      | some (resolved, inner) => exact ih inner _

theorem level (left : Nat) (component : Component) (use : Instance) :
    Reports ((levels engine left).component component use) := by
  cases left with
  | zero => exact fun _ _ => nofun
  | succ left => exact definition _ _ component use

end Reports

theorem settle_bind {action : Below engine → Render engine α} {next : α → Below engine → Render engine β}
    (steady : ∀ left, (resultRules engine).Steady left (action (levels engine left)) (action (levels engine left)))
    (rest : ∀ value left, (resultRules engine).Steady left (next value (levels engine left)) (next value (levels engine left)))
    {stack : List String} (fits : stack.length ≤ engine.config.maxDepth) :
    (engine.settle stack fun below => action below >>= fun value => next value below) =
      engine.settle stack action >>= fun value => engine.settle stack (next value) := by
  let start : Session engine := { stack }
  have level : start.stack.length + (engine.config.maxDepth - stack.length) = engine.config.maxDepth :=
    Nat.add_sub_of_le fits
  have kept := (settled action (steady _) level).2
  change ((action _ >>= fun value => next value _) start).1 = (action _ start).1 >>= _
  rcases ran : action (levels engine (engine.config.maxDepth - stack.length)) start with ⟨halt | value, after⟩
  · rw [bind_error ran]
    rfl
  · rw [ran] at kept
    rw [bind_ok ran]
    rw [← kept] at level
    have later := (settled (next value) (rest value _) level).1
    rw [kept] at later
    exact later

section Steady
variable (sections : Sections) (scope : Scope) (left : Nat)

theorem node_steady (node : Node) : (resultRules engine).Steady left
    (Render.node (levels engine left) sections node scope) (Render.node (levels engine left) sections node scope) :=
  Rules.node (levels_agree (.refl engine) left) sections node trivial scope

theorem nodes_steady (body : List Node) : (resultRules engine).Steady left
    (nodes (levels engine left) sections body scope) (nodes (levels engine left) sections body scope) :=
  Rules.nodes (levels_agree (.refl engine) left) sections body (fun _ _ => trivial) scope

theorem component_steady (name : String) (props : Fields Value) (slots : Fields String) :
    (resultRules engine).Steady left (component (levels engine left) name props slots)
      (component (levels engine left) name props slots) :=
  Rules.component (levels_agree (.refl engine) left) trivial props fun _ _ => trivial

end Steady

section Around
variable {scope : Scope} {stack : List String} (fits : stack.length ≤ engine.config.maxDepth) (sections : Sections)
include fits

theorem walked_cons (first : Node) (rest : List Node) : engine.walked scope (first :: rest) stack sections = do
    let before ← engine.settle stack fun below => node below sections first scope
    let after ← engine.walked scope rest stack sections
    return before ++ after := by
  unfold Engine.walked
  simp only [nodes]
  have behind (before : String) : (engine.settle stack fun below =>
      nodes below sections rest scope >>= fun after => pure (before ++ after)) = _ :=
    @settle_bind engine _ _ (fun below => nodes below sections rest scope) (fun after _ => pure (before ++ after))
      (fun left => nodes_steady sections scope left rest) (fun after left => (resultRules engine).pure left _) stack fits
  have whole := @settle_bind engine _ _ (fun below => node below sections first scope)
    (fun before below => nodes below sections rest scope >>= fun after => pure (before ++ after))
    (fun left => node_steady sections scope left first)
    (fun before left => (resultRules engine).bind (nodes_steady sections scope left rest) fun after _ =>
      (resultRules engine).pure left _) stack fits
  simp only [behind] at whole
  exact whole

theorem walked_append (front back : List Node) : engine.walked scope (front ++ back) stack sections = do
    let before ← engine.walked scope front stack sections
    let after ← engine.walked scope back stack sections
    return before ++ after := by
  induction front with
  | nil =>
    change _ = engine.walked scope back stack sections >>= fun after => Except.ok ("" ++ after)
    simp only [String.empty_append]
    exact (bind_pure _).symm
  | cons first rest ih =>
    rw [List.cons_append, walked_cons fits, walked_cons fits, ih]
    simp only [bind_assoc, pure_bind, String.append_assoc]

end Around

/-- A component to be rendered, with its props and the texts of its slots. -/
structure Use where
  name : String
  props : Fields Value
  slots : Fields String

/-- The use of a component that a node stands for in a scope. -/
def useIn (scope : Scope) (args defaultSlot : String) (slots : List Slot) : Use where
  name := nameIn scope ((Argument.list args).headD "")
  props := fieldsIn scope (Argument.list args)[1]?
  slots := slotTextsIn scope
    (if (Text.trim defaultSlot.toList).isEmpty then [] else [(defaultSlotName, defaultSlot)]) slots

def Use.on (use : Use) (below : Below engine) : Render engine String := component below use.name use.props use.slots

/-- What is rendered once the component has been found. -/
def Use.within (use : Use) (resolved : String) (definition : Component) (below : Below engine) :
    Render engine (Except ComponentError String) :=
  Render.within resolved (below.component definition ⟨resolved, use.props, use.slots⟩)

theorem call_apply (scope : Scope) (args defaultSlot : String) (slots : List Slot) (session : Session engine) :
    ∃ after, after.stack = session.stack ∧ ∀ below, call below args defaultSlot slots scope session =
      (resolveName (useIn scope args defaultSlot slots).name >>= fun _ =>
        (useIn scope args defaultSlot slots).on below) after := by
  obtain ⟨first, named, kept⟩ := nameArgument_run scope ((Argument.list args).headD "") session
  obtain ⟨second, valued, kept'⟩ := fieldsArgument_run scope (Argument.list args)[1]? first
  obtain ⟨third, bound, kept''⟩ := slotTexts_run scope slots
    (if (Text.trim defaultSlot.toList).isEmpty then [] else [(defaultSlotName, defaultSlot)]) second
  refine ⟨third, kept''.trans (kept'.trans kept), fun below => ?_⟩
  simp only [call, useIn, Use.on]
  rw [bind_ok named, bind_ok valued, bind_ok bound]

theorem call_run (scope : Scope) (args defaultSlot : String) (slots : List Slot) (session : Session engine)
    (resolves : ∀ short, engine.config.expand (useIn scope args defaultSlot slots).name ≠ .unknown short) :
    ∃ after, after.stack = session.stack ∧ ∀ below, call below args defaultSlot slots scope session =
      component below (useIn scope args defaultSlot slots).name (useIn scope args defaultSlot slots).props
        (useIn scope args defaultSlot slots).slots after := by
  obtain ⟨after, kept, called⟩ := call_apply scope args defaultSlot slots session
  obtain ⟨name, resolved⟩ : ∃ name, resolveName (useIn scope args defaultSlot slots).name after = (.ok name, after) := by
    rw [resolveName_run]
    unfold Engine.resolved
    cases expands : engine.config.expand (useIn scope args defaultSlot slots).name with
    | plain => exact ⟨_, rfl⟩
    | expanded name => exact ⟨_, rfl⟩
    | unknown short => exact absurd expands (resolves short)
  refine ⟨after, kept, fun below => ?_⟩
  rw [called, bind_ok resolved]
  rfl

def Use.operation (use : Use) : Operation := .component use.name use.props use.slots

/-- Nodes rendered on the stack of a session. -/
def printing (sections : Sections) (body : List Node) (scope : Scope) : Render engine String :=
  onStack fun below => nodes below sections body scope

/-- The name that a component is asked for by, once its alias is expanded. -/
def Resolves (engine : Engine) (name : String) : Prop := ∀ short, engine.config.expand name ≠ .unknown short

theorem fragment_printing {before : Session engine} (template : Template) (scope : Scope)
    (plain : extension? template.nodes = none) :
    ((Operation.fragment template scope).run before).1 = (printing [] template.nodes scope before).1 := by
  change (fragment _ template scope before).1 = (nodes _ [] template.nodes scope before).1
  unfold fragment layout
  rw [plain]
  rfl

section Contained
variable {before : Session engine} (fits : before.stack.length ≤ engine.config.maxDepth)
include fits

theorem call_settled (scope : Scope) (sections : Sections) (span : Text.Span) (args defaultSlot : String)
    (slots : List Slot) (resolves : Resolves engine (useIn scope args defaultSlot slots).name) :
    (engine.settle before.stack fun below => node below sections (.component span args defaultSlot slots) scope) =
      engine.settle before.stack (useIn scope args defaultSlot slots).on := by
  obtain ⟨after, kept, same⟩ := call_run scope args defaultSlot slots { stack := before.stack } resolves
  have level : before.stack.length + (engine.config.maxDepth - before.stack.length) = engine.config.maxDepth :=
    Nat.add_sub_of_le fits
  have called := (@settled engine _ _ (fun below => node below sections (.component span args defaultSlot slots) scope)
    (node_steady sections scope _ _) { stack := before.stack } level).1
  have used := (@settled engine _ _ (useIn scope args defaultSlot slots).on (component_steady _ _ _ _) after
    (by rw [kept]; exact level)).1
  rw [kept] at used
  rw [← called, ← used, node, same]
  rfl

end Contained

/-- A component of the host that always fails. -/
def failing : Engine := { components := [("boom", .function fun _ => .done (.error (.failed "exploded")))] }

end Stencil.Render
