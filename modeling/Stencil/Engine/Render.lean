import Stencil.Engine.Loop
import Stencil.Engine.Session

/-! Rendering. A template that names a layout gives its sections to the layout, whose own
layout may take them further; what is printed is the outermost one. Templates, components
and layouts are each entered on a stack of limited height, so rendering is defined by the
number of levels that are left: what is entered is rendered with one level less. -/

namespace Stencil.Render
open Template

variable {engine : Engine}

/-- The content of sections by name. -/
abbrev Sections := Fields String

/-- What can be rendered once one more level has been entered. -/
structure Below (engine : Engine) where
  /-- A template with the sections captured for it, after so many steps from layout to layout. -/
  layout : Nat → Sections → Template → Scope → Render engine String
  component : Component → Instance → Render engine (Except ComponentError String)

/-- No level is left, and the stack refuses every entry before this is asked for anything. -/
def Below.none : Below engine := ⟨fun _ _ _ _ => throw .unending, fun _ _ => throw .unending⟩

/-- The text of a value, escaped unless it has been rendered already. -/
def escaped (value : Value) : String := if value.isSafe then value.display else Html.escape value.display

/-- A comment in the place of what could not be rendered. -/
def comment (problem name : String) : String := "<!-- " ++ problem ++ ": " ++ name ++ " -->"

/-- The body in each of the scopes, put together behind what is there. -/
def each (body : Scope → Render engine String) : String → List Scope → Render engine String
  | output, [] => return output
  | output, scope :: scopes => do each body (output ++ (← body scope)) scopes

/-- The scopes of a loop: one for every item, with the item and what is known of the loop. -/
def itemScopes (scope : Scope) (name : String) (items : List Value) : List Scope :=
  (items.zip (List.range items.length)).map fun (item, index) =>
    (scope.child.insert name item).insert "loop" (Loop.info index items.length)

/-- Prints nothing unless the header is well formed and the collection is an array. -/
def foreach (args : String) (body : Scope → Render engine String) (scope : Scope) : Render engine String :=
  match Loop.foreachHeader? args with
  | none => return ""
  | some (collection, name) => do
    match (← evaluate scope collection).array? with
    | none => return ""
    | some items => each body "" (itemScopes scope name items)

/-- Counts on while the condition holds. More rounds than allowed print nothing at all. -/
def count (goesOn : Int → Bool) (step : Int) (body : Int → Render engine String) :
    Nat → Int → String → Render engine String
  | 0, current, output => return if goesOn current then "" else output
  | rounds + 1, current, output => do
    if goesOn current then count goesOn step body rounds (current + step) (output ++ (← body current))
    else return output

/-- A loop whose limit is no number takes the configured one. -/
def counting (args : String) (body : Scope → Render engine String) (scope : Scope) : Render engine String :=
  match Loop.Counter.ofArgs? args with
  | none => return ""
  | some counter => do
    if counter.step ≤ 0 then return ""
    else
      let limit := (← evaluate scope counter.limit).number?.or (engine.config.loopFallback.map Float.ofNat)
      match limit with
      | none => return ""
      | some limit =>
        count (counter.holds limit) counter.step
          (fun current => body (scope.child.insert counter.name (.number (Float.ofInt current))))
          engine.config.maxLoopIterations counter.start ""

/-- Enters a template and renders it with fresh sections. -/
def entering (below : Below engine) (template : Template) (scope : Scope) : Render engine String :=
  within template.name (unwinding (below.layout 0 [] template scope))

/-- A missing template leaves a comment. -/
def inclusion (below : Below engine) (args : String) (scope : Scope) : Render engine String := do
  let parts := Argument.list args
  let name ← resolveName (← nameArgument scope (parts.headD ""))
  let data ← fieldsArgument scope parts[1]?
  match ← template? name with
  | some template => entering below template (scope.childWith data)
  | none => return comment "include not found" name

/-- What a component leaves in the output. Whatever went wrong in it leaves a comment,
except that the limit of the stack is passed on. -/
def outcome (name : String) : Except ComponentError String → Render engine String
  | .ok text => return text
  | .error (.render (.recursionLimit limit chain)) => fail (.recursionLimit limit chain)
  | .error _ => return comment "component error" name

/-- Enters a component and renders it. -/
def component (below : Below engine) (name : String) (props : Fields Value) (slots : Fields String) :
    Render engine String := do
  match ← component? name with
  | none => return comment "component not found" name
  | some (resolved, definition) => do
    outcome name (← within resolved (below.component definition ⟨resolved, props, slots⟩))

/-- The texts of the slots by name; the body outside them is one too unless it is blank. -/
def slotTexts (scope : Scope) : Fields String → List Slot → Render engine (Fields String)
  | texts, [] => return texts
  | texts, slot :: slots => do
    slotTexts scope (texts.insert (← nameArgument scope slot.args) slot.raw) slots

def call (below : Below engine) (args defaultSlot : String) (slots : List Slot) (scope : Scope) :
    Render engine String := do
  let parts := Argument.list args
  let name ← nameArgument scope (parts.headD "")
  let props ← fieldsArgument scope parts[1]?
  let unnamed := if (Text.trim defaultSlot.toList).isEmpty then [] else [(defaultSlotName, defaultSlot)]
  let texts ← slotTexts scope unnamed slots
  let _ ← resolveName name
  component below name props texts

/-- A directive that nobody handles stands in the output as it was written. -/
def directive (name : String) (args : Option String) (raw : String) (scope : Scope) : Render engine String :=
  match engine.directives.find? name with
  | none => return raw
  | some handler => do
    match ← evaluating ((handler ⟨name, args.getD "", scope⟩).run (Evaluator.evaluate scope)) with
    | .ok text => return text
    | .error _ => return comment "directive error" name

mutual
def node (below : Below engine) (sections : Sections) : Node → Scope → Render engine String
  | .text _ text, _ => return text
  | .echo _ expression escape, scope => do
    let value ← evaluate scope expression
    return if escape then escaped value else value.display
  | .extension .., _ => return ""
  | .sectionBlock _ args body, scope => do
    match sections.find? (← nameArgument scope args) with
    | some content => return content
    | none => nodes below sections body scope
  | .sectionInline _ args content, scope => do
    match sections.find? (← nameArgument scope args) with
    | some content => return content
    | none => return escaped (← argument scope content)
  | .yield _ args, scope => do
    let parts := Argument.list args
    match sections.find? (← nameArgument scope (parts.headD "")) with
    | some content => return content
    | none =>
      if parts.length ≤ 1 then return ""
      else return escaped (← argument scope (String.intercalate ", " parts.tail))
  | .conditional _ branches none, scope => firstBranch below sections branches (fun _ => return "") scope
  | .conditional _ branches (some body), scope =>
    firstBranch below sections branches (nodes below sections body) scope
  | .foreach _ args body, scope => foreach args (nodes below sections body) scope
  | .counting _ args body, scope => counting args (nodes below sections body) scope
  | .inclusion _ args, scope => inclusion below args scope
  | .component _ args defaultSlot slots, scope => call below args defaultSlot slots scope
  | .slot .., _ => return ""
  | .directive _ name args raw, scope => directive name args raw scope

def nodes (below : Below engine) (sections : Sections) : List Node → Scope → Render engine String
  | [], _ => return ""
  | first :: rest, scope => do
    let before ← node below sections first scope
    let after ← nodes below sections rest scope
    return before ++ after

/-- The body of the first branch whose condition holds. -/
def firstBranch (below : Below engine) (sections : Sections) :
    List (String × List Node) → (Scope → Render engine String) → Scope → Render engine String
  | [], otherwise, scope => otherwise scope
  | (text, body) :: branches, otherwise, scope => do
    if ← condition scope text then nodes below sections body scope
    else firstBranch below sections branches otherwise scope
end

/-- Captures the sections among the nodes. One that is captured already stays as it is,
and each may print those captured before it. -/
def capture (below : Below engine) (scope : Scope) : Sections → List Node → Render engine Sections
  | sections, [] => return sections
  | sections, .sectionBlock _ args body :: rest => do
    let name ← nameArgument scope args
    if sections.contains name then capture below scope sections rest
    else capture below scope (sections.insert name (← nodes below sections body scope)) rest
  | sections, .sectionInline _ args content :: rest => do
    let name ← nameArgument scope args
    if sections.contains name then capture below scope sections rest
    else capture below scope (sections.insert name (escaped (← argument scope content))) rest
  | sections, _ :: rest => capture below scope sections rest

/-- The arguments of the first directive that names a layout. -/
def extension? (nodes : List Node) : Option String :=
  nodes.findSome? fun
    | .extension _ args => some args
    | _ => none

/-- Renders a template with the sections captured on the way to it. If it names a layout
in turn, that one is entered and rendered in its place. -/
def layout (below : Below engine) (followed : Nat) (sections : Sections) (template : Template)
    (scope : Scope) : Render engine String :=
  match extension? template.nodes with
  | none => nodes below sections template.nodes scope
  | some args => do
    if 0 < followed && !engine.config.nestedExtends then nodes below sections template.nodes scope
    else
      let sections ← capture below scope sections template.nodes
      let parent ← resolveName (← nameArgument scope ((Argument.list args).headD ""))
      enter parent
      match ← template? parent with
      | none => fail (.parentNotFound parent (Template.title template.name))
      | some parent => below.layout (followed + 1) sections parent scope

/-- Renders a template on the level at hand. -/
def fragment (below : Below engine) (template : Template) (scope : Scope) : Render engine String :=
  unwinding (layout below 0 [] template scope)

def source (below : Below engine) (text : String) (scope : Scope) : Render engine String :=
  fragment below (Template.parse "" text) scope

def named (below : Below engine) (reference : String) (scope : Scope) : Render engine String := do
  let name ← resolveName reference
  match ← template? name with
  | none => fail (.templateNotFound name)
  | some template => entering below template scope

/-- Runs the calls of a host component. -/
def program (below : Below engine) : Program → Render engine (Except ComponentError String)
  | .done result => return result
  | .depth next => do program below (next (← depth))
  | .globals next => program below (next engine.globals)
  | .template name next => do program below (next (← template? name))
  | .resolve name next => do
    program below (next ((← component? name).map fun (resolved, definition) => (resolved, definition.kind)))
  | .renderNamed name scope next => do program below (next (← caught (named below name scope)))
  | .renderSource text scope next => do program below (next (← caught (source below text scope)))
  | .renderTemplate template scope next => do program below (next (← caught (entering below template scope)))
  | .renderComponent name props slots next => do
    program below (next (← caught (component below name props slots)))

/-- Slots are rendered with the variables of the component, not of its caller. -/
def slotContents (below : Below engine) (scope : Scope) : Fields String → Render engine (Fields Value)
  | [] => return []
  | (name, text) :: slots => do
    let content ← source below text scope
    let rest ← slotContents below scope slots
    return (name, .safe content) :: rest

/-- Binds each slot to its name; the default slot goes by two names of its own. -/
def bindSlots (scope : Scope) (contents : Fields Value) : Scope :=
  let bound := contents.foldl (fun scope (name, content) =>
    if name = defaultSlotName then (scope.insert "slot" content).insert "content" content
    else scope.insert name content) scope
  bound.insert "slots" (.object contents)

/-- A template component sees its props over the shared data, and its slots. -/
def template (below : Below engine) (body : Template) (use : Instance) : Render engine String := do
  let scope := engine.globals.childWith use.props
  let contents ← slotContents below scope use.slots
  fragment below body (bindSlots scope contents)

/-- Hands a failure to the component that an action belongs to. -/
def reported (action : Render engine String) : Render engine (Except ComponentError String) := do
  return (← caught action).mapError ComponentError.render

/-- Renders a component that has been entered. Adapters pass on to their targets; after
more of them than there are components, they have gone round in a circle. -/
def definition (below : Below engine) :
    Nat → Component → Instance → Render engine (Except ComponentError String)
  | _, .fragment body, use => reported (template below body use)
  | _, .function run, use => program below (run use)
  | 0, .adapter .., _ => throw .unending
  | hops + 1, .adapter target forward, use => do
    match ← component? target with
    | none => return .error (.failed ("adapter target not found: " ++ target))
    | some (resolved, inner) => definition below hops inner ⟨resolved, forward use, use.slots⟩

def hopLimit (engine : Engine) : Nat := engine.components.length + 1

/-- What can be rendered with a number of levels left. -/
def levels (engine : Engine) : Nat → Below engine
  | 0 => .none
  | left + 1 => {
      layout := fun followed sections template scope =>
        layout (levels engine left) followed sections template scope
      component := fun component use => definition (levels engine left) (hopLimit engine) component use }

/-- Renders with as many levels as the stack has left. -/
def onStack {α : Type} (action : Below engine → Render engine α) : Render engine α := do
  action (levels engine (engine.config.maxDepth - (← depth)))

end Stencil.Render
