import Stencil.Proofs.RenderRealm

/-! Statements about two renderings of the same thing by two engines, which may have different
limits and so different numbers of levels left, and may keep their templates in different
places. What holds of the few actions that touch a session, and is kept when actions follow
each other, holds of whole renderings: the recursion through nodes, layouts and components is
gone through here once for all such statements, and no further than the realm of the first
rendering goes. A statement about one rendering says nothing of the second. -/

namespace Stencil

def Engine.limited (engine : Engine) (limit : Nat) : Engine :=
  { engine with config := { engine.config with maxDepth := limit } }

/-- Two engines that a rendering can tell apart by their limits alone. Where a template comes
from makes no difference to it. -/
structure Engine.Kin (engine other : Engine) : Prop extends Sibling engine other where
  template? : ∀ name, other.template? name = engine.template? name

namespace Engine.Kin

theorem limited (engine : Engine) (limit : Nat) : Kin engine (engine.limited limit) where
  config := rfl
  components := rfl
  directives := rfl
  globals := rfl
  template? _ := rfl

theorem refl (engine : Engine) : Kin engine engine := limited engine engine.config.maxDepth

end Engine.Kin

theorem Engine.Sibling.refl (engine : Engine) : Sibling engine engine := (Kin.refl engine).toSibling

namespace Render
open Template

variable {engine other : Engine} {realm : Realm}

/-- The number tells how many levels the first rendering has left. -/
structure Rules (engine other : Engine) (realm : Realm) where
  sibling : engine.Sibling other
  closed : realm.Closed engine
  /-- Holds of actions that leave the stack as they find it. -/
  Steady : {α : Type} → Nat → Render engine α → Render other α → Prop
  /-- Holds of actions that may leave something on top of the stack. -/
  Climbing : {α : Type} → Nat → Render engine α → Render other α → Prop
  /-- Holds of components, which hand failures over as results. -/
  Reporting : Nat → Render engine (Except ComponentError String) →
    Render other (Except ComponentError String) → Prop
  pure : ∀ {α : Type} (left : Nat) (value : α), Steady left (Pure.pure value) (Pure.pure value)
  bind : ∀ {α β : Type} {left : Nat} {first : Render engine α} {second : Render other α}
    {next : α → Render engine β} {next' : α → Render other β}, Steady left first second →
    (∀ value, Returns first value → Steady left (next value) (next' value)) →
    Steady left (first >>= next) (second >>= next')
  andClimb : ∀ {α β : Type} {left : Nat} {first : Render engine α} {second : Render other α}
    {next : α → Render engine β} {next' : α → Render other β}, Steady left first second →
    (∀ value, Returns first value → Climbing left (next value) (next' value)) →
    Climbing left (first >>= next) (second >>= next')
  climbing : ∀ {α : Type} {left : Nat} {first : Render engine α} {second : Render other α},
    Steady left first second → Climbing left first second
  evaluating : ∀ {α : Type} (left : Nat) {action : StateM Evaluator α}, Settled action →
    Steady left (evaluating action) (evaluating action)
  template? : ∀ (left : Nat) {name : String}, realm.asked name → Steady left (template? name) (template? name)
  fail : ∀ {α : Type} (left : Nat) {error : RenderError}, (∀ most chain, error ≠ .recursionLimit most chain) →
    Steady left (fail error : Render engine α) (fail error)
  entering : ∀ {α : Type} {left : Nat} (name : String) {first : Render engine α}
    {second : Render other α}, (∀ fewer, left = fewer + 1 → Climbing fewer first second) →
    Climbing left (enter name >>= fun _ => first) (enter name >>= fun _ => second)
  within : ∀ {α : Type} {left : Nat} (name : String) {first : Render engine α}
    {second : Render other α}, (∀ fewer, left = fewer + 1 → Steady fewer first second) →
    Steady left (within name first) (within name second)
  unwinding : ∀ {α : Type} {left : Nat} {first : Render engine α} {second : Render other α},
    Climbing left first second → Steady left (unwinding first) (unwinding second)
  reported : ∀ {left : Nat} {first : Render engine String} {second : Render other String},
    Steady left first second → Reporting left (reported first) (reported second)
  outcome : ∀ {left : Nat} (resolved name : String) {first : Render engine (Except ComponentError String)}
    {second : Render other (Except ComponentError String)},
    (∀ fewer, left = fewer + 1 → Reporting fewer first second) →
    Steady left (Render.within resolved first >>= outcome name) (Render.within resolved second >>= outcome name)

namespace Rules

variable (rules : Rules engine other realm)

/-- What one level asks of those below it. -/
structure Below (left : Nat) (first : Render.Below engine) (second : Render.Below other) : Prop where
  layout : ∀ fewer, left = fewer + 1 → ∀ followed sections template, (∀ node ∈ template.nodes, realm.node node) →
    ∀ scope, rules.Climbing fewer (first.layout followed sections template scope)
      (second.layout followed sections template scope)
  component : ∀ fewer, left = fewer + 1 → ∀ definition, realm.definition definition →
    ∀ use, (∀ slot ∈ use.slots, realm.text slot.2) →
      rules.Reporting fewer (first.component definition use) (second.component definition use)

variable {left : Nat}

theorem evaluate (scope : Scope) (text : String) :
    rules.Steady left (Render.evaluate scope text) (Render.evaluate scope text) :=
  rules.evaluating left (Settled.evaluate scope text)

theorem condition (scope : Scope) (text : String) :
    rules.Steady left (Render.condition scope text) (Render.condition scope text) :=
  rules.evaluating left (Settled.condition scope text)

theorem argument (scope : Scope) (text : String) :
    rules.Steady left (Render.argument scope text) (Render.argument scope text) :=
  rules.evaluating left (Settled.argument scope text)

theorem nameArgument (scope : Scope) (text : String) :
    rules.Steady left (Render.nameArgument scope text) (Render.nameArgument scope text) := by
  unfold Render.nameArgument
  split
  · exact rules.pure left _
  · exact rules.bind (rules.evaluate scope text) fun _ _ => rules.pure left _

theorem fieldsArgument (scope : Scope) (text : Option String) :
    rules.Steady left (Render.fieldsArgument scope text) (Render.fieldsArgument scope text) := by
  cases text with
  | none => exact rules.pure left _
  | some text => exact rules.bind (rules.argument scope text) fun _ _ => rules.pure left _

theorem resolveName (reference : String) :
    rules.Steady left (Render.resolveName reference) (Render.resolveName reference) := by
  unfold Render.resolveName
  rw [rules.sibling.expand]
  cases engine.config.expand reference with
  | plain => exact rules.pure left _
  | expanded name => exact rules.pure left _
  | unknown short => exact rules.fail left (by simp)

theorem firstComponent? {names : List String} (asked : ∀ name ∈ names, realm.asked name) :
    rules.Steady left (Render.firstComponent? names) (Render.firstComponent? names) := by
  induction names with
  | nil => exact rules.pure left _
  | cons name names ih =>
    obtain ⟨here, others⟩ := List.forall_mem_cons.1 asked
    unfold Render.firstComponent?
    rw [rules.sibling.component?]
    cases engine.component? name with
    | some component => exact rules.pure left _
    | none =>
      apply rules.bind (rules.template? left here)
      intro found _
      cases found with
      | some template => exact rules.pure left _
      | none => exact ih others

theorem component? {reference : String} (within : realm.reference reference) :
    rules.Steady left (Render.component? reference) (Render.component? reference) := by
  unfold Render.component?
  simp only [rules.sibling.expand, rules.sibling.candidates]
  cases expands : engine.config.expand reference with
  | plain =>
    have stands : Stands engine reference reference := ⟨{}, by rw [Render.resolveName, expands]; rfl⟩
    exact rules.firstComponent? (rules.closed.candidates within stands)
  | expanded name =>
    have stands : Stands engine reference name := ⟨{}, by rw [Render.resolveName, expands]; rfl⟩
    exact rules.firstComponent? (rules.closed.candidates within stands)
  | unknown short => exact rules.pure left _

section Loops
variable {body : Scope → Render engine String} {body' : Scope → Render other String}

theorem each (steady : ∀ scope, rules.Steady left (body scope) (body' scope)) (scopes : List Scope)
    (output : String) : rules.Steady left (Render.each body output scopes) (Render.each body' output scopes) := by
  induction scopes generalizing output with
  | nil => exact rules.pure left _
  | cons scope scopes ih => exact rules.bind (steady scope) fun _ _ => ih _

theorem foreach (steady : ∀ scope, rules.Steady left (body scope) (body' scope)) (args : String) (scope : Scope) :
    rules.Steady left (Render.foreach args body scope) (Render.foreach args body' scope) := by
  unfold Render.foreach
  split
  next => exact rules.pure left _
  next collection name _ =>
    apply rules.bind (rules.evaluate scope collection)
    intro value _
    cases value.array? with
    | none => exact rules.pure left _
    | some items => exact rules.each steady _ _

theorem count (goesOn : Int → Bool) (step : Int) {body : Int → Render engine String}
    {body' : Int → Render other String}
    (steady : ∀ current, rules.Steady left (body current) (body' current)) (rounds : Nat) (current : Int)
    (output : String) : rules.Steady left (Render.count goesOn step body rounds current output)
      (Render.count goesOn step body' rounds current output) := by
  induction rounds generalizing current output with
  | zero => exact rules.pure left _
  | succ rounds ih =>
    unfold Render.count
    split
    · exact rules.bind (steady current) fun _ _ => ih _ _
    · exact rules.pure left _

theorem counting (steady : ∀ scope, rules.Steady left (body scope) (body' scope)) (args : String) (scope : Scope) :
    rules.Steady left (Render.counting args body scope) (Render.counting args body' scope) := by
  unfold Render.counting
  split
  next => exact rules.pure left _
  next counter _ =>
    split
    · exact rules.pure left _
    · apply rules.bind (rules.evaluate scope counter.limit)
      intro value _
      dsimp only
      rw [rules.sibling.loopFallback, rules.sibling.maxLoopIterations]
      split
      · exact rules.pure left _
      · exact rules.count _ _ (fun current => steady _) _ _ _

end Loops

theorem directive (name : String) (args : Option String) (raw : String) (scope : Scope) :
    rules.Steady left (Render.directive name args raw scope) (Render.directive name args raw scope) := by
  unfold Render.directive
  rw [rules.sibling.directives]
  cases engine.directives.find? name with
  | none => exact rules.pure left _
  | some handler =>
    apply rules.bind (rules.evaluating left (Settled.query scope _))
    intro result _
    cases result <;> exact rules.pure left _

theorem slotTexts (scope : Scope) (slots : List Slot) (texts : Fields String) :
    rules.Steady left (Render.slotTexts scope texts slots) (Render.slotTexts scope texts slots) := by
  induction slots generalizing texts with
  | nil => exact rules.pure left _
  | cons slot slots ih => exact rules.bind (rules.nameArgument scope slot.args) fun _ _ => ih _

section Levels
variable {rules} {first : Render.Below engine} {second : Render.Below other}

theorem entered (below : Below rules left first second) {template : Template}
    (within : ∀ node ∈ template.nodes, realm.node node) (scope : Scope) :
    rules.Steady left (Render.entering first template scope) (Render.entering second template scope) :=
  rules.within template.name fun fewer same => rules.unwinding (below.layout fewer same 0 [] template within scope)

theorem inclusion (below : Below rules left first second) {span : Text.Span} {args : String}
    (within : realm.node (.inclusion span args)) (scope : Scope) :
    rules.Steady left (Render.inclusion first args scope) (Render.inclusion second args scope) := by
  apply rules.bind (rules.nameArgument scope _)
  intro reference names
  apply rules.bind (rules.resolveName reference)
  intro name stands
  obtain ⟨asked, nodes⟩ := rules.closed.inclusion within ⟨scope, names⟩ stands
  apply rules.bind (rules.fieldsArgument scope _)
  intro data _
  apply rules.bind (rules.template? left asked)
  intro found returned
  cases found with
  | none => exact rules.pure left _
  | some template => exact entered below (nodes template returned.template?) _

theorem component (below : Below rules left first second) {name : String} (within : realm.reference name)
    (props : Fields Value) {slots : Fields String} (texts : ∀ slot ∈ slots, realm.text slot.2) :
    rules.Steady left (Render.component first name props slots) (Render.component second name props slots) := by
  apply rules.bind (rules.component? within)
  intro found returned
  match found with
  | none => exact rules.pure left _
  | some (resolved, definition) =>
    exact rules.outcome resolved name fun fewer same =>
      below.component fewer same definition (rules.closed.found within returned) _ texts

theorem call (below : Below rules left first second) {span : Text.Span} {args defaultSlot : String} {slots : List Slot}
    (within : realm.node (.component span args defaultSlot slots)) (scope : Scope) :
    rules.Steady left (Render.call first args defaultSlot slots scope)
      (Render.call second args defaultSlot slots scope) := by
  obtain ⟨reference, unnamed, named⟩ := rules.closed.call within
  apply rules.bind (rules.nameArgument scope _)
  intro name names
  apply rules.bind (rules.fieldsArgument scope _)
  intro props _
  apply rules.bind (rules.slotTexts scope slots _)
  intro texts returned
  apply rules.bind (rules.resolveName name)
  intro _ _
  refine component below (reference ⟨scope, names⟩) props fun entry mem => ?_
  rcases returned.slotTexts entry mem with outside | ⟨slot, there, same⟩
  · split at outside
    · cases outside
    · cases List.mem_singleton.1 outside
      exact unnamed
  · exact same ▸ named slot there

mutual
theorem node (below : Below rules left first second) (sections : Sections) (node : Node) (within : realm.node node)
    (scope : Scope) :
    rules.Steady left (Render.node first sections node scope) (Render.node second sections node scope) := by
  have children := rules.closed.children within
  match node with
  | .text _ text => exact rules.pure left _
  | .echo _ expression escape => exact rules.bind (rules.evaluate scope expression) fun _ _ => rules.pure left _
  | .extension _ _ => exact rules.pure left _
  | .sectionBlock _ args body =>
    apply rules.bind (rules.nameArgument scope args)
    intro name _
    split
    · exact rules.pure left _
    · exact nodes below sections body children scope
  | .sectionInline _ args content =>
    apply rules.bind (rules.nameArgument scope args)
    intro name _
    split
    · exact rules.pure left _
    · exact rules.bind (rules.argument scope content) fun _ _ => rules.pure left _
  | .yield _ args =>
    apply rules.bind (rules.nameArgument scope _)
    intro name _
    split
    · exact rules.pure left _
    · split
      · exact rules.pure left _
      · exact rules.bind (rules.argument scope _) fun _ _ => rules.pure left _
  | .conditional _ branches none =>
    obtain ⟨bodies, _⟩ := List.forall_mem_append.1 children
    exact firstBranch below sections branches bodies (fun _ => rules.pure left _) scope
  | .conditional _ branches (some body) =>
    obtain ⟨bodies, last⟩ := List.forall_mem_append.1 children
    exact firstBranch below sections branches bodies (fun scope => nodes below sections body last scope) scope
  | .foreach _ args body => exact rules.foreach (fun scope => nodes below sections body children scope) args scope
  | .counting _ args body => exact rules.counting (fun scope => nodes below sections body children scope) args scope
  | .inclusion _ args => exact inclusion below within scope
  | .component _ args defaultSlot slots => exact call below within scope
  | .slot _ _ => exact rules.pure left _
  | .directive _ name args raw => exact rules.directive name args raw scope

theorem nodes (below : Below rules left first second) (sections : Sections) (body : List Node)
    (within : ∀ node ∈ body, realm.node node) (scope : Scope) :
    rules.Steady left (Render.nodes first sections body scope) (Render.nodes second sections body scope) := by
  match body with
  | [] => exact rules.pure left _
  | head :: rest =>
    obtain ⟨here, others⟩ := List.forall_mem_cons.1 within
    apply rules.bind (node below sections head here scope)
    intro before _
    exact rules.bind (nodes below sections rest others scope) fun _ _ => rules.pure left _

theorem firstBranch (below : Below rules left first second) (sections : Sections)
    (branches : List (String × List Node)) (within : ∀ node ∈ branches.flatMap Prod.snd, realm.node node)
    {otherwise : Scope → Render engine String} {otherwise' : Scope → Render other String}
    (steady : ∀ scope, rules.Steady left (otherwise scope) (otherwise' scope)) (scope : Scope) :
    rules.Steady left (Render.firstBranch first sections branches otherwise scope)
      (Render.firstBranch second sections branches otherwise' scope) := by
  match branches with
  | [] => exact steady scope
  | (text, body) :: branches =>
    rw [List.flatMap_cons] at within
    obtain ⟨here, others⟩ := List.forall_mem_append.1 within
    apply rules.bind (rules.condition scope text)
    intro holds _
    split
    · exact nodes below sections body here scope
    · exact firstBranch below sections branches others steady scope
end

theorem capture (below : Below rules left first second) (scope : Scope) {body : List Node}
    (within : ∀ node ∈ body, realm.node node) (sections : Sections) :
    rules.Steady left (Render.capture first scope sections body) (Render.capture second scope sections body) := by
  induction body generalizing sections with
  | nil => exact rules.pure left _
  | cons head rest ih =>
    obtain ⟨here, others⟩ := List.forall_mem_cons.1 within
    cases head with
    | sectionBlock _ args body =>
      apply rules.bind (rules.nameArgument scope args)
      intro name _
      split
      · exact ih others sections
      · exact rules.bind (nodes below sections body (rules.closed.children here) scope) fun _ _ => ih others _
    | sectionInline _ args content =>
      apply rules.bind (rules.nameArgument scope args)
      intro name _
      split
      · exact ih others sections
      · exact rules.bind (rules.argument scope content) fun _ _ => ih others _
    | _ => exact ih others sections

theorem layout (below : Below rules left first second) (followed : Nat) (sections : Sections)
    {template : Template} (within : ∀ node ∈ template.nodes, realm.node node) (scope : Scope) :
    rules.Climbing left (Render.layout first followed sections template scope)
      (Render.layout second followed sections template scope) := by
  unfold Render.layout
  split
  next => exact rules.climbing (nodes below sections template.nodes within scope)
  next args extended =>
    rw [rules.sibling.nestedExtends]
    split
    · exact rules.climbing (nodes below sections template.nodes within scope)
    · apply rules.andClimb (capture below scope within sections)
      intro captured _
      apply rules.andClimb (rules.nameArgument scope _)
      intro reference names
      apply rules.andClimb (rules.resolveName reference)
      intro parent stands
      obtain ⟨span, mem⟩ := mem_of_extension? extended
      obtain ⟨asked, nodes⟩ := rules.closed.extension (within _ mem) ⟨scope, names⟩ stands
      apply rules.entering parent
      intro fewer same
      apply rules.andClimb (rules.template? fewer asked)
      intro found returned
      cases found with
      | none => exact rules.climbing (rules.fail fewer (by simp))
      | some parent =>
        exact below.layout fewer same (followed + 1) captured parent (nodes parent returned.template?) scope

theorem fragment (below : Below rules left first second) {template : Template}
    (within : ∀ node ∈ template.nodes, realm.node node) (scope : Scope) :
    rules.Steady left (Render.fragment first template scope) (Render.fragment second template scope) :=
  rules.unwinding (layout below 0 [] within scope)

theorem source (below : Below rules left first second) {text : String} (within : realm.text text) (scope : Scope) :
    rules.Steady left (Render.source first text scope) (Render.source second text scope) :=
  fragment below (rules.closed.text within) scope

theorem named (below : Below rules left first second) {reference : String}
    (opens : ∀ {name}, Stands engine reference name → realm.Opens engine name) (scope : Scope) :
    rules.Steady left (Render.named first reference scope) (Render.named second reference scope) := by
  apply rules.bind (rules.resolveName reference)
  intro name stands
  obtain ⟨asked, nodes⟩ := opens stands
  apply rules.bind (rules.template? left asked)
  intro found returned
  cases found with
  | none => exact rules.fail left (by simp)
  | some template => exact entered below (nodes template returned.template?) scope

theorem slotContents (below : Below rules left first second) (scope : Scope) {slots : Fields String}
    (texts : ∀ slot ∈ slots, realm.text slot.2) :
    rules.Steady left (Render.slotContents first scope slots) (Render.slotContents second scope slots) := by
  induction slots with
  | nil => exact rules.pure left _
  | cons slot slots ih =>
    obtain ⟨name, text⟩ := slot
    obtain ⟨here, others⟩ := List.forall_mem_cons.1 texts
    apply rules.bind (source below here scope)
    intro content _
    exact rules.bind (ih others) fun _ _ => rules.pure left _

theorem template (below : Below rules left first second) {body : Template}
    (within : ∀ node ∈ body.nodes, realm.node node) {use : Instance} (texts : ∀ slot ∈ use.slots, realm.text slot.2) :
    rules.Steady left (Render.template first body use) (Render.template second body use) := by
  unfold Render.template
  rw [rules.sibling.globals]
  apply rules.bind (slotContents below _ texts)
  intro contents _
  exact fragment below within _

theorem fragmentDefinition (below : Below rules left first second) {body : Template}
    (within : realm.definition (.fragment body)) (hops hops' : Nat) {use : Instance}
    (texts : ∀ slot ∈ use.slots, realm.text slot.2) :
    rules.Reporting left (definition first hops (.fragment body) use)
      (definition second hops' (.fragment body) use) := by
  have same := rules.reported (template below (rules.closed.fragment within) texts)
  cases hops <;> cases hops' <;> exact same

end Levels

theorem isNamed {reference : String} (asked : realm.asked reference) :
    rules.Steady left (engine.isNamed reference) (other.isNamed reference) := by
  unfold Engine.isNamed
  rw [rules.sibling.expand]
  split
  · exact rules.pure left true
  · exact rules.bind (rules.template? left asked) fun _ _ => rules.pure left _

/-- Each level is right if those below it are, and the lowest one is never asked: the stack
is full then. So only the components remain to be looked at. -/
theorem levels (gap : Nat)
    (defined : ∀ {left first second}, Below rules left first second → ∀ definition, realm.definition definition →
      ∀ use, (∀ slot ∈ use.slots, realm.text slot.2) → rules.Reporting left
        (Render.definition first (hopLimit engine) definition use)
        (Render.definition second (hopLimit other) definition use)) (left : Nat) :
    Below rules left (Render.levels engine left) (Render.levels other (gap + left)) := by
  induction left with
  | zero =>
    constructor
    · intro fewer impossible
      cases impossible
    · intro fewer impossible
      cases impossible
  | succ left ih =>
    constructor
    · intro fewer same followed sections template within scope
      cases same
      exact layout ih followed sections within scope
    · intro fewer same definition within use texts
      cases same
      exact defined ih definition within use texts

end Rules
end Render
end Stencil
