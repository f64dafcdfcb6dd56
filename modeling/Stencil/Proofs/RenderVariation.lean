import Stencil.Proofs.RenderEnding
import Stencil.Proofs.RenderUniform
import Stencil.Proofs.SafeTexts

/-! One thing rendered over data that varies. Whatever decides the course of a rendering is the same for all
the data, so all the renderings go the same way and differ only in what they print. What may be printed and
which nodes print nothing else is left open here. -/

namespace Stencil

variable {ι : Type} {engine : Engine} {globals : ι → Scope}

namespace Render
open Template

/-- The texts of a node whose values decide what becomes of it. -/
def evaluated : Node → List String
  | .sectionBlock _ args _ | .sectionInline _ args _ => [args]
  | .extension _ args | .yield _ args | .inclusion _ args => [(Argument.list args).headD ""]
  | .conditional _ branches _ => branches.map Prod.fst
  | .foreach _ args _ => (Loop.foreachHeader? args).toList.map Prod.fst
  | .counting _ args _ => (Loop.Counter.ofArgs? args).toList.map Loop.Counter.limit
  | .component _ args _ slots => (Argument.list args).headD "" :: slots.map Slot.args
  | .text .. | .echo .. | .slot .. | .directive .. => []

/-- The arguments of a node that are printed or passed on. -/
def given : Node → List String
  | .sectionInline _ _ content => [content]
  | .yield _ args => [String.intercalate ", " (Argument.list args).tail]
  | .inclusion _ args | .component _ args _ _ => (Argument.list args)[1]?.toList
  | _ => []

/-- The texts that a component is given for the slots outside of which a body stands, or none if that is blank. -/
def unnamedTexts (defaultSlot : String) : Fields String :=
  if (Text.trim defaultSlot.toList).isEmpty then [] else [(defaultSlotName, defaultSlot)]

/-- What slots have printed. -/
def contentsUnder (contents : Fields (ι → String)) (i : ι) : Fields Value :=
  List.map (fun (name, texts) => (name, .safe (texts i))) contents

/-- The scopes of a loop over items that do not vary. -/
def rounds (scopes : ι → Scope) (name : String) (items : List Value) : List (ι → Scope) :=
  (items.zip (List.range items.length)).map fun round i =>
    ((scopes i).child.insert name round.1).insert "loop" (Loop.info round.2 items.length)

/-- What is rendered over data that varies, and what that may print. -/
structure Variation (ι : Type) (engine : Engine) where
  globals : ι → Scope
  /-- The texts that are marked as safe in what does not vary. -/
  trusted : String → Prop
  /-- The texts that may be printed. -/
  prints : (ι → String) → Prop
  /-- The scopes that may come up. -/
  sees : (ι → Scope) → Prop
  /-- The contents that a slot of a name may have. -/
  holds : String → (ι → String) → Prop
  /-- The nodes that may come up. -/
  node : Node → Prop

namespace Variation

/-- A slot whose text is read again and has such contents. -/
def Fills (variation : Variation ι engine) (name text : String) : Prop :=
  (∀ node ∈ (read text).1, variation.node node) ∧ (∀ texts, variation.prints texts → variation.holds name texts) ∨
    ∀ left scopes, variation.sees scopes → Uniform (variation.holds name)
      fun i => source (levels (engine.sharing (variation.globals i)) left) text (scopes i)

/-- The course of a rendering does not vary, and all that comes up in it is accounted for. -/
structure Lawful (variation : Variation ι engine) : Prop where
  nothing : variation.prints fun _ => ""
  append : ∀ {first second}, variation.prints first → variation.prints second →
    variation.prints fun i => first i ++ second i
  escaped : ∀ {value : Value}, value.Trusts variation.trusted → variation.prints fun _ => escaped value
  shared : variation.sees variation.globals
  within : ∀ {scopes} {fields : Fields Value}, variation.sees scopes →
    (∀ field ∈ fields, field.2.Trusts variation.trusted) → variation.sees fun i => (scopes i).childWith fields
  insert : ∀ {scopes} name {value : Value}, variation.sees scopes → value.Trusts variation.trusted →
    variation.sees fun i => (scopes i).insert name value
  slots : ∀ {scopes contents}, variation.sees scopes → (∀ part ∈ contents, variation.holds part.1 part.2) →
    variation.sees fun i => bindSlots (scopes i) (contentsUnder contents i)
  children : ∀ {outer}, variation.node outer → ∀ inner ∈ outer.children, variation.node inner
  evaluated : ∀ {node}, variation.node node → ∀ text ∈ evaluated node, ∀ {scopes}, variation.sees scopes →
    ∃ value : Value, value.Trusts variation.trusted ∧ ∀ i, (scopes i).value text = value
  given : ∀ {node}, variation.node node → ∀ text ∈ given node, ∀ {scopes}, variation.sees scopes →
    ∃ value : Value, value.Trusts variation.trusted ∧ ∀ i, (scopes i).argument text = value
  text : ∀ {span text}, variation.node (.text span text) → variation.prints fun _ => text
  echo : ∀ {span expression escape scopes}, variation.node (.echo span expression escape) → variation.sees scopes →
    variation.prints fun i => if escape then Render.escaped ((scopes i).value expression)
      else ((scopes i).value expression).display
  directive : ∀ {span name args raw scopes}, variation.node (.directive span name args raw) → variation.sees scopes →
    Uniform variation.prints fun i =>
      (directive name args raw (scopes i) : Render (engine.sharing (variation.globals i)) String)
  inclusion : ∀ {span args scopes reference name}, variation.node (.inclusion span args) → variation.sees scopes →
    (∀ i, nameIn (scopes i) ((Argument.list args).headD "") = reference) → engine.resolved reference = .ok name →
    (variation.prints fun _ => comment "include not found" name) ∧
      ∀ template, engine.template? name = some template → ∀ node ∈ template.nodes, variation.node node
  extension : ∀ {span args scopes reference name}, variation.node (.extension span args) → variation.sees scopes →
    (∀ i, nameIn (scopes i) ((Argument.list args).headD "") = reference) → engine.resolved reference = .ok name →
    ∀ template, engine.template? name = some template → ∀ node ∈ template.nodes, variation.node node
  call : ∀ {span args defaultSlot slots scopes name}, variation.node (.component span args defaultSlot slots) →
    variation.sees scopes → (∀ i, nameIn (scopes i) ((Argument.list args).headD "") = name) →
    (variation.prints fun _ => comment "component not found" name) ∧
      (variation.prints fun _ => comment "component error" name) ∧
      ∀ resolved component, engine.reached? name = some (resolved, component) →
        ∃ body, component = .fragment body ∧ ∀ node ∈ body.nodes, variation.node node
  filled : ∀ {span args defaultSlot slots scopes texts}, variation.node (.component span args defaultSlot slots) →
    variation.sees scopes → (∀ i, slotTextsIn (scopes i) (unnamedTexts defaultSlot) slots = texts) →
    ∀ entry ∈ texts, variation.Fills entry.1 entry.2

variable {variation : Variation ι engine}

/-- A component gives a text that may be printed, or it fails for all the data alike. -/
def Reports (variation : Variation ι engine) (results : ι → Except ComponentError String) : Prop :=
  (∃ error, results = fun _ => .error error) ∨ ∃ texts, variation.prints texts ∧ results = fun i => .ok (texts i)

/-- What is known of all that is rendered with so many levels left. -/
structure Below (variation : Variation ι engine) (left : Nat) : Prop where
  layout : ∀ followed {sections : Fields (ι → String)}, (∀ part ∈ sections, variation.prints part.2) →
    ∀ {template : Template}, (∀ node ∈ template.nodes, variation.node node) → ∀ {scopes}, variation.sees scopes →
    Uniform variation.prints fun i =>
      (levels (engine.sharing (variation.globals i)) left).layout followed (sections.under i) template (scopes i)
  component : ∀ {body : Template}, (∀ node ∈ body.nodes, variation.node node) → ∀ name {props : Fields Value},
    (∀ field ∈ props, field.2.Trusts variation.trusted) → ∀ {texts : Fields String},
    (∀ entry ∈ texts, variation.Fills entry.1 entry.2) → Uniform variation.Reports fun i =>
      (levels (engine.sharing (variation.globals i)) left).component (.fragment body) ⟨name, props, texts⟩

section Parts
variable (lawful : variation.Lawful) {scopes : ι → Scope} (seen : variation.sees scopes)
include lawful seen

theorem Lawful.name {node : Node} (within : variation.node node) {text : String} (mem : text ∈ Render.evaluated node) :
    ∃ name, ∀ i, nameIn (scopes i) text = name := by
  obtain ⟨value, _, same⟩ := lawful.evaluated within text mem seen
  unfold nameIn
  cases Argument.stringLiteral? text.toList with
  | some name => exact ⟨_, fun _ => rfl⟩
  | none => exact ⟨_, fun i => by rw [Evaluator.evaluate_fst, same]⟩

theorem Lawful.names {node : Node} (within : variation.node node) {slots : List Slot}
    (mem : ∀ slot ∈ slots, slot.args ∈ Render.evaluated node) (texts : Fields String) :
    ∃ named, ∀ i, slotTextsIn (scopes i) texts slots = named := by
  induction slots generalizing texts with
  | nil => exact ⟨texts, fun _ => rfl⟩
  | cons slot slots ih =>
    obtain ⟨here, others⟩ := List.forall_mem_cons.1 mem
    obtain ⟨name, same⟩ := lawful.name seen within here
    obtain ⟨named, later⟩ := ih others (texts.insert name slot.raw)
    refine ⟨named, fun i => ?_⟩
    rw [← later i, ← same i]
    rfl

theorem Lawful.fields {node : Node} (within : variation.node node) {text : Option String}
    (mem : ∀ given ∈ text, given ∈ Render.given node) :
    ∃ fields : Fields Value, (∀ field ∈ fields, field.2.Trusts variation.trusted) ∧
      ∀ i, fieldsIn (scopes i) text = fields := by
  cases text with
  | none => exact ⟨[], List.forall_mem_nil _, fun _ => rfl⟩
  | some text =>
    obtain ⟨value, trusts, same⟩ := lawful.given within text (mem text rfl) seen
    refine ⟨value.fields, fun field inside => ?_, fun i => ?_⟩
    · cases value with
      | object fields => exact Value.Trusts.object.1 trusts field inside
      | _ => cases inside
    · rw [fieldsIn, Evaluator.argument_fst, same]

end Parts

section Walk
variable (lawful : variation.Lawful) {left : Nat}

omit lawful in
theorem Below.entering (below : variation.Below left) {template : Template}
    (within : ∀ node ∈ template.nodes, variation.node node) {scopes : ι → Scope} (seen : variation.sees scopes) :
    Uniform variation.prints fun i =>
      Render.entering (levels (engine.sharing (variation.globals i)) left) template (scopes i) :=
  .within template.name (.unwinding (below.layout 0 (List.forall_mem_nil _) within seen))

omit lawful in
/-- A section that has been captured, or else what stands in its place. -/
theorem section_or {sections : Fields (ι → String)} (printed : ∀ part ∈ sections, variation.prints part.2) (name : String)
    {otherwise : ∀ i, Render (engine.sharing (variation.globals i)) String} (uniform : Uniform variation.prints otherwise) :
    Uniform variation.prints fun i =>
      match (sections.under i).find? name with
      | some content => return content
      | none => otherwise i := by
  simp only [Fields.find?_under]
  cases found : sections.find? name with
  | none => exact uniform
  | some content =>
    exact .pure (printed _ (Fields.mem_of_find? found))

include lawful

theorem printed_argument_uniform {node : Node} (within : variation.node node) {text : String}
    (mem : text ∈ Render.given node) {scopes : ι → Scope} (seen : variation.sees scopes) :
    Uniform variation.prints fun i =>
      ((do return Render.escaped (← argument (scopes i) text)) : Render (engine.sharing (variation.globals i)) String) := by
  obtain ⟨value, trusts, same⟩ := lawful.given within text mem seen
  apply Uniform.bind (.argument text)
  rintro _ rfl
  simp only [same]
  exact .pure (lawful.escaped trusts)

section Loops
variable {body : ∀ i, Scope → Render (engine.sharing (variation.globals i)) String}

theorem each_uniform (uniform : ∀ {scopes}, variation.sees scopes → Uniform variation.prints fun i => body i (scopes i))
    {rows : List (ι → Scope)} (seen : ∀ row ∈ rows, variation.sees row) {output : ι → String}
    (printed : variation.prints output) :
    Uniform variation.prints fun i => Render.each (body i) (output i) (rows.map (· i)) := by
  induction rows generalizing output with
  | nil => exact .pure printed
  | cons row rows ih =>
    obtain ⟨here, others⟩ := List.forall_mem_cons.1 seen
    apply Uniform.bind (uniform here)
    intro texts further
    exact ih others (lawful.append printed further)

omit lawful in
theorem itemScopes_eq_rounds (scopes : ι → Scope) (name : String) (items : List Value) (i : ι) :
    itemScopes (scopes i) name items = (rounds scopes name items).map (· i) := by
  rw [itemScopes, rounds, List.map_map]
  rfl

theorem foreach_uniform (uniform : ∀ {scopes}, variation.sees scopes → Uniform variation.prints fun i => body i (scopes i))
    {span : Text.Span} {args : String} {inner : List Node} (within : variation.node (.foreach span args inner))
    {scopes : ι → Scope} (seen : variation.sees scopes) :
    Uniform variation.prints fun i => Render.foreach args (body i) (scopes i) := by
  unfold Render.foreach
  cases header : Loop.foreachHeader? args with
  | none => exact .pure lawful.nothing
  | some header' =>
    obtain ⟨collection, name⟩ := header'
    have mem : collection ∈ Render.evaluated (.foreach span args inner) := by
      rw [Render.evaluated, header]
      exact List.mem_singleton_self _
    obtain ⟨value, trusts, same⟩ := lawful.evaluated within collection mem seen
    apply Uniform.bind (.evaluate collection)
    rintro _ rfl
    simp only [same]
    cases value with
    | array items =>
      simp only [Value.array?, itemScopes_eq_rounds]
      refine each_uniform lawful uniform (List.forall_mem_map.2 fun round mem => ?_) lawful.nothing
      have trusted := Value.Trusts.array.1 trusts round.1 (List.of_mem_zip mem).1
      exact lawful.insert "loop" (lawful.insert name (lawful.within seen (List.forall_mem_nil _)) trusted)
        (.of_unmarked rfl)
    | _ => exact .pure lawful.nothing

theorem count_uniform (goesOn : Int → Bool) (step : Int)
    {body : ∀ i, Int → Render (engine.sharing (variation.globals i)) String}
    (uniform : ∀ current, Uniform variation.prints fun i => body i current) (rounds : Nat) (current : Int)
    {output : ι → String} (printed : variation.prints output) :
    Uniform variation.prints fun i => Render.count goesOn step (body i) rounds current (output i) := by
  induction rounds generalizing current output with
  | zero =>
    unfold Render.count
    cases goesOn current with
    | true => exact .pure lawful.nothing
    | false => exact .pure printed
  | succ rounds ih =>
    unfold Render.count
    cases goesOn current with
    | true =>
      apply Uniform.bind (uniform current)
      intro texts further
      exact ih _ (lawful.append printed further)
    | false => exact .pure printed

theorem counting_uniform
    (uniform : ∀ {scopes}, variation.sees scopes → Uniform variation.prints fun i => body i (scopes i))
    {span : Text.Span} {args : String} {inner : List Node} (within : variation.node (.counting span args inner))
    {scopes : ι → Scope} (seen : variation.sees scopes) :
    Uniform variation.prints fun i => Render.counting args (body i) (scopes i) := by
  unfold Render.counting
  cases header : Loop.Counter.ofArgs? args with
  | none => exact .pure lawful.nothing
  | some counter =>
    have mem : counter.limit ∈ Render.evaluated (.counting span args inner) := by
      rw [Render.evaluated, header]
      exact List.mem_singleton_self _
    obtain ⟨value, _, same⟩ := lawful.evaluated within counter.limit mem seen
    dsimp only
    split
    · exact .pure lawful.nothing
    · apply Uniform.bind (.evaluate counter.limit)
      rintro _ rfl
      simp only [same, Engine.config_sharing]
      cases value.number?.or (engine.config.loopFallback.map Float.ofNat) with
      | none => exact .pure lawful.nothing
      | some limit =>
        have round (current : Int) : Uniform variation.prints fun i =>
            body i ((scopes i).child.insert counter.name (.number (Float.ofInt current))) :=
          uniform (lawful.insert counter.name (lawful.within seen (List.forall_mem_nil _)) (.of_unmarked rfl))
        exact count_uniform lawful (counter.holds limit) counter.step round engine.config.maxLoopIterations counter.start
          lawful.nothing

end Loops
theorem inclusion_uniform (below : variation.Below left) {span : Text.Span} {args : String}
    (within : variation.node (.inclusion span args)) {scopes : ι → Scope} (seen : variation.sees scopes) :
    Uniform variation.prints fun i =>
      Render.inclusion (levels (engine.sharing (variation.globals i)) left) args (scopes i) := by
  obtain ⟨reference, named⟩ := lawful.name seen within (List.mem_singleton_self _)
  obtain ⟨data, trusts, same⟩ := lawful.fields seen within fun text found => Option.mem_toList.2 found
  unfold Render.inclusion
  apply Uniform.bind (.nameArgument _)
  rintro _ rfl
  simp only [named]
  apply Uniform.bind (.resolveName reference)
  rintro _ ⟨name, resolved, rfl⟩
  obtain ⟨missing, nodes⟩ := lawful.inclusion within seen named resolved
  apply Uniform.bind (.fieldsArgument _)
  rintro _ rfl
  simp only [same]
  apply Uniform.bind (.template? name)
  rintro _ rfl
  cases found : engine.template? name with
  | none => exact .pure missing
  | some template => exact below.entering (nodes template found) (lawful.within seen trusts)

omit lawful in
theorem outcome_uniform {name : String} (failed : variation.prints fun _ => comment "component error" name)
    {results : ι → Except ComponentError String} (reports : variation.Reports results) :
    Uniform variation.prints fun i =>
      (outcome name (results i) : Render (engine.sharing (variation.globals i)) String) := by
  rcases reports with ⟨error, rfl⟩ | ⟨texts, printed, rfl⟩
  · unfold outcome
    cases error with
    | render error =>
      cases error with
      | recursionLimit limit chain => exact .fail _
      | _ => exact .pure failed
    | _ => exact .pure failed
  · exact .pure printed

omit lawful in
theorem component_uniform (below : variation.Below left) {name : String}
    (missing : variation.prints fun _ => comment "component not found" name)
    (failed : variation.prints fun _ => comment "component error" name)
    (components : ∀ resolved component, engine.reached? name = some (resolved, component) →
      ∃ body, component = .fragment body ∧ ∀ node ∈ body.nodes, variation.node node)
    {props : Fields Value} (trusts : ∀ field ∈ props, field.2.Trusts variation.trusted) {texts : Fields String}
    (filled : ∀ entry ∈ texts, variation.Fills entry.1 entry.2) :
    Uniform variation.prints fun i =>
      Render.component (levels (engine.sharing (variation.globals i)) left) name props texts := by
  unfold Render.component
  apply Uniform.bind (.component? name)
  rintro _ rfl
  cases reached : engine.reached? name with
  | none => exact .pure missing
  | some found =>
    obtain ⟨resolved, component⟩ := found
    obtain ⟨body, rfl, nodes⟩ := components resolved component reached
    exact .bind (.within resolved (below.component nodes resolved trusts filled)) fun results reports =>
      outcome_uniform failed reports

theorem call_uniform (below : variation.Below left) {span : Text.Span} {args defaultSlot : String} {slots : List Slot}
    (within : variation.node (.component span args defaultSlot slots)) {scopes : ι → Scope}
    (seen : variation.sees scopes) :
    Uniform variation.prints fun i =>
      Render.call (levels (engine.sharing (variation.globals i)) left) args defaultSlot slots (scopes i) := by
  obtain ⟨name, named⟩ := lawful.name seen within List.mem_cons_self
  obtain ⟨props, trusts, same⟩ := lawful.fields seen within fun text found => Option.mem_toList.2 found
  obtain ⟨texts, filled⟩ := lawful.names seen within
    (fun slot mem => List.mem_cons_of_mem _ (List.mem_map_of_mem mem)) (unnamedTexts defaultSlot)
  obtain ⟨missing, failed, components⟩ := lawful.call within seen named
  unfold Render.call
  apply Uniform.bind (.nameArgument _)
  rintro _ rfl
  simp only [named]
  apply Uniform.bind (.fieldsArgument _)
  rintro _ rfl
  simp only [same]
  apply Uniform.bind (.slotTexts (unnamedTexts defaultSlot) slots)
  rintro _ rfl
  simp only [filled]
  apply Uniform.bind (.resolveName name)
  rintro _ ⟨_, _, rfl⟩
  exact component_uniform below missing failed components trusts (lawful.filled within seen filled)

end Walk

section Nodes
variable {left : Nat}

mutual
theorem node_uniform (lawful : variation.Lawful) (below : variation.Below left) {sections : Fields (ι → String)}
    (printed : ∀ part ∈ sections, variation.prints part.2) (node : Node) (within : variation.node node)
    {scopes : ι → Scope} (seen : variation.sees scopes) :
    Uniform variation.prints fun i =>
      Render.node (levels (engine.sharing (variation.globals i)) left) (sections.under i) node (scopes i) := by
  have children := lawful.children within
  match node with
  | .text _ text => exact .pure (lawful.text within)
  | .echo _ expression escape =>
    apply Uniform.bind (.evaluate expression)
    rintro _ rfl
    exact .pure (lawful.echo within seen)
  | .extension _ _ => exact .pure lawful.nothing
  | .sectionBlock _ args body =>
    obtain ⟨name, named⟩ := lawful.name seen within (List.mem_singleton_self _)
    apply Uniform.bind (.nameArgument args)
    rintro _ rfl
    simp only [named]
    exact section_or printed name (nodes_uniform lawful below printed body children seen)
  | .sectionInline _ args content =>
    obtain ⟨name, named⟩ := lawful.name seen within (List.mem_singleton_self _)
    apply Uniform.bind (.nameArgument args)
    rintro _ rfl
    simp only [named]
    exact section_or printed name (printed_argument_uniform lawful within (List.mem_singleton_self _) seen)
  | .yield _ args =>
    obtain ⟨name, named⟩ := lawful.name seen within (List.mem_singleton_self _)
    apply Uniform.bind (.nameArgument _)
    rintro _ rfl
    simp only [named]
    apply section_or printed name
    split
    · exact .pure lawful.nothing
    · exact printed_argument_uniform lawful within (List.mem_singleton_self _) seen
  | .conditional _ branches none =>
    obtain ⟨bodies, _⟩ := List.forall_mem_append.1 children
    exact firstBranch_uniform lawful below printed branches bodies (fun text mem => lawful.evaluated within text mem)
      (fun _ => .pure lawful.nothing) seen
  | .conditional _ branches (some body) =>
    obtain ⟨bodies, last⟩ := List.forall_mem_append.1 children
    exact firstBranch_uniform lawful below printed branches bodies (fun text mem => lawful.evaluated within text mem)
      (fun seen => nodes_uniform lawful below printed body last seen) seen
  | .foreach _ args body => exact foreach_uniform lawful (fun seen => nodes_uniform lawful below printed body children seen) within seen
  | .counting _ args body => exact counting_uniform lawful (fun seen => nodes_uniform lawful below printed body children seen) within seen
  | .inclusion _ args => exact inclusion_uniform lawful below within seen
  | .component _ args defaultSlot slots => exact call_uniform lawful below within seen
  | .slot _ _ => exact .pure lawful.nothing
  | .directive _ name args raw => exact lawful.directive within seen

theorem nodes_uniform (lawful : variation.Lawful) (below : variation.Below left) {sections : Fields (ι → String)}
    (printed : ∀ part ∈ sections, variation.prints part.2) (body : List Node)
    (within : ∀ node ∈ body, variation.node node) {scopes : ι → Scope} (seen : variation.sees scopes) :
    Uniform variation.prints fun i =>
      Render.nodes (levels (engine.sharing (variation.globals i)) left) (sections.under i) body (scopes i) := by
  match body with
  | [] => exact .pure lawful.nothing
  | head :: rest =>
    obtain ⟨here, others⟩ := List.forall_mem_cons.1 within
    apply Uniform.bind (node_uniform lawful below printed head here seen)
    intro before first
    apply Uniform.bind (nodes_uniform lawful below printed rest others seen)
    intro after second
    exact .pure (lawful.append first second)

theorem firstBranch_uniform (lawful : variation.Lawful) (below : variation.Below left) {sections : Fields (ι → String)}
    (printed : ∀ part ∈ sections, variation.prints part.2) (branches : List (String × List Node))
    (within : ∀ node ∈ branches.flatMap Prod.snd, variation.node node)
    (same : ∀ text ∈ branches.map Prod.fst, ∀ {scopes}, variation.sees scopes →
      ∃ value : Value, value.Trusts variation.trusted ∧ ∀ i, (scopes i).value text = value)
    {otherwise : ∀ i, Scope → Render (engine.sharing (variation.globals i)) String}
    (uniform : ∀ {scopes}, variation.sees scopes → Uniform variation.prints fun i => otherwise i (scopes i))
    {scopes : ι → Scope} (seen : variation.sees scopes) :
    Uniform variation.prints fun i =>
      Render.firstBranch (levels (engine.sharing (variation.globals i)) left) (sections.under i) branches
        (otherwise i) (scopes i) := by
  match branches with
  | [] => exact uniform seen
  | (text, body) :: branches =>
    rw [List.flatMap_cons] at within
    obtain ⟨here, others⟩ := List.forall_mem_append.1 within
    obtain ⟨first, later⟩ := List.forall_mem_cons.1 same
    obtain ⟨value, _, decided⟩ := first seen
    apply Uniform.bind (.condition text)
    rintro _ rfl
    simp only [decided]
    cases value.isTruthy with
    | true => exact nodes_uniform lawful below printed body here seen
    | false => exact firstBranch_uniform lawful below printed branches others later uniform seen
end

end Nodes

section Levels
variable (lawful : variation.Lawful) {left : Nat}
include lawful

theorem capture_uniform (below : variation.Below left) {scopes : ι → Scope} (seen : variation.sees scopes)
    {body : List Node} (within : ∀ node ∈ body, variation.node node) {sections : Fields (ι → String)}
    (printed : ∀ part ∈ sections, variation.prints part.2) :
    Uniform (fun captured => ∃ parts : Fields (ι → String),
        (∀ part ∈ parts, variation.prints part.2) ∧ captured = fun i => parts.under i)
      fun i => capture (levels (engine.sharing (variation.globals i)) left) (scopes i) (sections.under i) body := by
  induction body generalizing sections with
  | nil => exact .pure ⟨sections, printed, rfl⟩
  | cons head rest ih =>
    obtain ⟨here, others⟩ := List.forall_mem_cons.1 within
    -- A name that is taken leaves what there is, and any other is given what its section prints.
    have further (name : String) {action : ∀ i, Render (engine.sharing (variation.globals i)) String}
        (uniform : Uniform variation.prints action) :
        Uniform (fun captured => ∃ parts : Fields (ι → String),
            (∀ part ∈ parts, variation.prints part.2) ∧ captured = fun i => parts.under i)
          fun i => if (sections.under i).contains name then
              capture (levels (engine.sharing (variation.globals i)) left) (scopes i) (sections.under i) rest
            else action i >>= fun text => capture (levels (engine.sharing (variation.globals i)) left) (scopes i)
              ((sections.under i).insert name text) rest := by
      simp only [Fields.contains_under]
      split
      · exact ih others printed
      · apply Uniform.bind uniform
        intro text given
        simp only [← Fields.insert_under]
        refine ih others fun part mem => ?_
        rcases Fields.mem_insert mem with rfl | before
        · exact given
        · exact printed part before
    cases found : head.section? with
    | none =>
      simp only [capture_other found]
      exact ih others printed
    | some part =>
      simp only [capture_section found]
      cases head with
      | sectionBlock _ args body =>
        cases found
        obtain ⟨name, named⟩ := lawful.name seen here (List.mem_singleton_self _)
        apply Uniform.bind (.nameArgument args)
        rintro _ rfl
        simp only [named]
        exact further name (nodes_uniform lawful below printed body (lawful.children here) seen)
      | sectionInline _ args content =>
        cases found
        obtain ⟨name, named⟩ := lawful.name seen here (List.mem_singleton_self _)
        apply Uniform.bind (.nameArgument args)
        rintro _ rfl
        simp only [named]
        exact further name (printed_argument_uniform lawful here (List.mem_singleton_self _) seen)
      | _ => cases found

theorem layout_uniform (below : variation.Below left) (followed : Nat) {sections : Fields (ι → String)}
    (printed : ∀ part ∈ sections, variation.prints part.2) {template : Template}
    (within : ∀ node ∈ template.nodes, variation.node node) {scopes : ι → Scope} (seen : variation.sees scopes) :
    Uniform variation.prints fun i => Render.layout (levels (engine.sharing (variation.globals i)) left) followed
      (sections.under i) template (scopes i) := by
  have nodes := nodes_uniform lawful below printed template.nodes within seen
  unfold Render.layout
  cases extended : extension? template.nodes with
  | none => exact nodes
  | some args =>
    change Uniform _ fun i => (if 0 < followed && !engine.config.nestedExtends then _ else _ :
      Render (engine.sharing (variation.globals i)) String)
    split
    · exact nodes
    · obtain ⟨span, mem⟩ := mem_of_extension? extended
      obtain ⟨reference, named⟩ := lawful.name seen (within _ mem) (List.mem_singleton_self _)
      apply Uniform.bind (capture_uniform lawful below seen within printed)
      rintro _ ⟨parts, captured, rfl⟩
      apply Uniform.bind (.nameArgument _)
      rintro _ rfl
      simp only [named]
      apply Uniform.bind (.resolveName reference)
      rintro _ ⟨parent, resolved, rfl⟩
      apply Uniform.bind (.enter parent)
      intro _ _
      apply Uniform.bind (.template? parent)
      rintro _ rfl
      cases found : engine.template? parent with
      | none => exact .fail _
      | some layout =>
        exact below.layout (followed + 1) captured (lawful.extension (within _ mem) seen named resolved layout found) seen

theorem fragment_uniform (below : variation.Below left) {template : Template}
    (within : ∀ node ∈ template.nodes, variation.node node) {scopes : ι → Scope} (seen : variation.sees scopes) :
    Uniform variation.prints fun i =>
      Render.fragment (levels (engine.sharing (variation.globals i)) left) template (scopes i) :=
  .unwinding (layout_uniform lawful below 0 (List.forall_mem_nil _) within seen)

theorem slotContents_uniform (below : variation.Below left) {scopes : ι → Scope} (seen : variation.sees scopes)
    {texts : Fields String} (filled : ∀ entry ∈ texts, variation.Fills entry.1 entry.2) :
    Uniform (fun contents => ∃ parts : Fields (ι → String),
        (∀ part ∈ parts, variation.holds part.1 part.2) ∧ contents = contentsUnder parts)
      fun i => slotContents (levels (engine.sharing (variation.globals i)) left) (scopes i) texts := by
  induction texts with
  | nil => exact .pure ⟨[], List.forall_mem_nil _, rfl⟩
  | cons entry texts ih =>
    obtain ⟨name, text⟩ := entry
    obtain ⟨here, others⟩ := List.forall_mem_cons.1 filled
    have content : Uniform (variation.holds name)
        fun i => source (levels (engine.sharing (variation.globals i)) left) text (scopes i) := by
      rcases here with ⟨nodes, allowed⟩ | known
      · exact (fragment_uniform lawful below nodes seen).mono allowed
      · exact known left scopes seen
    apply Uniform.bind content
    intro content holds
    apply Uniform.bind (ih others)
    rintro _ ⟨parts, held, rfl⟩
    exact .pure ⟨(name, content) :: parts, List.forall_mem_cons.2 ⟨holds, held⟩, rfl⟩

theorem template_uniform (below : variation.Below left) {body : Template}
    (within : ∀ node ∈ body.nodes, variation.node node) (name : String) {props : Fields Value}
    (trusts : ∀ field ∈ props, field.2.Trusts variation.trusted) {texts : Fields String}
    (filled : ∀ entry ∈ texts, variation.Fills entry.1 entry.2) :
    Uniform variation.prints fun i =>
      Render.template (levels (engine.sharing (variation.globals i)) left) body ⟨name, props, texts⟩ := by
  have seen := lawful.within lawful.shared trusts
  apply Uniform.bind (slotContents_uniform lawful below seen filled)
  rintro _ ⟨parts, held, rfl⟩
  exact fragment_uniform lawful below within (lawful.slots seen held)

/-- Each level is right if the one below it is, and on the lowest nothing is rendered at all. -/
theorem below_uniform (left : Nat) : variation.Below left := by
  induction left with
  | zero => exact ⟨fun _ _ _ _ _ _ _ => .unending, fun _ _ _ _ _ _ => .unending⟩
  | succ left ih =>
    constructor
    · intro followed sections printed template within scopes seen
      exact layout_uniform lawful ih followed printed within seen
    · intro body within name props trusts texts filled
      exact (template_uniform lawful ih within name trusts filled).reported

end Levels

/-- Source over data that varies prints what it may print, or it fails for all the data alike. -/
theorem source_uniform (lawful : variation.Lawful) {text : String} (within : ∀ node ∈ (read text).1, variation.node node)
    {scopes : ι → Scope} (seen : variation.sees scopes) :
    Uniform variation.prints fun i => (onStack fun below => source below text (scopes i) :
      Render (engine.sharing (variation.globals i)) String) :=
  .onStack fun left => fragment_uniform lawful (below_uniform lawful left) within seen

theorem named_uniform (lawful : variation.Lawful) {reference : String}
    (opens : ∀ name template, engine.resolved reference = .ok name → engine.template? name = some template →
      ∀ node ∈ template.nodes, variation.node node) {scopes : ι → Scope} (seen : variation.sees scopes) :
    Uniform variation.prints fun i => (onStack fun below => named below reference (scopes i) :
      Render (engine.sharing (variation.globals i)) String) := by
  apply Uniform.onStack
  intro left
  apply Uniform.bind (.resolveName reference)
  rintro _ ⟨name, resolved, rfl⟩
  apply Uniform.bind (.template? name)
  rintro _ rfl
  cases found : engine.template? name with
  | none => exact .fail _
  | some template => exact (below_uniform lawful left).entering (opens name template resolved found) seen

end Variation
end Render

namespace Engine
open Render Template

/-- What an engine is asked to render: the template of a name, or source. -/
inductive Page where
  | named (reference : String)
  | inline (source : String)

def Page.request (page : Page) (data : Value) : Request :=
  match page with
  | .named reference => .render reference data
  | .inline text => .inline text data

/-- Whether a text is the name of a template rather than source. -/
def Named (engine : Engine) (reference : String) : Prop :=
  (decide (engine.config.expand reference ≠ .plain) || Template.isName reference) = true ∨
    (engine.template? reference).isSome = true

/-- The nodes that a page begins with. -/
inductive Page.Opens (engine : Engine) : Page → Node → Prop where
  | named {reference name : String} {template : Template} {node : Node} (resolved : engine.resolved reference = .ok name)
      (found : engine.template? name = some template) (mem : node ∈ template.nodes) : Opens engine (.named reference) node
  | unnamed {reference : String} {node : Node} (unnamed : ¬ engine.Named reference) (mem : node ∈ (read reference).1) :
      Opens engine (.named reference) node
  | inline {source : String} {node : Node} (mem : node ∈ (read source).1) : Opens engine (.inline source) node

theorem isNamed_uniform (reference : String) : Uniform (fun named => ∃ known, (known = true ↔ engine.Named reference) ∧
    named = fun _ => known) fun i => ((engine.sharing (globals i)).isNamed reference) := by
  unfold isNamed
  change Uniform _ fun i => (if engine.config.expand reference ≠ .plain || Template.isName reference then _ else _ :
    Render (engine.sharing (globals i)) Bool)
  by_cases plainly : (decide (engine.config.expand reference ≠ .plain) || Template.isName reference) = true
  · simp only [if_pos plainly]
    exact .pure ⟨true, ⟨fun _ => .inl plainly, fun _ => rfl⟩, rfl⟩
  · simp only [if_neg plainly]
    apply Uniform.bind (.template? reference)
    rintro _ rfl
    exact .pure ⟨_, ⟨.inr, fun named => named.resolve_left plainly⟩, rfl⟩

theorem page_uniform {variation : Variation ι engine} (lawful : variation.Lawful) (page : Page)
    (within : ∀ node, page.Opens engine node → variation.node node) {data : ι → Value}
    (seen : variation.sees fun i => (variation.globals i).childWith (data i).fields) :
    Uniform variation.prints
      fun i => (page.request (data i)).action (engine.sharing (variation.globals i)) := by
  have sourced {text : String} (nodes : ∀ node ∈ (read text).1, variation.node node) :
      Uniform variation.prints fun i => (onStack fun below => Render.source below text
        ((engine.sharing (variation.globals i)).dataScope (data i)) : Render (engine.sharing (variation.globals i)) _) :=
    Variation.source_uniform lawful nodes seen
  cases page with
  | inline text => exact sourced fun node mem => within node (.inline mem)
  | named reference =>
    change Uniform _ fun i => rendering (engine.sharing (variation.globals i)) reference (data i)
    unfold rendering
    apply Uniform.bind (isNamed_uniform reference)
    rintro _ ⟨known, named, rfl⟩
    cases known with
    | true =>
      exact Variation.named_uniform lawful (fun _ _ resolved found node mem => within node (.named resolved found mem)) seen
    | false => exact sourced fun node mem => within node (.unnamed (by simp [← named]) mem)

theorem Request.answer_fixed (request : Request) (evaluator : Evaluator) :
    (request.answer engine evaluator).1 = (request.answer engine .empty).1 := by
  rw [request.answer_eq_run]
  exact ((request.action_steady engine.config.maxDepth).2 { evaluator := .empty } { evaluator } rfl (Nat.zero_add _)).1

theorem Request.not_unending (straight : ¬ engine.Circular) (request : Request) (evaluator : Evaluator) :
    (request.answer engine evaluator).1 ≠ .error .unending := by
  rw [request.answer_eq_run]
  exact fun unending =>
    straight (((request.action_steady engine.config.maxDepth).2 { evaluator } { evaluator } rfl (Nat.zero_add _)).2.2 unending)

/-- All components are templates. -/
def Fragmentary (engine : Engine) : Prop :=
  ∀ name component, engine.component? name = some component → ∃ body, component = .fragment body

theorem Fragmentary.straight (fragmentary : engine.Fragmentary) : ¬ engine.Circular := by
  rintro ⟨name, circle⟩
  obtain ⟨_, ⟨_, _, adapter, _⟩, _⟩ := Relation.TransGen.head'_iff.1 circle
  obtain ⟨_, impossible⟩ := fragmentary _ _ adapter
  cases impossible

theorem Fragmentary.reached (fragmentary : engine.Fragmentary) {reference name : String} {component : Component}
    (reached : engine.reached? reference = some (name, component)) : ∃ body, component = .fragment body := by
  rcases reached?_known reached with known | ⟨_, body⟩
  · exact fragmentary _ _ known
  · exact body

/-- A request over data that varies gives what may be printed, or it fails for all the data alike. -/
theorem request_varies [Nonempty ι] {variation : Variation ι engine} (fragmentary : engine.Fragmentary)
    {requests : ι → Request}
    (uniform : Uniform variation.prints fun i => (requests i).action (engine.sharing (variation.globals i))) :
    (∃ texts, variation.prints texts ∧ ∀ i evaluator,
        ((requests i).answer (engine.sharing (variation.globals i)) evaluator).1 = .ok (texts i)) ∨
      ∃ error, ∀ i evaluator,
        ((requests i).answer (engine.sharing (variation.globals i)) evaluator).1 = .error (.failed error) := by
  have straight (i : ι) : ¬ (engine.sharing (variation.globals i)).Circular :=
    Fragmentary.straight fun name component found => fragmentary name component found
  obtain ⟨_, ⟨halt, halted⟩ | ⟨texts, printed, given⟩⟩ := uniform (fun _ => {}) [] fun _ => rfl
  · have answered (i : ι) : ((requests i).answer (engine.sharing (variation.globals i)) .empty).1 = .error halt := by
      rw [Request.answer_eq_run]
      exact halted i
    cases halt with
    | failed error => exact .inr ⟨error, fun i evaluator => (Request.answer_fixed _ evaluator).trans (answered i)⟩
    | unending =>
      have ⟨i⟩ := ‹Nonempty ι›
      exact absurd (answered i) (Request.not_unending (straight i) _ _)
  · refine .inl ⟨texts, printed, fun i evaluator => (Request.answer_fixed _ evaluator).trans ?_⟩
    rw [Request.answer_eq_run]
    exact given i

end Engine
end Stencil
