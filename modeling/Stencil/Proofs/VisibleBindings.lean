import Stencil.Proofs.ComponentContainment
import Stencil.Proofs.LiteralObjects

/-! Visible bindings. What is looked up through the layers of a scope is what all of them put together have. Evaluating
and rendering see nothing else of a scope, and the layers that they add on the way hide the same of either one. -/

namespace Stencil

namespace Fields
variable {α : Type} {fields : Fields α}

theorem Sorted.insert (sorted : fields.Sorted) (name : String) (value : α) : (fields.insert name value).Sorted := by
  induction fields with
  | nil => exact List.pairwise_singleton _ _
  | cons field fields ih =>
    obtain ⟨first, others⟩ := List.pairwise_cons.1 sorted
    unfold Fields.insert
    split
    next below =>
      refine List.pairwise_cons.2 ⟨List.forall_mem_cons.2 ⟨below, fun other mem => ?_⟩, sorted⟩
      exact String.lt_trans below (first other mem)
    next notBelow =>
      split
      next same => exact List.pairwise_cons.2 ⟨same ▸ first, others⟩
      next different =>
        refine List.pairwise_cons.2 ⟨fun other mem => ?_, ih others⟩
        rcases mem_insert mem with rfl | old
        · exact Std.lt_of_le_of_ne (String.not_lt.1 notBelow) (Ne.symm different)
        · exact first other old

theorem sorted_insertAll {before : Fields α} (sorted : before.Sorted) (entries : List (String × α)) :
    (before.insertAll entries).Sorted := by
  induction entries generalizing before with
  | nil => exact sorted
  | cons entry entries ih => exact ih (sorted.insert entry.1 entry.2)

theorem find?_insertAll_other {name : String} {entries : List (String × α)} (absent : name ∉ Fields.names entries)
    (before : Fields α) : (before.insertAll entries).find? name = before.find? name := by
  induction entries generalizing before with
  | nil => rfl
  | cons entry entries ih =>
    obtain ⟨other, absent⟩ := not_or.1 (List.mem_cons.not.1 absent)
    refine (ih absent _).trans ?_
    rw [find?_insert, if_neg other]

/-- Where no name comes twice, the entries hide what was there before. -/
theorem find?_insertAll {entries : Fields α} (distinct : entries.names.Nodup) (before : Fields α) (name : String) :
    (before.insertAll entries).find? name = (entries.find? name).or (before.find? name) := by
  induction entries generalizing before with
  | nil => rfl
  | cons entry entries ih =>
    obtain ⟨other, value⟩ := entry
    obtain ⟨fresh, distinct⟩ := List.nodup_cons.1 distinct
    change ((before.insert other value).insertAll entries).find? name = _
    rw [find?]
    by_cases same : name = other
    · subst same
      rw [if_pos rfl, find?_insertAll_other fresh, find?_insert, if_pos rfl]
      rfl
    · rw [if_neg same, ih distinct, find?_insert, if_neg same]

end Fields

namespace Scope

/-- Each layer is a map. -/
def Layered (scope : Scope) : Prop := ∀ layer ∈ scope.layers, Fields.Sorted layer

theorem Layered.root {bindings : Fields Value} (sorted : bindings.Sorted) : (root bindings).Layered :=
  List.forall_mem_singleton.2 sorted

theorem Layered.childWith {scope : Scope} (layered : scope.Layered) {bindings : Fields Value}
    (sorted : bindings.Sorted) : (scope.childWith bindings).Layered := List.forall_mem_cons.2 ⟨sorted, layered⟩

theorem Layered.insert {scope : Scope} (layered : scope.Layered) (name : String) (value : Value) :
    (scope.insert name value).Layered := by
  obtain ⟨here, around⟩ := List.forall_mem_cons.1 layered
  exact List.forall_mem_cons.2 ⟨here.insert name value, around⟩

/-- What a chain of layers shows is what it has put together. -/
theorem find?_foldr_insertAll {layers : List (Fields Value)} (sorted : ∀ layer ∈ layers, Fields.Sorted layer)
    (name : String) : Fields.find? (layers.foldr (fun layer visible => Fields.insertAll visible layer) []) name =
      layers.findSome? fun layer => Fields.find? layer name := by
  induction layers with
  | nil => rfl
  | cons layer layers ih =>
    obtain ⟨here, around⟩ := List.forall_mem_cons.1 sorted
    rw [List.foldr_cons, Fields.find?_insertAll here.nodup_names, ih around, List.findSome?_cons]
    cases Fields.find? layer name <;> rfl

theorem Layered.get?_eq {scope : Scope} (layered : scope.Layered) (name : String) :
    scope.get? name = scope.flatten.find? name := (find?_foldr_insertAll layered name).symm

theorem sorted_flatten (scope : Scope) : scope.flatten.Sorted := by
  unfold flatten
  induction scope.layers with
  | nil => exact List.Pairwise.nil
  | cons layer layers ih => exact Fields.sorted_insertAll ih layer

/-- The scopes have the same to show. -/
structure Alike (first second : Scope) : Prop where
  lookup : ∀ name, first.get? name = second.get? name
  flat : first.flatten = second.flatten

variable {first second : Scope}

theorem Layered.alike (layered : first.Layered) (layered' : second.Layered) (same : first.flatten = second.flatten) :
    first.Alike second where
  lookup name := by rw [layered.get?_eq, layered'.get?_eq, same]
  flat := same

theorem flatten_root {bindings : Fields Value} (sorted : bindings.Sorted) : (root bindings).flatten = bindings :=
  Fields.Sorted.insertAll sorted

theorem Layered.alike_root {scope : Scope} (layered : scope.Layered) : scope.Alike (.root scope.flatten) :=
  layered.alike (.root scope.sorted_flatten) (flatten_root scope.sorted_flatten).symm

/-- A layer hides the same of both. -/
theorem Alike.childWith (alike : first.Alike second) (bindings : Fields Value) :
    (first.childWith bindings).Alike (second.childWith bindings) where
  lookup name := by rw [get?_childWith, get?_childWith, alike.lookup]
  flat := congrArg (Fields.insertAll · bindings) alike.flat

end Scope

/-! What is evaluated and rendered. -/

variable {engine : Engine} {first second : Scope}

namespace Evaluator

theorem valueOf_alike (alike : first.Alike second) (read : Option Expr) : valueOf read first = valueOf read second := by
  cases read with
  | none => rfl
  | some whole => exact whole.eval_congr fun name _ => alike.lookup name

theorem evaluate_alike (alike : first.Alike second) : evaluate first = evaluate second := by
  funext text
  unfold evaluate
  simp only [valueOf_alike alike]

theorem condition_alike (alike : first.Alike second) : condition first = condition second := by
  funext text
  rw [condition, condition, evaluate_alike alike]

theorem argument_alike (alike : first.Alike second) : argument first = argument second := by
  funext text
  rw [argument, argument, evaluate_alike alike]

theorem object_alike (alike : first.Alike second) : object first = object second := by
  funext text
  rw [object, object, evaluate_alike alike]

end Evaluator

/-- A handler sees of the scope what its names are bound to and the map of them all. -/
def Handler.Discreet (handler : Handler) : Prop :=
  ∀ {first second : Scope}, first.Alike second → ∀ name raw, handler ⟨name, raw, first⟩ = handler ⟨name, raw, second⟩

def Engine.Discreet (engine : Engine) : Prop :=
  ∀ name handler, engine.directives.find? name = some handler → handler.Discreet

namespace Render
open Template

/-- Of a scope nothing matters but what it shows. -/
def Blind {α : Type} (action : Scope → α) : Prop :=
  ∀ {first second : Scope}, first.Alike second → action first = action second

section Steps
variable (alike : first.Alike second)
include alike

theorem evaluate_alike : (evaluate first : String → Render engine Value) = evaluate second := by
  funext text
  rw [evaluate, evaluate, Evaluator.evaluate_alike alike]

theorem condition_alike : (condition first : String → Render engine Bool) = condition second := by
  funext text
  rw [condition, condition, Evaluator.condition_alike alike]

theorem argument_alike : (argument first : String → Render engine Value) = argument second := by
  funext text
  rw [argument, argument, Evaluator.argument_alike alike]

theorem nameArgument_alike : (nameArgument first : String → Render engine String) = nameArgument second := by
  funext text
  rw [nameArgument, nameArgument, evaluate_alike alike]

theorem fieldsArgument_alike :
    (fieldsArgument first : Option String → Render engine (Fields Value)) = fieldsArgument second := by
  funext text
  cases text with
  | none => rfl
  | some text => rw [fieldsArgument, fieldsArgument, argument_alike alike]

theorem slotTexts_alike (texts : Fields String) (slots : List Slot) :
    (slotTexts first texts slots : Render engine (Fields String)) = slotTexts second texts slots := by
  induction slots generalizing texts with
  | nil => rfl
  | cons slot slots ih =>
    rw [slotTexts, slotTexts, nameArgument_alike alike]
    exact bind_congr fun name => ih _

theorem directive_alike (discreet : engine.Discreet) (name : String) (args : Option String) (raw : String) :
    (directive name args raw first : Render engine String) = directive name args raw second := by
  unfold directive
  cases found : engine.directives.find? name with
  | none => rfl
  | some handler =>
    dsimp only
    rw [discreet name handler found alike, Evaluator.evaluate_alike alike]

variable {body : Scope → Render engine String} (blind : Blind body)
include blind

theorem each_alike (output : String) (layers : List (Fields Value)) :
    each body output (layers.map first.childWith) = each body output (layers.map second.childWith) := by
  induction layers generalizing output with
  | nil => rfl
  | cons layer layers ih =>
    rw [List.map_cons, List.map_cons, each, each, blind (alike.childWith layer)]
    exact bind_congr fun text => ih _

/-- Both add the same layer for each item. -/
theorem foreach_alike (args : String) : foreach args body first = foreach args body second := by
  have layers (scope : Scope) (name : String) (items : List Value) : itemScopes scope name items =
      ((items.zip (List.range items.length)).map fun entry =>
        (Fields.insert [] name entry.1).insert "loop" (Loop.info entry.2 items.length)).map scope.childWith := by
    rw [List.map_map]
    rfl
  unfold foreach
  rw [evaluate_alike alike]
  simp only [layers, each_alike alike blind]

theorem counting_alike (args : String) : counting args body first = counting args body second := by
  have layer (counter : Loop.Counter) (current : Int) :
      body (first.child.insert counter.name (.number (Float.ofInt current))) =
        body (second.child.insert counter.name (.number (Float.ofInt current))) :=
    blind (alike.childWith (Fields.insert [] counter.name _))
  unfold counting
  simp only [evaluate_alike alike, layer]

end Steps

/-- What lies below sees nothing else either. -/
def Below.Blind (below : Below engine) : Prop :=
  ∀ followed sections template, Render.Blind (below.layout followed sections template)

variable {below : Below engine}

theorem entering_blind (blind : below.Blind) (template : Template) : Blind (entering below template) := by
  intro first second alike
  rw [entering, entering, blind 0 [] template alike]

theorem inclusion_blind (blind : below.Blind) (args : String) : Blind (inclusion below args) := by
  intro first second alike
  have entered (template : Template) (data : Fields Value) : entering below template (first.childWith data) =
      entering below template (second.childWith data) := entering_blind blind template (alike.childWith data)
  unfold inclusion
  simp only [nameArgument_alike alike, fieldsArgument_alike alike, entered]

theorem call_blind (args defaultSlot : String) (slots : List Slot) : Blind (call below args defaultSlot slots) := by
  intro first second alike
  unfold call
  simp only [nameArgument_alike alike, fieldsArgument_alike alike, slotTexts_alike alike]

mutual
theorem node_blind (blind : below.Blind) (discreet : engine.Discreet) (sections : Sections) (item : Node) :
    Blind (node below sections item) := by
  intro first second alike
  match item with
  | .text .. | .extension .. | .slot .. => rfl
  | .echo _ expression escape => rw [node, node, evaluate_alike alike]
  | .sectionBlock _ args body =>
    rw [node, node, nameArgument_alike alike, nodes_blind blind discreet sections body alike]
  | .sectionInline _ args content => rw [node, node, nameArgument_alike alike, argument_alike alike]
  | .yield _ args => rw [node, node, nameArgument_alike alike, argument_alike alike]
  | .conditional _ branches none =>
    rw [node, node]
    exact firstBranch_blind blind discreet sections branches (fun _ => rfl) alike
  | .conditional _ branches (some body) =>
    rw [node, node]
    exact firstBranch_blind blind discreet sections branches (nodes_blind blind discreet sections body) alike
  | .foreach _ args body =>
    rw [node, node]
    exact foreach_alike alike (nodes_blind blind discreet sections body) args
  | .counting _ args body =>
    rw [node, node]
    exact counting_alike alike (nodes_blind blind discreet sections body) args
  | .inclusion _ args =>
    rw [node, node]
    exact inclusion_blind blind args alike
  | .component _ args defaultSlot slots =>
    rw [node, node]
    exact call_blind args defaultSlot slots alike
  | .directive _ name args raw =>
    rw [node, node]
    exact directive_alike alike discreet name args raw

theorem nodes_blind (blind : below.Blind) (discreet : engine.Discreet) (sections : Sections) (body : List Node) :
    Blind (nodes below sections body) := by
  intro first second alike
  match body with
  | [] => rfl
  | item :: rest =>
    rw [nodes, nodes, node_blind blind discreet sections item alike, nodes_blind blind discreet sections rest alike]

theorem firstBranch_blind (blind : below.Blind) (discreet : engine.Discreet) (sections : Sections)
    (branches : List (String × List Node)) {otherwise : Scope → Render engine String} (last : Blind otherwise) :
    Blind (firstBranch below sections branches otherwise) := by
  intro first second alike
  match branches with
  | [] => exact last alike
  | (text, body) :: branches =>
    rw [firstBranch, firstBranch, condition_alike alike, nodes_blind blind discreet sections body alike,
      firstBranch_blind blind discreet sections branches last alike]
end

section Layouts
variable (blind : below.Blind) (discreet : engine.Discreet)
include blind discreet

theorem capture_blind (sections : Sections) (body : List Node) :
    Blind fun scope => capture below scope sections body := by
  intro first second alike
  induction body generalizing sections with
  | nil => rfl
  | cons item rest ih =>
    cases item with
    | sectionBlock _ args body =>
      simp only [capture, nameArgument_alike alike, nodes_blind blind discreet sections body alike, ih]
    | sectionInline _ args content => simp only [capture, nameArgument_alike alike, argument_alike alike, ih]
    | _ => exact ih sections

theorem layout_blind (followed : Nat) (sections : Sections) (template : Template) :
    Blind (layout below followed sections template) := by
  intro first second alike
  have parents (sections : Sections) (parent : Template) : below.layout (followed + 1) sections parent first =
      below.layout (followed + 1) sections parent second := blind _ sections parent alike
  have captured := capture_blind blind discreet sections template.nodes alike
  unfold layout
  simp only [nodes_blind blind discreet sections template.nodes alike, captured, nameArgument_alike alike, parents]

theorem fragment_blind (template : Template) : Blind (fragment below template) := by
  intro first second alike
  rw [fragment, fragment, layout_blind blind discreet 0 [] template alike]

omit discreet in
theorem named_blind (reference : String) : Blind (named below reference) := by
  intro first second alike
  have entered (template : Template) : entering below template first = entering below template second :=
    entering_blind blind template alike
  unfold named
  simp only [entered]

end Layouts

theorem levels_blind (discreet : engine.Discreet) (left : Nat) : (levels engine left).Blind := by
  induction left with
  | zero => exact fun _ _ _ _ _ _ => rfl
  | succ left ih => exact fun followed sections template => layout_blind ih discreet followed sections template

theorem onStack_congr {α : Type} {action other : Below engine → Render engine α}
    (same : ∀ left, action (levels engine left) = other (levels engine left)) : onStack action = onStack other :=
  bind_congr fun _ => same _

end Render

open Render

/-- Neither what is evaluated nor what is rendered tells the scopes apart, whatever went on before. -/
structure Indistinct (engine : Engine) (first second : Scope) : Prop where
  value : Evaluator.evaluate first = Evaluator.evaluate second
  condition : Evaluator.condition first = Evaluator.condition second
  argument : Evaluator.argument first = Evaluator.argument second
  object : Evaluator.object first = Evaluator.object second
  nodes : ∀ sections body, (printing sections body first : Render engine String) = printing sections body second
  source : ∀ text, ((Operation.source text first).run : Render engine String) = (Operation.source text second).run
  named : ∀ reference,
    ((Operation.named reference first).run : Render engine String) = (Operation.named reference second).run
  template : ∀ template,
    ((Operation.template template first).run : Render engine String) = (Operation.template template second).run
  fragment : ∀ template,
    ((Operation.fragment template first).run : Render engine String) = (Operation.fragment template second).run

theorem Scope.Alike.indistinct (discreet : engine.Discreet) (alike : first.Alike second) :
    Indistinct engine first second where
  value := Evaluator.evaluate_alike alike
  condition := Evaluator.condition_alike alike
  argument := Evaluator.argument_alike alike
  object := Evaluator.object_alike alike
  nodes sections body := onStack_congr fun left => nodes_blind (levels_blind discreet left) discreet sections body alike
  source _ := onStack_congr fun left => fragment_blind (levels_blind discreet left) discreet _ alike
  named reference := onStack_congr fun left => named_blind (levels_blind discreet left) reference alike
  template template := onStack_congr fun left => entering_blind (levels_blind discreet left) template alike
  fragment template := onStack_congr fun left => fragment_blind (levels_blind discreet left) discreet template alike

/-- Only visible bindings matter. -/
structure Scope.Flattens (engine : Engine) (scope : Scope) : Prop where
  /-- A name is bound to what the map of all bindings has for it. -/
  lookup : ∀ name, scope.get? name = scope.flatten.find? name
  /-- All layers and a single one with that map come to the same. -/
  root : Indistinct engine scope (.root scope.flatten)
  /-- And so does any other scope with that map. -/
  other : ∀ other : Scope, other.Layered → other.flatten = scope.flatten → Indistinct engine scope other

theorem Scope.Layered.flattens (discreet : engine.Discreet) {scope : Scope} (layered : scope.Layered) :
    scope.Flattens engine where
  lookup := layered.get?_eq
  root := layered.alike_root.indistinct discreet
  other _ layered' same := (layered.alike layered' same.symm).indistinct discreet

/-- The directives that every engine knows do not look at the scope by themselves. -/
theorem Engine.discreet_new (config : Config) (now : Calendar.Moment) : (Engine.new config now).Discreet := by
  intro name handler found first second _ called raw
  simp only [Engine.new, Directive.builtins, Fields.find?] at found
  split at found
  · cases found
    rfl
  split at found
  · cases found
    rfl
  split at found
  · cases found
    rfl
  · cases found

/-- An inner layer hides a binding of the outer one. -/
theorem two_layers_flatten :
    let engine := Engine.new {} { days := 0, second := 0 }
    let scope := ((Scope.root [("x", .string "outer"), ("y", .string "kept")]).child).insert "x" (.string "inner")
    engine.Discreet ∧ scope.Layered ∧ scope.Flattens engine ∧
      Indistinct engine scope (.root [("x", .string "inner"), ("y", .string "kept")]) := by
  intro engine scope
  have sorted : Fields.Sorted [("x", Value.string "outer"), ("y", .string "kept")] :=
    List.pairwise_cons.2 ⟨List.forall_mem_singleton.2 (by decide : "x" < "y"), List.pairwise_singleton _ _⟩
  have layered : scope.Layered := ((Scope.Layered.root sorted).childWith List.Pairwise.nil).insert _ _
  have flattens := Scope.Layered.flattens (Engine.discreet_new {} { days := 0, second := 0 }) layered
  exact ⟨Engine.discreet_new {} _, layered, flattens, flattens.root⟩

end Stencil
