import Stencil.Proofs.NodeSequence
import Stencil.Proofs.PrintedData

/-! The data of a caller. A component is rendered over the shared data, its props and its slots, and the texts of
the slots are rendered over those too. So a page of components whose arguments name no variables prints the same
for every caller, whatever the slots and the templates of the components make of the variables they name. -/

namespace Stencil.Render
open Template Engine

variable {engine : Engine} {first second : Scope}

theorem nameIn_congr {text : String} (agree : ∀ name, Mentions text name → first.get? name = second.get? name) :
    nameIn first text = nameIn second text := by
  unfold nameIn
  rw [Evaluator.evaluate_fst, Evaluator.evaluate_fst, Scope.value_congr agree]

theorem fieldsIn_congr {text : Option String} (agree : ∀ argument ∈ text,
    ∀ expression ∈ (Argument.read argument.toList).expressions,
      ∀ name, Mentions expression name → first.get? name = second.get? name) : fieldsIn first text = fieldsIn second text := by
  cases text with
  | none => rfl
  | some argument =>
    have same : first.argument argument = second.argument argument :=
      Argument.valueBy_congr _ fun expression mem => Scope.value_congr (agree argument rfl expression mem)
    change (Evaluator.argument first argument .empty).1.fields = (Evaluator.argument second argument .empty).1.fields
    rw [Evaluator.argument_fst, Evaluator.argument_fst, same]

theorem slotTextsIn_congr {slots : List Slot} (texts : Fields String)
    (agree : ∀ slot ∈ slots, ∀ name, Mentions slot.args name → first.get? name = second.get? name) :
    slotTextsIn first texts slots = slotTextsIn second texts slots := by
  apply List.foldl_ext
  intro texts slot mem
  rw [nameIn_congr (agree slot mem)]

/-- What a component is given depends on the variables that its own arguments and the names of its slots mention. -/
theorem useIn_congr (span : Text.Span) {args defaultSlot : String} {slots : List Slot}
    (agree : ∀ text ∈ expressions (.component span args defaultSlot slots),
      ∀ name, Mentions text name → first.get? name = second.get? name) :
    useIn first args defaultSlot slots = useIn second args defaultSlot slots := by
  simp only [expressions, evaluated, given, List.append_nil, List.mem_append, List.mem_cons, List.mem_map,
    List.mem_flatMap] at agree
  unfold useIn
  rw [nameIn_congr (agree _ (.inl (.inl rfl))),
    fieldsIn_congr fun argument mem expression among =>
      agree expression (.inr ⟨argument, Option.mem_toList.2 mem, among⟩),
    slotTextsIn_congr _ fun slot mem => agree _ (.inl (.inr ⟨slot, mem, rfl⟩))]

/-- A node that has nothing to ask of the data of a caller. -/
inductive Secluded : Node → Prop where
  | text {span : Text.Span} {content : String} : Secluded (.text span content)
  | component {span : Text.Span} {args defaultSlot : String} {slots : List Slot}
      (closed : ∀ text ∈ expressions (.component span args defaultSlot slots), ∀ name, ¬ Mentions text name) :
      Secluded (.component span args defaultSlot slots)

/-- What such a node prints: a text itself, a component what it prints outside of any template. -/
def unaided (engine : Engine) : Node → Except Halt String
  | .text _ content => .ok content
  | .component _ args defaultSlot slots =>
    let use := useIn {} args defaultSlot slots
    engine.resolved use.name >>= fun _ => (engine.renderComponent use.name (.object use.props) use.slots .empty).1
  | _ => .ok ""

/-- The page prints the same whatever data it is given. -/
structure KeptOut (engine : Engine) (source : String) : Prop where
  /-- Neither the data nor what has been evaluated before makes a difference to the text or to the failure. -/
  alike : ∀ data other evaluator evaluator',
    (engine.renderInline source data evaluator).1 = (engine.renderInline source other evaluator').1
  /-- Of the components nothing but the names, the props and the slots is needed, and these come without data. -/
  given : ∀ data evaluator,
    (engine.renderInline source data evaluator).1 = String.join <$> (Template.read source).1.mapM (unaided engine)

theorem printing_secluded {node : Node} (secluded : Secluded node) (sections : Sections) (scope : Scope)
    {before : Session engine} (empty : before.stack = []) :
    (printing sections [node] scope before).1 = unaided engine node := by
  cases secluded with
  | text =>
    unfold printing
    rw [onStack_apply, nodes_single]
    rfl
  | @component span args defaultSlot slots closed =>
    have closedUse : useIn scope args defaultSlot slots = useIn {} args defaultSlot slots :=
      useIn_congr span fun text mem name mentions => absurd mentions (closed text mem name)
    rw [component_alone, closedUse]
    generalize used : useIn {} args defaultSlot slots = use
    have level : before.stack = ({ evaluator := .empty } : Session engine).stack := empty
    have alone : (use.operation.run before).1 = (use.operation.run { evaluator := .empty }).1 :=
      ((Deed.asked use.operation).run_alike level).1
    rw [alone]
    simp only [unaided, used]
    rfl

theorem Secluded.no_extension {body : List Node} (secluded : ∀ node ∈ body, Secluded node) : extension? body = none := by
  apply List.findSome?_eq_none_iff.2
  intro node mem
  cases secluded node mem <;> rfl

theorem mapM_secluded {body : List Node} (secluded : ∀ node ∈ body, Secluded node) (sections : Sections)
    (scope : Scope) {before : Session engine} (empty : before.stack = []) :
    (body.mapM fun node => (printing sections [node] scope before).1) = body.mapM (unaided engine) := by
  induction body with
  | nil => rfl
  | cons first rest ih =>
    obtain ⟨here, others⟩ := List.forall_mem_cons.1 secluded
    rw [List.mapM_cons, List.mapM_cons, printing_secluded here sections scope empty, ih others]

theorem renderInline_secluded {source : String} (secluded : ∀ node ∈ (Template.read source).1, Secluded node)
    (data : Value) (evaluator : Evaluator) : (engine.renderInline source data evaluator).1 =
      String.join <$> (Template.read source).1.mapM (unaided engine) := by
  change ((Operation.fragment (Template.parse "" source) (engine.dataScope data)).run { evaluator }).1 = _
  rw [fragment_printing _ _ (Secluded.no_extension secluded), printing_nodewise]
  exact congrArg _ (mapM_secluded secluded [] _ rfl)

/-- Nothing of the data gets into components whose arguments and slot names have no variables. -/
theorem caller_data_kept_out (engine : Engine) {source : String}
    (secluded : ∀ node ∈ (Template.read source).1, Secluded node) : KeptOut engine source where
  alike data other evaluator evaluator' :=
    (renderInline_secluded secluded data evaluator).trans (renderInline_secluded secluded other evaluator').symm
  given data evaluator := renderInline_secluded secluded data evaluator

end Stencil.Render

namespace Stencil.Engine.Box
open Render Template

/-! The box with a prop and with a slot that prints a variable, behind some text. -/

def filled : String := "Hi @component('box', \x7ba: 'b'\x7d)@slot('s')\x7b\x7b x \x7d\x7d@endslot@endcomponent"

theorem tokenize_filled : tokenize filled = [⟨.text "Hi ", ⟨0, 3⟩⟩,
    ⟨.directive "component" (some "'box', \x7ba: 'b'\x7d"), ⟨3, 30⟩⟩, ⟨.directive "slot" (some "'s'"), ⟨30, 40⟩⟩,
    ⟨.echo "x" false, ⟨40, 47⟩⟩, ⟨.directive "endslot" none, ⟨47, 55⟩⟩,
    ⟨.directive "endcomponent" none, ⟨55, 68⟩⟩] := by decide +kernel

theorem read_filled : read filled =
    ([.text ⟨0, 3⟩ "Hi ", .component ⟨3, 68⟩ "'box', \x7ba: 'b'\x7d" "" [⟨"'s'", inside⟩]], []) := by
  apply items_iff_read.1
  rw [tokenize_filled]
  have content : String.ofList (Text.slice filled.toList ⟨40, 47⟩) = inside := by cbv
  have divided : Divided filled.toList [.slot ⟨30, 55⟩ ⟨"'s'", inside⟩] [] [⟨"'s'", inside⟩] := .slot .nil
  have echo : Items filled.toList [⟨.echo "x" false, ⟨40, 47⟩⟩] [.echo ⟨40, 47⟩ "x" true] := .leaf .echo .nil
  have within : Items filled.toList [⟨.directive "slot" (some "'s'"), ⟨30, 40⟩⟩, ⟨.echo "x" false, ⟨40, 47⟩⟩,
      ⟨.directive "endslot" none, ⟨47, 55⟩⟩] [.slot ⟨30, 55⟩ ⟨"'s'", inside⟩] := content ▸ .block .slot echo .nil
  exact .text (fun _ _ _ same => by cases same) (.block (.component divided) within .nil)

theorem expressions_filled : expressions (.component ⟨3, 68⟩ "'box', \x7ba: 'b'\x7d" "" [⟨"'s'", inside⟩]) =
    ["'box'", "'s'", "'b'"] := by
  have parts : Argument.list "'box', \x7ba: 'b'\x7d" = ["'box'", "\x7ba: 'b'\x7d"] := by cbv
  have members : (Argument.read "\x7ba: 'b'\x7d".toList).expressions = ["'b'"] := by cbv
  simp only [expressions, evaluated, given, parts]
  change ["'box'", "'s'"] ++ (["\x7ba: 'b'\x7d"].flatMap fun text => (Argument.read text.toList).expressions) ++ [] = _
  rw [List.append_nil, List.flatMap_singleton, members]
  rfl

theorem filled_secluded : ∀ node ∈ (read filled).1, Secluded node := by
  have box : Expr.parse (Text.trimmed "'box'") = .ok (.literal (.string "box")) := by cbv
  have slot : Expr.parse (Text.trimmed "'s'") = .ok (.literal (.string "s")) := by cbv
  have prop : Expr.parse (Text.trimmed "'b'") = .ok (.literal (.string "b")) := by cbv
  rw [read_filled]
  intro node mem
  simp only [List.mem_cons, List.not_mem_nil, or_false] at mem
  rcases mem with rfl | rfl
  · exact .text
  · refine .component ?_
    rw [expressions_filled]
    rintro text among name ⟨whole, parsed, mentioned⟩
    simp only [List.mem_cons, List.not_mem_nil, or_false] at among
    rcases among with rfl | rfl | rfl
    · cases box.symm.trans parsed
      cases mentioned
    · cases slot.symm.trans parsed
      cases mentioned
    · cases prop.symm.trans parsed
      cases mentioned

/-- The slot prints a variable that the caller may have bound, and does not see it. -/
theorem caller_data_kept_out_of_box :
    (∀ node ∈ (read filled).1, Secluded node) ∧ KeptOut (box "\x7b\x7b a \x7d\x7d\x7b\x7b s \x7d\x7d") filled :=
  ⟨filled_secluded, caller_data_kept_out _ filled_secluded⟩

end Stencil.Engine.Box
