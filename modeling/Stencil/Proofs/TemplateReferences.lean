import Mathlib.Logic.Relation
import Stencil.Dependencies
import Stencil.Proofs.SlotText

/-! Where the references of a template stand. What a node refers to is named by a directive among the
tokens of its text, and the text of a slot has no tokens but those that stand in it. A default slot may
have more, where what stood apart runs together. -/

namespace Stencil

namespace Template
open Text

theorem Inside.child {nodes : List Node} {outer inner : Node} (inside : Inside nodes outer)
    (mem : inner ∈ outer.children) : Inside nodes inner := by
  induction inside with
  | here there => exact .deeper there (.here mem)
  | deeper there _ ih => exact .deeper there (ih mem)

/-- What a node that is no text stands for among the tokens. -/
inductive StandsFor (source : List Char) (tokens : List Lexeme) (node : Node) : Prop where
  | leaf {lexeme : Lexeme} (mem : lexeme ∈ tokens) (leaf : Leaf source lexeme.span lexeme.value node)
  | block {opens closes : String} {args : Option String} {opened closed : Span} {inside : List Lexeme} {body : List Node}
      (mem : ⟨.directive opens args, opened⟩ ∈ tokens) (within : inside ⊆ tokens) (outline : Outline source inside body)
      (encloses : Encloses source opened closed (args.getD "") body opens closes node)
  | conditional {span : Span} {branches : List (String × List Node)} {otherwise : Option (List Node)}
      (same : node = .conditional span branches otherwise)

section Tokens
variable {source : List Char} {node : Node}

theorem StandsFor.among {tokens more : List Lexeme} (stands : StandsFor source tokens node) (among : tokens ⊆ more) :
    StandsFor source more node := by
  cases stands with
  | leaf mem leaf => exact .leaf (among mem) leaf
  | block mem within outline encloses => exact .block (among mem) (List.Subset.trans within among) outline encloses
  | conditional same => exact .conditional same

mutual
/-- Every node of a body stands for tokens in it. -/
theorem stands_of_outline {tokens : List Lexeme} {nodes : List Node} (outline : Outline source tokens nodes)
    (inside : Inside nodes node) (mark : ∀ span text, node ≠ .text span text) : StandsFor source tokens node := by
  match outline with
  | .nil => exact absurd inside Inside.not_nil
  | .text behind | .literal _ behind =>
    rcases inside.of_prepend mark with here | later
    · rcases Inside.single_iff.1 here with rfl | within
      · exact absurd rfl (mark _ _)
      · exact absurd within Inside.not_nil
    · exact (stands_of_outline behind later mark).among (List.subset_cons_self _ _)
  | .leaf leaf behind =>
    rcases Inside.cons_iff.1 inside with rfl | within | later
    · exact .leaf List.mem_cons_self leaf
    · rw [leaf.span.2] at within
      exact absurd within Inside.not_nil
    · exact (stands_of_outline behind later mark).among (List.subset_cons_self _ _)
  | .block encloses body behind =>
    rcases Inside.cons_iff.1 inside with rfl | within | later
    · exact .block List.mem_cons_self (List.subset_cons_of_subset _ (List.subset_append_left _ _)) body encloses
    · rcases encloses.children with same | none
      · exact (stands_of_outline body (same ▸ within) mark).among
          (List.subset_cons_of_subset _ (List.subset_append_left _ _))
      · rw [none] at within
        exact absurd within Inside.not_nil
    · exact (stands_of_outline behind later mark).among
        (List.subset_cons_of_subset _ (List.subset_append_of_subset_right _ (List.subset_cons_self _ _)))
  | .conditional division behind =>
    rcases Inside.cons_iff.1 inside with rfl | within | later
    · exact .conditional rfl
    · exact (stands_of_division division within mark).among
        (List.subset_cons_of_subset _ (List.subset_append_left _ _))
    · exact (stands_of_outline behind later mark).among (List.subset_cons_of_subset _ (List.subset_append_right _ _))

theorem stands_of_division {condition : String} {tokens : List Lexeme} {branches : List (String × List Node)}
    {otherwise : Option (List Node)} {closed : Span}
    (division : Division source condition tokens branches otherwise closed)
    (inside : Inside (branches.flatMap Prod.snd ++ otherwise.getD []) node) (mark : ∀ span text, node ≠ .text span text) :
    StandsFor source tokens node := by
  match division with
  | .last body =>
    exact (stands_of_outline body (by simpa using inside) mark).among (List.subset_append_left _ _)
  | .otherwise body ends =>
    rcases Inside.append_iff.1 inside with first | second
    · exact (stands_of_outline body (by simpa using first) mark).among (List.subset_append_left _ _)
    · exact (stands_of_outline ends second mark).among
        (List.subset_append_of_subset_right _ (List.subset_cons_of_subset _ (List.subset_append_left _ _)))
  | .elseIf body further =>
    rw [List.flatMap_cons, List.append_assoc] at inside
    rcases Inside.append_iff.1 inside with first | second
    · exact (stands_of_outline body first mark).among (List.subset_append_left _ _)
    · exact (stands_of_division further second mark).among
        (List.subset_append_of_subset_right _ (List.subset_cons_self _ _))
end

end Tokens

end Template

namespace Dependencies
open Template

/-- What a node refers to, and the arguments that name it. -/
def use? : Node → Option (ReferenceKind × String)
  | .extension _ args => some (.layout, args)
  | .inclusion _ args => some (.inclusion, args)
  | .component _ args _ _ => some (.component, args)
  | _ => none

/-- A directive that names a template or a component. -/
inductive Refers : Token → ReferenceKind → String → Prop where
  | intro {name : String} {args : Option String} {kind : ReferenceKind}
      (known : ReferenceKind.ofDirective? name = some kind) : Refers (.directive name args) kind (args.getD "")

theorem Refers.reference {token : Token} {kind : ReferenceKind} {args : String} (refers : Refers token kind args)
    {reference : ReferenceKind × String} (found : reference? token = some reference) :
    ∃ target, Argument.stringLiteral? ((Argument.list args).headD "").toList = some target ∧
      reference = (kind, String.ofList target) := by
  obtain ⟨known⟩ := refers
  unfold reference? at found
  split at found
  next name args same =>
    cases same
    simp only [known, Option.bind_eq_bind, Option.bind_some, Option.bind_eq_some_iff] at found
    obtain ⟨first, head, target, literal, same⟩ := found
    cases same
    refine ⟨target, ?_, rfl⟩
    rw [Option.getD_some, List.headD_eq_head?_getD, head]
    exact literal
  next => cases found

section Uses
variable {source : List Char} {node : Node} {kind : ReferenceKind} {args : String}

theorem use_no_text (use : use? node = some (kind, args)) (span : Text.Span) (text : String) : node ≠ .text span text := by
  rintro rfl
  cases use

theorem Refers.of_leaf {span : Text.Span} {token : Token} (leaf : Leaf source span token node)
    (use : use? node = some (kind, args)) : Refers token kind args := by
  cases leaf <;> cases use <;> exact .intro rfl

theorem Refers.of_encloses {opened closed : Text.Span} {raw : Option String} {opens closes : String} {body : List Node}
    (encloses : Encloses source opened closed (raw.getD "") body opens closes node)
    (use : use? node = some (kind, args)) : Refers (.directive opens raw) kind args := by
  cases encloses <;> cases use
  exact .intro rfl

/-- Every node of a body that refers to something stands for a directive in it. -/
theorem refers_of_outline {tokens : List Lexeme} {nodes : List Node} (outline : Outline source tokens nodes)
    (inside : Inside nodes node) (use : use? node = some (kind, args)) :
    ∃ lexeme ∈ tokens, Refers lexeme.value kind args := by
  cases stands_of_outline outline inside (use_no_text use) with
  | leaf mem leaf => exact ⟨_, mem, .of_leaf leaf use⟩
  | block mem _ _ encloses => exact ⟨_, mem, .of_encloses encloses use⟩
  | conditional same =>
    subst same
    cases use

end Uses

/-- What is read again when the text is rendered: the text of a slot of some component in it, or the default slot. -/
inductive Embeds (text : String) : String → Prop where
  | default {span : Text.Span} {args defaultSlot : String} {slots : List Slot}
      (inside : Inside (read text).1 (.component span args defaultSlot slots)) : Embeds text defaultSlot
  | slot {span : Text.Span} {args defaultSlot : String} {slots : List Slot}
      (inside : Inside (read text).1 (.component span args defaultSlot slots)) {slot : Slot} (mem : slot ∈ slots) :
      Embeds text slot.raw

/-- Every directive that refers to something names it by a quoted literal. -/
def Literal (text : String) : Prop :=
  ∀ lexeme ∈ tokenize text, ∀ kind args, Refers lexeme.value kind args → (reference? lexeme.value).isSome

/-- The references of the second text stand in the first one. -/
def Repeats (text piece : String) : Prop :=
  ∀ lexeme ∈ tokenize piece, ∀ kind args, Refers lexeme.value kind args →
    ∃ written ∈ tokenize text, written.value = lexeme.value

/-- Where the parts of a default slot meet they make no reference that was not there, neither in the text itself nor
in what is read again of it. -/
def Unglued (text : String) : Prop :=
  ∀ piece, Relation.ReflTransGen Embeds text piece → ∀ span args defaultSlot slots,
    Inside (read piece).1 (.component span args defaultSlot slots) → Repeats piece defaultSlot

theorem repeats_of_embeds {text piece : String} (unglued : Unglued text) (embeds : Embeds text piece) :
    Repeats text piece := by
  cases embeds with
  | default inside => exact unglued text .refl _ _ _ _ inside
  | @slot _ _ _ _ inside slot mem =>
    obtain ⟨body, _, _, built⟩ := slot_built inside mem
    have tokens := built.reread.tokens
    intro lexeme there _ _ _
    have moved := List.mem_map_of_mem (f := Text.Located.moved body.start) there
    rw [tokens] at moved
    exact ⟨_, (List.mem_filter.1 moved).1, rfl⟩

theorem repeats_of_unglued {text piece : String} (unglued : Unglued text)
    (embedded : Relation.ReflTransGen Embeds text piece) : Repeats text piece := by
  induction embedded with
  | refl => exact fun lexeme mem _ _ _ => ⟨lexeme, mem, rfl⟩
  | tail before embeds ih =>
    have onward : Unglued _ := fun piece later => unglued piece (before.trans later)
    intro lexeme mem kind args refers
    obtain ⟨written, there, same⟩ := repeats_of_embeds onward embeds lexeme mem kind args refers
    rw [← same] at refers
    obtain ⟨first, origin, same'⟩ := ih written there kind args refers
    exact ⟨first, origin, same'.trans same⟩

/-- What a node refers to in a text that is read again is a reference of the text it comes from. -/
theorem reference_of_use {text piece : String} (literal : Literal text) (unglued : Unglued text)
    (embedded : Relation.ReflTransGen Embeds text piece) {node : Node} {kind : ReferenceKind} {args : String}
    (inside : Inside (read piece).1 node) (use : use? node = some (kind, args)) :
    ∃ target, Argument.stringLiteral? ((Argument.list args).headD "").toList = some target ∧
      (kind, String.ofList target) ∈ references text := by
  obtain ⟨lexeme, mem, refers⟩ := refers_of_outline (outline_of_read piece) inside use
  obtain ⟨written, there, same⟩ := repeats_of_unglued unglued embedded lexeme mem kind args refers
  rw [← same] at refers
  obtain ⟨reference, found⟩ := Option.isSome_iff_exists.1 (literal written there kind args refers)
  obtain ⟨target, literally, rfl⟩ := refers.reference found
  exact ⟨target, literally, List.mem_filterMap.2 ⟨written, there, found⟩⟩

/-- Components without a body are read again as nothing. -/
theorem unglued_of_empty {text : String} (empty : ∀ span args defaultSlot slots,
    Inside (read text).1 (.component span args defaultSlot slots) → defaultSlot = "" ∧ slots = []) : Unglued text := by
  have nothing : (read "").1 = [] := by
    have tokens : tokenize "" = [] := by cbv
    rw [items_iff_read.1 (show Items "".toList (tokenize "") [] from tokens ▸ .nil)]
  have pieces (piece : String) (embedded : Relation.ReflTransGen Embeds text piece) : piece = text ∨ piece = "" := by
    induction embedded with
    | refl => exact .inl rfl
    | tail _ embeds ih =>
      rcases ih with rfl | rfl
      · cases embeds with
        | default inside => exact .inr (empty _ _ _ _ inside).1
        | slot inside mem =>
          rw [(empty _ _ _ _ inside).2] at mem
          cases mem
      · cases embeds with
        | default inside | slot inside =>
          rw [nothing] at inside
          exact absurd inside Inside.not_nil
  intro piece embedded span args defaultSlot slots inside
  rcases pieces piece embedded with rfl | rfl
  · rw [(empty _ _ _ _ inside).1]
    intro lexeme mem
    have tokens : tokenize "" = [] := by cbv
    rw [tokens] at mem
    cases mem
  · rw [nothing] at inside
    exact absurd inside Inside.not_nil

end Dependencies
end Stencil
