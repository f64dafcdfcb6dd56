import Stencil.Proofs.TemplateReferences

/-! Where the characters of a tree come from. Whatever of a node is printed as it stands, or read again, is cut
out of the source, and an interpolation is raw only where its mark stands in the source. -/

namespace Stencil.Text

theorem suffix_dropBytes (text : List Char) (count : Nat) : dropBytes text count <:+ text := by
  induction text generalizing count with
  | nil => exact List.suffix_refl _
  | cons c text ih =>
    unfold dropBytes
    split
    · exact List.suffix_refl _
    · exact (ih _).trans (List.suffix_cons c text)

theorem prefix_takeBytes (text : List Char) (count : Nat) : takeBytes text count <+: text := by
  induction text generalizing count with
  | nil => exact List.prefix_refl _
  | cons c text ih =>
    unfold takeBytes
    split
    · exact List.nil_prefix
    · exact List.cons_prefix_cons.2 ⟨rfl, ih _⟩

theorem infix_slice (source : List Char) (span : Span) : slice source span <:+: source :=
  (prefix_takeBytes _ _).isInfix.trans (suffix_dropBytes source span.start).isInfix

end Stencil.Text

namespace Stencil.Template
open Text

theorem Unescaped.subset {written text : List Char} (unescaped : Unescaped written text) : text ⊆ written := by
  induction unescaped with
  | nil => exact List.Subset.refl _
  | plain _ ih => exact List.cons_subset_cons _ ih
  | doubled _ ih => exact List.subset_cons_of_subset _ (List.cons_subset_cons _ ih)
  | braces _ _ ih => exact List.subset_cons_of_subset _ (List.append_subset.2
      ⟨List.subset_append_left _ _, List.Subset.trans ih (List.subset_append_right _ _)⟩)

section Marks
variable {inWord : Bool} {c : Char} {tail : List Char} {expression : String}

theorem atSign_not_echo (raw : Bool) : (atSign inWord tail).1 ≠ .token (.echo expression raw) := by
  intro same
  unfold atSign at same
  split at same
  · cases same
  split at same
  · cases same
  split at same
  next found called =>
    obtain ⟨_, _, _, _, _, _, rfl⟩ := called?_eq_some.1 called
    cases same
  next => split at same <;> cases same

theorem rawMark_of_pieceAt (found : (pieceAt inWord c tail).1 = .token (.echo expression true)) :
    rawMarks.1 <+: c :: tail := by
  have inside {marks : List Char × List Char} {piece : List Char → Piece}
      (found : (markedPiece marks c tail piece).1 = .token (.echo expression true)) :
      ∃ text, piece text = .token (.echo expression true) := by
    unfold markedPiece at found
    split at found
    · exact ⟨_, found⟩
    · cases found
  unfold pieceAt at found
  split at found
  · obtain ⟨_, impossible⟩ := inside found
    cases impossible
  split at found
  next opens => exact opensWith_iff.1 opens
  split at found
  · obtain ⟨_, impossible⟩ := inside found
    cases impossible
  split at found
  · exact absurd found (atSign_not_echo true)
  · cases found

end Marks

/-- The mark of a raw interpolation stands in the source. -/
theorem rawMark_of_tokenize {source : String} {lexeme : Lexeme} (mem : lexeme ∈ tokenize source) {expression : String}
    (raw : lexeme.value = .echo expression true) : rawMarks.1 <:+: source.toList := by
  obtain ⟨token, span⟩ := lexeme
  cases raw
  obtain ⟨front, inWord, c, tail, further, whole, found, _⟩ := pieceAt_of_mem mem nofun
  have mark := rawMark_of_pieceAt (congrArg Prod.fst found)
  rw [whole]
  exact mark.isInfix.trans (List.suffix_append _ _).isInfix

section Nodes
variable {source : List Char}

theorem Divided.subset {body : List Node} {text : List Char} {slots : List Slot} (divided : Divided source body text slots) :
    text ⊆ source := by
  induction divided with
  | nil => exact List.nil_subset _
  | slot _ ih => exact ih
  | other _ _ ih => exact List.append_subset.2 ⟨(infix_slice _ _).subset, ih⟩

theorem Divided.mem {body : List Node} {text : List Char} {slots : List Slot} (divided : Divided source body text slots)
    {slot : Slot} (mem : slot ∈ slots) : ∃ span, .slot span slot ∈ body := by
  induction divided with
  | nil => cases mem
  | slot _ ih =>
    rcases List.mem_cons.1 mem with rfl | later
    · exact ⟨_, List.mem_cons_self⟩
    · obtain ⟨span, there⟩ := ih later
      exact ⟨span, List.mem_cons_of_mem _ there⟩
  | other _ _ ih =>
    obtain ⟨span, there⟩ := ih mem
    exact ⟨span, List.mem_cons_of_mem _ there⟩

theorem infix_slot {tokens : List Lexeme} {span : Span} {slot : Slot} (stands : StandsFor source tokens (.slot span slot)) :
    slot.raw.toList <:+: source := by
  cases stands with
  | @leaf lexeme _ leaf =>
    obtain ⟨token, span⟩ := lexeme
    cases leaf
  | block _ _ _ encloses =>
    cases encloses
    rw [String.toList_ofList]
    exact infix_slice _ _
  | conditional same => cases same

/-- What of a node is printed as it stands, and the body of a component outside its slots. -/
def Node.verbatim : Node → List String
  | .text _ value => [value]
  | .directive _ _ _ raw => [raw]
  | .component _ _ defaultSlot _ => [defaultSlot]
  | _ => []

/-- A node whose characters come from the source. -/
structure Drawn (source : List Char) (node : Node) : Prop where
  verbatim : ∀ text ∈ node.verbatim, text.toList ⊆ source
  /-- In one piece, so that nothing runs together in it. -/
  slots : ∀ slot ∈ node.slots, slot.raw.toList <:+: source
  raw : ∀ span expression, node = .echo span expression false → rawMarks.1 <:+: source

theorem Drawn.of_leaf {text : String} {lexeme : Lexeme} (mem : lexeme ∈ tokenize text) {node : Node}
    (leaf : Leaf text.toList lexeme.span lexeme.value node) : Drawn text.toList node := by
  obtain ⟨token, span⟩ := lexeme
  cases leaf with
  | @echo expression raw =>
    refine ⟨List.forall_mem_nil _, List.forall_mem_nil _, fun _ _ same => ?_⟩
    obtain ⟨_, _, plain⟩ := Node.echo.inj same
    cases raw with
    | true => exact rawMark_of_tokenize mem rfl
    | false => cases plain
  | other =>
    refine ⟨List.forall_mem_singleton.2 ?_, List.forall_mem_nil _, nofun⟩
    rw [String.toList_ofList]
    exact (infix_slice _ _).subset
  | _ => exact ⟨List.forall_mem_nil _, List.forall_mem_nil _, nofun⟩

theorem Drawn.of_encloses {opened closed : Span} {args opens closes : String} {tokens : List Lexeme} {body : List Node}
    (outline : Outline source tokens body) {node : Node}
    (encloses : Encloses source opened closed args body opens closes node) : Drawn source node := by
  cases encloses with
  | slot =>
    refine ⟨List.forall_mem_nil _, List.forall_mem_singleton.2 ?_, nofun⟩
    rw [String.toList_ofList]
    exact infix_slice _ _
  | component divided =>
    refine ⟨List.forall_mem_singleton.2 ?_, fun slot mem => ?_, nofun⟩
    · rw [String.toList_ofList]
      exact divided.subset
    · obtain ⟨span, there⟩ := divided.mem mem
      exact infix_slot (stands_of_outline outline (.here there) nofun)
  | _ => exact ⟨List.forall_mem_nil _, List.forall_mem_nil _, nofun⟩

theorem orderly_tokenize (source : String) : Orderly source.toList (tokenize source) where
  ordered := (tiled_tokenize source).ordered
  fits _ mem := (tiled_tokenize source).covering.fits _ (List.mem_map_of_mem mem)
  texts := texts_tokenize source

/-- Every node that is read comes from the source. -/
theorem drawn_of_read {source : String} {node : Node} (inside : Inside (read source).1 node) : Drawn source.toList node := by
  have outline := outline_of_read source
  rcases Classical.em (∃ span text, node = .text span text) with ⟨span, text, rfl⟩ | mark
  · have unescaped := (outline.placed (orderly_tokenize source) _ inside).text span text rfl
    exact ⟨List.forall_mem_singleton.2 (List.Subset.trans unescaped.subset (infix_slice _ _).subset), List.forall_mem_nil _, nofun⟩
  · cases stands_of_outline outline inside fun span text same => mark ⟨span, text, same⟩ with
    | leaf mem leaf => exact .of_leaf mem leaf
    | block _ _ within encloses => exact .of_encloses within encloses
    | conditional same =>
      subst same
      exact ⟨List.forall_mem_nil _, List.forall_mem_nil _, nofun⟩

end Nodes
end Stencil.Template
