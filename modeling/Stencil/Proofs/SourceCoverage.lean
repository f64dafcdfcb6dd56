import Stencil.Proofs.TemplateOutline
import Stencil.Proofs.TokenSpans

/-! The source of a template is neither lost nor read twice. The tokens, and likewise the nodes of
the tree, take up all of it but the comments, one behind the other. The nodes inside a block lie in
it in order, and text is what its span holds without the at signs that escape something. -/

namespace Stencil.Text

theorem split_at_byteLength {before after before' after' : List Char} (same : before ++ after = before' ++ after')
    (lengths : byteLength before ≤ byteLength before') : ∃ between, before' = before ++ between ∧ after = between ++ after' := by
  rcases List.append_eq_append_iff.1 same with ⟨between, rfl, rest⟩ | ⟨between, rfl, rest⟩
  · exact ⟨between, rfl, rest⟩
  · have none : between = [] := by
      cases between with
      | nil => rfl
      | cons c between =>
        have := byteLength_pos (List.cons_ne_nil c between)
        rw [byteLength_append] at lengths
        omega
    subst none
    exact ⟨[], by simp, by simpa using rest.symm⟩

theorem Span.fits_iff {text : List Char} {span : Span} :
    span.Fits text ↔ Boundary text span.start ∧ Boundary text span.stop ∧ span.start < span.stop := by
  constructor
  · exact fun fits => ⟨fits.starts, fits.stops, fits.nonempty⟩
  · obtain ⟨start, stop⟩ := span
    rintro ⟨⟨before, rest, rfl, rfl⟩, ⟨front, after, same, rfl⟩, some⟩
    obtain ⟨written, rfl, rfl⟩ := split_at_byteLength same (Nat.le_of_lt some)
    refine ⟨before, written, after, rfl, ?_, by simp⟩
    rintro rfl
    simp at some

/-- Spans that touch hold what the two of them hold together. -/
theorem slice_append {text : List Char} {first second : Span} (fits : first.Fits text) (fits' : second.Fits text)
    (touching : first.stop = second.start) :
    slice text ⟨first.start, second.stop⟩ = slice text first ++ slice text second := by
  obtain ⟨before, written, after, rfl, -, rfl⟩ := fits
  obtain ⟨front, written', after', same, -, rfl⟩ := fits'
  rw [← List.append_assoc] at same
  dsimp only at touching
  obtain ⟨none, rfl, rfl⟩ := split_at_byteLength same (Nat.le_of_eq (by rw [byteLength_append, touching]))
  have empty : byteLength none = 0 := by
    simp only [byteLength_append] at touching
    omega
  cases none with
  | cons c none =>
    have := byteLength_pos (List.cons_ne_nil c none)
    omega
  | nil =>
    have whole := slice_between before (written ++ written') after'
    have second := slice_between (before ++ written) written' after'
    simp only [List.nil_append, List.append_nil, byteLength_append, List.append_assoc, ← Nat.add_assoc] at whole second ⊢
    rw [whole, second, slice_between]

end Stencil.Text

namespace Stencil.Template
open Text

/-- Spans of nodes, each from where its first token starts to where its last one stops. -/
inductive Gathered : List Span → List Span → Prop where
  | nil : Gathered [] []
  | single {span : Span} {tokens nodes : List Span} (behind : Gathered tokens nodes) :
      Gathered (span :: tokens) (span :: nodes)
  | more {span next : Span} {tokens nodes : List Span} (behind : Gathered tokens (next :: nodes)) :
      Gathered (span :: tokens) (⟨span.start, next.stop⟩ :: nodes)

namespace Gathered
variable {tokens tokens' nodes nodes' : List Span}

theorem append (first : Gathered tokens nodes) (second : Gathered tokens' nodes') :
    Gathered (tokens ++ tokens') (nodes ++ nodes') := by
  induction first with
  | nil => exact second
  | single _ ih => exact .single ih
  | more _ ih => exact .more ih

theorem block (behind : Gathered tokens nodes) (opened closed : Span) (inside : List Span) :
    Gathered (opened :: (inside ++ closed :: tokens)) (⟨opened.start, closed.stop⟩ :: nodes) := by
  induction inside generalizing opened with
  | nil => exact .more (.single behind)
  | cons span inside ih => exact @more opened ⟨span.start, closed.stop⟩ _ _ (ih span)

theorem prepend {body : List Node} (behind : Gathered tokens (body.map Node.span)) (node : Node) :
    Gathered (node.span :: tokens) ((node.prepend body).map Node.span) := by
  unfold Node.prepend
  split
  · split
    · exact .more behind
    · exact .single behind
  · exact .single behind

theorem tiled (gathered : Gathered tokens nodes) {position : Nat} {text : List Char}
    (tiled : Tiled position text tokens) : Tiled position text nodes := by
  induction gathered generalizing position text with
  | nil => exact tiled
  | single _ ih =>
    cases tiled with
    | cons comments some behind => exact .cons comments some (ih behind)
  | @more span next tokens nodes _ ih =>
    cases tiled with
    | @cons _ gap written text _ comments some behind =>
      cases ih behind with
      | @cons _ gap' written' text _ _ some' behind =>
        have longer := @Tiled.cons position gap (written ++ (gap' ++ written')) text nodes comments
          (List.append_ne_nil_of_left_ne_nil some _) (by simpa [Nat.add_assoc] using behind)
        simpa [Nat.add_assoc] using longer

/-- Each token lies in the node that it was gathered into. -/
theorem covers (gathered : Gathered tokens nodes) {position : Nat} {text : List Char}
    (tiled : Tiled position text tokens) : ∀ token ∈ tokens, ∃ node ∈ nodes, token.Within node := by
  induction gathered generalizing position text with
  | nil => exact List.forall_mem_nil _
  | single _ ih =>
    cases tiled with
    | cons comments some behind =>
      refine List.forall_mem_cons.2 ⟨⟨_, List.mem_cons_self, Nat.le_refl _, Nat.le_refl _⟩, fun token mem => ?_⟩
      obtain ⟨node, there, within⟩ := ih behind token mem
      exact ⟨node, List.mem_cons_of_mem _ there, within⟩
  | @more span next tokens nodes gathered ih =>
    have bounds := tiled.bounds span List.mem_cons_self
    cases tiled with
    | cons comments some behind =>
      have later := (gathered.tiled behind).bounds next List.mem_cons_self
      refine List.forall_mem_cons.2 ⟨⟨_, List.mem_cons_self, Nat.le_refl _, ?_⟩, fun token mem => ?_⟩
      · dsimp only at later ⊢
        omega
      · obtain ⟨node, there, within⟩ := ih behind token mem
        rcases List.mem_cons.1 there with rfl | there
        · refine ⟨_, List.mem_cons_self, ?_, within.2⟩
          have := within.1
          dsimp only at later ⊢
          omega
        · exact ⟨node, List.mem_cons_of_mem _ there, within⟩

theorem ends (gathered : Gathered tokens nodes) :
    ∀ node ∈ nodes, ∃ first ∈ tokens, ∃ last ∈ tokens, node = ⟨first.start, last.stop⟩ := by
  induction gathered with
  | nil => exact List.forall_mem_nil _
  | single _ ih =>
    refine List.forall_mem_cons.2 ⟨⟨_, List.mem_cons_self, _, List.mem_cons_self, rfl⟩, fun node mem => ?_⟩
    obtain ⟨first, starts, last, stops, rfl⟩ := ih node mem
    exact ⟨first, List.mem_cons_of_mem _ starts, last, List.mem_cons_of_mem _ stops, rfl⟩
  | @more span next _ _ _ ih =>
    obtain ⟨here, others⟩ := List.forall_mem_cons.1 ih
    refine List.forall_mem_cons.2 ⟨?_, fun node mem => ?_⟩
    · obtain ⟨_, _, last, stops, rfl⟩ := here
      exact ⟨span, List.mem_cons_self, last, List.mem_cons_of_mem _ stops, rfl⟩
    · obtain ⟨first, starts, last, stops, rfl⟩ := others node mem
      exact ⟨first, List.mem_cons_of_mem _ starts, last, List.mem_cons_of_mem _ stops, rfl⟩

theorem ordered (gathered : Gathered tokens nodes) (ordered : tokens.Pairwise Span.Before) :
    nodes.Pairwise Span.Before := by
  induction gathered with
  | nil => exact .nil
  | single gathered ih =>
    obtain ⟨here, others⟩ := List.pairwise_cons.1 ordered
    refine .cons (fun node mem => ?_) (ih others)
    obtain ⟨first, starts, _, _, rfl⟩ := gathered.ends node mem
    exact here first starts
  | more _ ih =>
    obtain ⟨next, others⟩ := List.pairwise_cons.1 (ih (List.pairwise_cons.1 ordered).2)
    exact .cons next others

end Gathered

variable {source : List Char}

theorem Encloses.span {opened closed : Span} {args opens closes : String} {body : List Node} {node : Node}
    (encloses : Encloses source opened closed args body opens closes node) :
    node.span = ⟨opened.start, closed.stop⟩ := by
  cases encloses <;> rfl

theorem Encloses.children {opened closed : Span} {args opens closes : String} {body : List Node} {node : Node}
    (encloses : Encloses source opened closed args body opens closes node) :
    node.children = body ∨ node.children = [] := by
  cases encloses with
  | sectionBlock | foreach | counting => exact .inl rfl
  | slot | component => exact .inr rfl

theorem Leaf.span {span : Span} {token : Token} {node : Node} (leaf : Leaf source span token node) :
    node.span = span ∧ node.children = [] := by
  cases leaf <;> exact ⟨rfl, rfl⟩

theorem Division.ends {condition : String} {tokens : List Lexeme} {branches : List (String × List Node)}
    {otherwise : Option (List Node)} {closed : Span}
    (division : Division source condition tokens branches otherwise closed) :
    ∃ inside last, tokens = inside ++ [⟨last, closed⟩] := by
  match division with
  | .last _ => exact ⟨_, _, rfl⟩
  | .otherwise _ _ => exact ⟨_ ++ _ :: _, _, by rw [List.append_assoc]; rfl⟩
  | .elseIf _ further =>
    obtain ⟨inside, last, rfl⟩ := further.ends
    exact ⟨_ ++ _ :: inside, last, by rw [List.append_assoc]; rfl⟩

theorem Outline.gathered {tokens : List Lexeme} {nodes : List Node} (outline : Outline source tokens nodes) :
    Gathered (tokens.map Located.span) (nodes.map Node.span) := by
  match outline with
  | .nil => exact .nil
  | @Outline.text _ span value _ _ behind => exact behind.gathered.prepend (.text span value)
  | .leaf single behind =>
    rw [List.map_cons, List.map_cons, single.span.1]
    exact .single behind.gathered
  | @Outline.literal _ _ _ span _ _ _ behind => exact behind.gathered.prepend (literally source span)
  | .block encloses _ behind =>
    rw [List.map_cons, List.map_cons, List.map_append, List.map_cons, encloses.span]
    exact behind.gathered.block ..
  | .conditional division behind =>
    obtain ⟨inside, last, rfl⟩ := division.ends
    rw [List.map_cons, List.map_cons, List.append_assoc, List.map_append]
    exact behind.gathered.block ..

/-- Tokens of a source in its order, with the text that stands there. -/
structure Orderly (source : List Char) (tokens : List Lexeme) : Prop where
  ordered : (tokens.map Located.span).Pairwise Span.Before
  fits : ∀ lexeme ∈ tokens, lexeme.span.Fits source
  texts : ∀ lexeme ∈ tokens, ∀ text, lexeme.value = .text text → Unescaped (slice source lexeme.span) text.toList

theorem Orderly.sublist {tokens tokens' : List Lexeme} (orderly : Orderly source tokens) (fewer : tokens'.Sublist tokens) :
    Orderly source tokens' where
  ordered := orderly.ordered.sublist (fewer.map _)
  fits lexeme mem := orderly.fits lexeme (fewer.mem mem)
  texts lexeme mem := orderly.texts lexeme (fewer.mem mem)

/-- A node around some characters of the source, with what is in its bodies in it and in order. -/
structure Placed (source : List Char) (node : Node) : Prop where
  fits : node.span.Fits source
  ordered : (node.children.map Node.span).Pairwise Span.Before
  within : ∀ child ∈ node.children, child.span.Within node.span
  text : ∀ span text, node = .text span text → Unescaped (slice source span) text.toList

theorem Placed.of_text {span : Span} {text : String} (fits : span.Fits source)
    (unescaped : Unescaped (slice source span) text.toList) : Placed source (.text span text) where
  fits := fits
  ordered := .nil
  within := List.forall_mem_nil _
  text := by
    rintro _ _ ⟨⟩
    exact unescaped

theorem Placed.of_leaf {span : Span} {token : Token} {node : Node} (leaf : Leaf source span token node)
    (fits : span.Fits source) : Placed source node where
  fits := leaf.span.1 ▸ fits
  ordered := by
    rw [leaf.span.2]
    exact .nil
  within := by
    rw [leaf.span.2]
    exact List.forall_mem_nil _
  text := by
    rintro _ _ rfl
    cases leaf

theorem Placed.of_block {node : Node} {first last : Token} {opened closed : Span} {inside : List Lexeme}
    {chosen : List Span} (orderly : Orderly source (⟨first, opened⟩ :: (inside ++ [⟨last, closed⟩])))
    (fewer : chosen.Sublist (inside.map Located.span)) (gathered : Gathered chosen (node.children.map Node.span))
    (span : node.span = ⟨opened.start, closed.stop⟩) (noText : ∀ span text, node ≠ .text span text) :
    Placed source node := by
  have starts := orderly.fits ⟨first, opened⟩ List.mem_cons_self
  have stops := orderly.fits ⟨last, closed⟩ (by simp)
  have ordered := orderly.ordered
  rw [List.map_cons, List.map_append, List.pairwise_cons, List.pairwise_append] at ordered
  obtain ⟨behind, inner, -, before⟩ := ordered
  have around : opened.Before closed := behind closed (by simp)
  refine ⟨?_, gathered.ordered (inner.sublist fewer), fun child mem => ?_, fun span text same => absurd same (noText span text)⟩
  · rw [span]
    refine Span.fits_iff.2 ⟨starts.starts, stops.stops, ?_⟩
    have := starts.nonempty
    have := stops.nonempty
    unfold Span.Before at around
    dsimp only at *
    omega
  · obtain ⟨from', starting, upTo, stopping, same⟩ := gathered.ends child.span (List.mem_map_of_mem mem)
    have after : opened.Before from' := behind from' (List.mem_append_left _ (fewer.mem starting))
    have ahead : upTo.Before closed := before upTo (fewer.mem stopping) closed (by simp)
    have := starts.nonempty
    have := stops.nonempty
    rw [same, span]
    unfold Span.Before at after ahead
    unfold Span.Within
    dsimp only at *
    omega

theorem Division.gathered {condition : String} {tokens : List Lexeme} {branches : List (String × List Node)}
    {otherwise : Option (List Node)} {closed : Span}
    (division : Division source condition tokens branches otherwise closed) :
    ∃ inside last chosen, tokens = inside ++ [⟨last, closed⟩] ∧ chosen.Sublist (inside.map Located.span) ∧
      Gathered chosen ((branches.flatMap Prod.snd ++ otherwise.getD []).map Node.span) := by
  match division with
  | @Division.last _ _ _ _ inside body within =>
    exact ⟨inside, _, _, rfl, List.Sublist.refl _, by simpa using within.gathered⟩
  | @Division.otherwise _ _ ignored _ between _ inside final body other within ends =>
    refine ⟨inside ++ ⟨.directive "else" ignored, between⟩ :: final, _, _, by rw [List.append_assoc]; rfl, ?_,
      by simpa using within.gathered.append ends.gathered⟩
    rw [List.map_append]
    exact (List.Sublist.refl _).append (List.sublist_cons_self _ _)
  | @Division.elseIf _ _ args between _ inside others body _ _ within further =>
    obtain ⟨inner, last, chosen, rfl, fewer, gathered⟩ := further.gathered
    refine ⟨inside ++ ⟨.directive "elseif" args, between⟩ :: inner, last, _, by rw [List.append_assoc]; rfl, ?_,
      by simpa [List.append_assoc] using within.gathered.append gathered⟩
    rw [List.map_append]
    exact (List.Sublist.refl _).append (fewer.cons _)

theorem Placed.prepend_text {span : Span} {text : String} {nodes : List Node} (fits : span.Fits source)
    (unescaped : Unescaped (slice source span) text.toList) (behind : ∀ node, Inside nodes node → Placed source node) :
    ∀ node, Inside ((Node.text span text).prepend nodes) node → Placed source node := by
  intro node inside
  rcases Template.prepend_text span text nodes with same | ⟨next, after, others, rfl, touching, same⟩
  · rw [same] at inside
    rcases Inside.cons_iff.1 inside with rfl | within | later
    · exact .of_text fits unescaped
    · exact absurd within Inside.not_nil
    · exact behind node later
  · rw [same] at inside
    obtain ⟨fits', -, -, literal⟩ := behind (.text next after) (.here List.mem_cons_self)
    rcases Inside.cons_iff.1 inside with rfl | within | further
    · have some := fits.nonempty
      have some' : next.start < next.stop := fits'.nonempty
      have joined := @slice_append source span next fits fits' touching
      refine .of_text (Span.fits_iff.2 ⟨fits.starts, fits'.stops, by dsimp only; omega⟩) ?_
      rw [joined, String.toList_append]
      exact unescaped.append (literal next after rfl)
    · exact absurd within Inside.not_nil
    · exact behind node (Inside.cons_iff.2 (.inr (.inr further)))

mutual
theorem Outline.placed {tokens : List Lexeme} {nodes : List Node} (outline : Outline source tokens nodes)
    (orderly : Orderly source tokens) : ∀ node, Inside nodes node → Placed source node := by
  match outline with
  | .nil => exact fun node inside => absurd inside Inside.not_nil
  | @Outline.text _ span value _ _ behind =>
    exact .prepend_text (orderly.fits _ List.mem_cons_self) (orderly.texts _ List.mem_cons_self value rfl)
      (behind.placed (orderly.sublist (List.sublist_cons_self _ _)))
  | .leaf single behind =>
    intro node inside
    rcases Inside.cons_iff.1 inside with rfl | within | later
    · exact .of_leaf single (orderly.fits _ List.mem_cons_self)
    · rw [single.span.2] at within
      exact absurd within Inside.not_nil
    · exact behind.placed (orderly.sublist (List.sublist_cons_self _ _)) node later
  | .literal _ behind =>
    refine .prepend_text (orderly.fits _ List.mem_cons_self) ?_
      (behind.placed (orderly.sublist (List.sublist_cons_self _ _)))
    rw [String.toList_ofList]
    exact .refl _
  | @Outline.block _ _ _ _ ignored _ closed tokens rest outer body _ encloses inner behind =>
    intro node inside
    rcases Inside.cons_iff.1 inside with rfl | within | later
    · have gathered : ∃ chosen, chosen.Sublist (tokens.map Located.span) ∧
          Gathered chosen (node.children.map Node.span) := by
        rcases encloses.children with same | none
        · exact ⟨_, List.Sublist.refl _, same ▸ inner.gathered⟩
        · exact ⟨[], List.nil_sublist _, none ▸ .nil⟩
      obtain ⟨chosen, fewer, gathered⟩ := gathered
      have around := orderly.sublist (((List.Sublist.refl tokens).append ((List.nil_sublist rest).cons_cons _)).cons_cons _)
      exact .of_block around fewer gathered encloses.span (by cases encloses <;> nofun)
    · rcases encloses.children with same | none
      · rw [same] at within
        exact inner.placed (orderly.sublist ((List.sublist_append_left tokens _).cons _)) node within
      · rw [none] at within
        exact absurd within Inside.not_nil
    · refine behind.placed (orderly.sublist ?_) node later
      exact ((List.sublist_cons_self _ rest).trans (List.sublist_append_right tokens _)).cons _
  | @Outline.conditional _ _ opened closed tokens rest branches otherwise _ division behind =>
    intro node inside
    rcases Inside.cons_iff.1 inside with rfl | within | later
    · obtain ⟨inner, last, chosen, rfl, fewer, gathered⟩ := division.gathered
      have around := orderly.sublist ((List.sublist_append_left _ rest).cons_cons _)
      exact .of_block around fewer gathered rfl nofun
    · exact division.placed (orderly.sublist ((List.sublist_append_left tokens rest).cons _)) node within
    · exact behind.placed (orderly.sublist ((List.sublist_append_right tokens rest).cons _)) node later

theorem Division.placed {condition : String} {tokens : List Lexeme} {branches : List (String × List Node)}
    {otherwise : Option (List Node)} {closed : Span}
    (division : Division source condition tokens branches otherwise closed) (orderly : Orderly source tokens) :
    ∀ node, Inside (branches.flatMap Prod.snd ++ otherwise.getD []) node → Placed source node := by
  match division with
  | @Division.last _ _ _ _ tokens body within =>
    intro node inside
    refine within.placed (orderly.sublist (List.sublist_append_left tokens _)) node ?_
    simpa using inside
  | @Division.otherwise _ _ _ _ _ _ tokens final body other within ends =>
    intro node inside
    rcases Inside.append_iff.1 inside with first | second
    · refine within.placed (orderly.sublist (List.sublist_append_left tokens _)) node ?_
      simpa using first
    · refine ends.placed (orderly.sublist ?_) node second
      exact ((List.sublist_append_left final _).cons _).trans (List.sublist_append_right tokens _)
  | @Division.elseIf _ _ _ _ _ tokens others body branches otherwise within further =>
    intro node inside
    rw [List.flatMap_cons, List.append_assoc] at inside
    rcases Inside.append_iff.1 inside with first | second
    · exact within.placed (orderly.sublist (List.sublist_append_left tokens _)) node first
    · refine further.placed (orderly.sublist ?_) node second
      exact (List.sublist_cons_self _ others).trans (List.sublist_append_right tokens _)
end

/-- Spans that take up a source in its order and leave out nothing but comments. -/
structure Covering (source : List Char) (spans : List Span) : Prop where
  fits : ∀ span ∈ spans, span.Fits source
  ordered : spans.Pairwise Span.Before
  gaps : Tiled 0 source spans

theorem Tiled.covering {spans : List Span} (tiled : Tiled 0 source spans) : Covering source spans where
  fits := @Tiled.fits [] source spans tiled
  ordered := tiled.ordered
  gaps := tiled

/-- What becomes of a source. -/
structure Accounted (source : String) : Prop where
  tokens : Covering source.toList ((tokenize source).map Located.span)
  nodes : Covering source.toList ((read source).1.map Node.span)
  kept : ∀ lexeme ∈ tokenize source, ∃ node ∈ (read source).1, lexeme.span.Within node.span
  texts : ∀ lexeme ∈ tokenize source, ∀ text, lexeme.value = .text text →
    Unescaped (slice source.toList lexeme.span) text.toList
  /-- At any depth. -/
  placed : ∀ node, Inside (read source).1 node → Placed source.toList node

/-- No byte of a source is lost, read twice or cut out wrongly. -/
theorem source_is_accounted_for (source : String) : Accounted source := by
  have outline := outline_of_read source
  have tokens := tiled_tokenize source
  have texts := texts_tokenize source
  have orderly : Orderly source.toList (tokenize source) := {
    ordered := tokens.ordered
    fits := fun lexeme mem => tokens.covering.fits _ (List.mem_map_of_mem mem)
    texts }
  exact {
    tokens := tokens.covering
    nodes := (outline.gathered.tiled tokens).covering
    kept := fun lexeme mem => by
      obtain ⟨_, there, within⟩ := outline.gathered.covers tokens _ (List.mem_map_of_mem mem)
      obtain ⟨node, mem, rfl⟩ := List.mem_map.1 there
      exact ⟨node, mem, within⟩
    texts
    placed := outline.placed orderly }

end Stencil.Template
