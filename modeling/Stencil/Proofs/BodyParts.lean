import Stencil.Proofs.ReadingThinned

/-! A body in parts, one for each node that is read in it, where texts that touch count as several.
Each part is read by itself as it is in the body, and every row of parts that keep apart is read
as their nodes. -/

namespace Stencil.Template
open Text

theorem Laid.moved {position : Nat} {row : List (List Char × Piece)} {lexemes : List Lexeme}
    (laid : Laid position row lexemes) (distance : Nat) :
    Laid (distance + position) row (lexemes.map (Located.moved distance)) := by
  induction laid with
  | nil comments => exact .nil comments
  | cons comments spells _ ih =>
    rw [List.map_cons, Located.moved, Span.moved]
    simp only [← Nat.add_assoc] at ih ⊢
    exact .cons comments spells ih

/-- The tokens as they are where the pieces stand at the beginning. -/
theorem Laid.from_start {distance position : Nat} {row : List (List Char × Piece)} {lexemes : List Lexeme}
    (laid : Laid (distance + position) row lexemes) :
    ∃ first, Laid position row first ∧ lexemes = first.map (Located.moved distance) := by
  generalize place : distance + position = start at laid
  induction laid generalizing position with
  | nil comments => exact ⟨[], .nil comments, rfl⟩
  | @cons _ gap written row lexemes token comments spells _ ih =>
    subst place
    obtain ⟨first, laid, rfl⟩ := @ih (position + width gap + width written) (by simp only [Nat.add_assoc])
    refine ⟨_, .cons comments spells laid, ?_⟩
    rw [List.map_cons, Located.moved, Span.moved]
    simp only [← Nat.add_assoc]

theorem Laid.bounded {row : List (List Char × Piece)} {lexemes : List Lexeme} (laid : Laid 0 row lexemes)
    (genuine : ∀ piece ∈ row, Piece.Written piece.1 piece.2) : Bounded (row.flatMap Prod.fst) lexemes := by
  intro lexeme mem
  have fits := @Tiled.fits [] _ _ (laid.tiled genuine) lexeme.span (List.mem_map_of_mem mem)
  exact ⟨fits.starts, fits.stops⟩

/-- What is read from all the tokens of a text that stands further on is read where it stands at the beginning. -/
theorem first?_from_start {before text after : List Char} {first : Lexeme} {inside : List Lexeme} {node : Node}
    {problems : List Diagnostic} (bounded : Bounded text (first :: inside))
    (found : first? (before ++ (text ++ after)) [] (first.moved (byteLength before))
      (inside.map (Located.moved (byteLength before))) = some (node, problems, [])) :
    ∃ node' problems', first? text [] first inside = some (node', problems', []) ∧
      node'.moved (byteLength before) = node := by
  obtain ⟨starts, stops⟩ := bounded first List.mem_cons_self
  rw [first?_moved before after starts stops fun name args opener _ _ =>
    scanBlock_moved before after opener (args.getD "") stops inside (bounded.suffix (List.suffix_cons _ _))] at found
  obtain ⟨⟨node', problems', rest⟩, alone, same⟩ := Option.map_eq_some_iff.1 found
  simp only [Prod.mk.injEq, List.map_eq_nil_iff] at same
  obtain ⟨rfl, _, rfl⟩ := same
  exact ⟨node', problems', alone, rfl⟩

theorem nodes_of_first? {source : List Char} {first : Lexeme} {others : List Lexeme} {node : Node}
    {problems : List Diagnostic} (found : first? source [] first others = some (node, problems, [])) :
    (scanBody source [] (first :: others)).parts.1 = [node] := by
  have nothing : (scanBody source [] []).parts.1 = [] := by
    rw [scanBody]
    rfl
  rw [scanBody_first found, nothing]
  cases node <;> rfl

/-- What a node was read from, as if it stood at the beginning, and the comments in front of it. -/
structure Part where
  gap : List (List Char × Piece)
  row : List (List Char × Piece)
  first : Lexeme
  others : List Lexeme
  node : Node

namespace Part

def tokens (part : Part) : List Lexeme := part.first :: part.others

def text (part : Part) : List Char := part.row.flatMap Prod.fst

structure Sound (part : Part) : Prop where
  comments : ∀ piece ∈ part.gap, piece.2 = .comment
  genuine : ∀ piece ∈ part.gap ++ part.row, Piece.Written piece.1 piece.2
  laid : Laid 0 part.row part.tokens
  read : ∃ problems, first? part.text [] part.first part.others = some (part.node, problems, [])
  span : part.node.span = ⟨0, width part.row⟩

def rows (parts : List Part) : List (List Char × Piece) := parts.flatMap fun part => part.gap ++ part.row

def tokensFrom : Nat → List Part → List Lexeme
  | _, [] => []
  | position, part :: parts =>
    let start := position + width part.gap
    part.tokens.map (Located.moved start) ++ tokensFrom (start + width part.row) parts

def nodesFrom : Nat → List Part → List Node
  | _, [] => []
  | position, part :: parts =>
    let start := position + width part.gap
    part.node.moved start :: nodesFrom (start + width part.row) parts

/-- No block of a part goes on behind it. -/
inductive Separate (source : List Char) : Nat → List Part → Prop where
  | nil {position : Nat} : Separate source position []
  | cons {position : Nat} {part : Part} {parts : List Part}
      (apart : Apart source (part.tokens.map (Located.moved (position + width part.gap)))
        (tokensFrom (position + width part.gap + width part.row) parts))
      (behind : Separate source (position + width part.gap + width part.row) parts) :
      Separate source position (part :: parts)

theorem laid {parts : List Part} (sound : ∀ part ∈ parts, part.Sound) (position : Nat) :
    Laid position (rows parts) (tokensFrom position parts) := by
  induction parts generalizing position with
  | nil => exact .nil (List.forall_mem_nil _)
  | cons part parts ih =>
    obtain ⟨here, others⟩ := List.forall_mem_cons.1 sound
    have moved := here.laid.moved (position + width part.gap)
    rw [rows, List.flatMap_cons, List.append_assoc]
    exact .gap here.comments (moved.append (ih others _))

theorem Sound.bounded {part : Part} (sound : part.Sound) : Bounded part.text part.tokens :=
  sound.laid.bounded (List.forall_mem_append.1 sound.genuine).2

theorem Sound.nodes {part : Part} (sound : part.Sound) :
    (scanBody part.text [] part.tokens).parts.1 = [part.node] := by
  obtain ⟨problems, found⟩ := sound.read
  exact nodes_of_first? found

variable {source : List Char}

/-- The nodes of a part, further on in a source. -/
theorem Sound.nodes_moved {part : Part} (sound : part.Sound) (before after : List Char) :
    (scanBody (before ++ (part.text ++ after)) [] (part.tokens.map (Located.moved (byteLength before)))).parts.1 =
      [part.node.moved (byteLength before)] := by
  rw [scanBody_moved before after [] part.tokens sound.bounded, movedParts, sound.nodes]
  rfl

theorem nodes_append {tokens behind : List Lexeme} (apart : Apart source tokens behind) :
    (scanBody source [] (tokens ++ behind)).parts.1 =
      (scanBody source [] tokens).parts.1.foldr Node.prepend (scanBody source [] behind).parts.1 := by
  rw [scanBody_append [] tokens apart]
  rcases here : (scanBody source [] tokens).parts with ⟨nodes, problems, _ | ⟨closer, args, span, rest⟩⟩
  · rfl
  · -- Nothing ends the body.
    obtain ⟨_, _, _, _, _, stopped⟩ := outline_of_scanBody [] tokens here
    cases stopped.1

/-- The text of the first part stands behind its gap, and in front of the others. -/
theorem split_first {before after : List Char} {part : Part} {parts : List Part}
    (split : source = before ++ ((rows (part :: parts)).flatMap Prod.fst ++ after)) :
    ∃ front, source = front ++ (part.text ++ ((rows parts).flatMap Prod.fst ++ after)) ∧
      source = front ++ part.text ++ ((rows parts).flatMap Prod.fst ++ after) ∧
      byteLength before + width part.gap = byteLength front ∧
      byteLength front + width part.row = byteLength (front ++ part.text) := by
  have whole : source = before ++ part.gap.flatMap Prod.fst ++
      (part.text ++ ((rows parts).flatMap Prod.fst ++ after)) := by
    rw [split, rows, List.flatMap_cons, List.flatMap_append, List.flatMap_append, text]
    simp only [List.append_assoc]
    rfl
  exact ⟨before ++ part.gap.flatMap Prod.fst, whole, by rw [List.append_assoc _ part.text, ← whole],
    (byteLength_append _ _).symm, (byteLength_append _ _).symm⟩

/-- Parts that keep apart are read as their nodes. -/
theorem nodes_of_separate {before after : List Char} {parts : List Part} (sound : ∀ part ∈ parts, part.Sound)
    (split : source = before ++ ((rows parts).flatMap Prod.fst ++ after))
    (separate : Separate source (byteLength before) parts) :
    (scanBody source [] (tokensFrom (byteLength before) parts)).parts.1 =
      (nodesFrom (byteLength before) parts).foldr Node.prepend [] := by
  induction parts generalizing before with
  | nil =>
    rw [tokensFrom, scanBody]
    rfl
  | cons part parts ih =>
    obtain ⟨here, others⟩ := List.forall_mem_cons.1 sound
    obtain ⟨front, whole, split, start, stop⟩ := split_first split
    cases separate with
    | cons apart behind =>
      rw [start, stop] at apart behind
      have alone := here.nodes_moved front ((rows parts).flatMap Prod.fst ++ after)
      rw [← whole] at alone
      simp only [tokensFrom, nodesFrom]
      rw [start, stop, nodes_append apart, alone, ih others split behind]
      rfl

/-- The only node of some pieces takes up all of them. -/
theorem span_of_single {row : List (List Char × Piece)} {tokens : List Lexeme} {node : Node} (laid : Laid 0 row tokens)
    (genuine : ∀ piece ∈ row, Piece.Written piece.1 piece.2)
    (nodes : (scanBody (row.flatMap Prod.fst) [] tokens).parts.1 = [node])
    (starts : ∃ first ∈ tokens, first.span.start = 0) (stops : ∃ last ∈ tokens, last.span.stop = width row) :
    node.span = ⟨0, width row⟩ := by
  have tiled := laid.tiled genuine
  rcases read : (scanBody (row.flatMap Prod.fst) [] tokens).parts with ⟨_, problems, stop⟩
  rw [read] at nodes
  cases nodes
  obtain ⟨inside, behind, rfl, outline, -, stopped⟩ := outline_of_scanBody [] tokens read
  cases stop with
  | some found => cases stopped.1
  | none =>
    cases stopped.nil
    rw [List.append_nil] at laid starts stops tiled
    have covers := outline.gathered.covers tiled
    obtain ⟨first, mem, starts⟩ := starts
    obtain ⟨last, mem', stops⟩ := stops
    obtain ⟨_, single, within, -⟩ := covers _ (List.mem_map_of_mem mem)
    cases List.mem_singleton.1 single
    obtain ⟨_, single', -, within'⟩ := covers _ (List.mem_map_of_mem mem')
    cases List.mem_singleton.1 single'
    have bounds := ((outline.gathered.tiled tiled).bounds node.span List.mem_cons_self).2.2
    change node.span.stop ≤ 0 + width row at bounds
    rcases place : node.span with ⟨start, stop⟩
    rw [place] at within within' bounds
    rw [Span.mk.injEq]
    dsimp only at within within' bounds
    omega

/-- A body falls into parts that keep apart. -/
theorem parts_of_laid {before : List Char} (tokens : List Lexeme) {row : List (List Char × Piece)}
    (split : source = before ++ row.flatMap Prod.fst) (laid : Laid (byteLength before) row tokens)
    (genuine : ∀ piece ∈ row, Piece.Written piece.1 piece.2) :
    ∃ parts gap, row = rows parts ++ gap ∧ (∀ piece ∈ gap, piece.2 = .comment) ∧
      tokens = tokensFrom (byteLength before) parts ∧ (∀ part ∈ parts, part.Sound) ∧
      Separate source (byteLength before) parts := by
  match tokens with
  | [] =>
    cases laid with
    | nil comments => exact ⟨[], row, rfl, comments, rfl, List.forall_mem_nil _, .nil⟩
  | lexeme :: rest =>
    cases found : first? source [] lexeme rest with
    | none =>
      obtain ⟨_, _, impossible, _⟩ := first?_none found
      cases impossible
    | some first =>
      obtain ⟨node, problems, further⟩ := first
      obtain ⟨inner, rfl⟩ := first?_inside found
      obtain ⟨gap, written, others, rfl, comments, here, behind, starts, last, mem, stops⟩ := laid.split
      have place : byteLength before + width gap = byteLength (before ++ gap.flatMap Prod.fst) :=
        (byteLength_append _ _).symm
      have stop : byteLength (before ++ gap.flatMap Prod.fst) + width written =
        byteLength (before ++ gap.flatMap Prod.fst ++ written.flatMap Prod.fst) := (byteLength_append _ _).symm
      have whole : source = before ++ gap.flatMap Prod.fst ++ (written.flatMap Prod.fst ++ others.flatMap Prod.fst) := by
        simpa using split
      rw [← List.append_assoc, List.forall_mem_append] at genuine
      rw [place] at here behind starts stops
      rw [stop] at behind
      obtain ⟨tokens, placed, same⟩ := @Laid.from_start (byteLength (before ++ gap.flatMap Prod.fst)) 0 _ _ here
      rcases tokens with _ | ⟨first, inside⟩
      · cases same
      obtain ⟨rfl, rfl⟩ := List.cons.inj same
      have apart := first?_apart found
      have alone := first?_alone found
      rw [whole] at alone
      have genuine' := (List.forall_mem_append.1 genuine.1).2
      obtain ⟨node', problems', read, rfl⟩ := first?_from_start (placed.bounded genuine') alone
      obtain ⟨parts, last, rfl, comments', rfl, sound, separate⟩ := parts_of_laid further (by simpa using whole) behind
        genuine.2
      have span : node'.span = ⟨0, width written⟩ := by
        refine span_of_single placed genuine' (nodes_of_first? read) ⟨first, List.mem_cons_self, ?_⟩ ?_
        · simpa [Located.moved, Span.moved] using starts
        · rw [← List.map_cons] at mem
          obtain ⟨lexeme, there, rfl⟩ := List.mem_map.1 mem
          exact ⟨lexeme, there, by simpa [Located.moved, Span.moved, ← stop] using stops⟩
      refine ⟨⟨gap, written, first, inside, node'⟩ :: parts, last, by simp [rows], comments', ?_, ?_, ?_⟩
      · simp only [tokensFrom]
        rw [place, stop]
        rfl
      · exact List.forall_mem_cons.2 ⟨⟨comments, genuine.1, placed, ⟨problems', read⟩, span⟩, sound⟩
      · refine .cons ?_ ?_
        · simp only
          rw [place, stop]
          exact apart
        · simp only
          rw [place, stop]
          exact separate
termination_by tokens.length

end Part
end Stencil.Template
