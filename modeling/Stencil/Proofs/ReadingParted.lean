import Stencil.Proofs.ReadingApart
import Stencil.Proofs.TokenSpans

/-! Texts read in parts. Whether literal text is one token or several that touch makes no difference
to what is read. All the ways to lay out pieces in tokens differ only in that. -/

namespace Stencil.Template
open Text

/-- The same tokens, with some texts in parts that touch. -/
inductive Parted : List Lexeme → List Lexeme → Prop where
  | nil : Parted [] []
  | cons (lexeme : Lexeme) {whole parts : List Lexeme} (behind : Parted whole parts) :
      Parted (lexeme :: whole) (lexeme :: parts)
  | split {before after : String} {start middle stop : Nat} {whole parts : List Lexeme}
      (behind : Parted (⟨.text after, ⟨middle, stop⟩⟩ :: whole) parts) :
      Parted (⟨.text (before ++ after), ⟨start, stop⟩⟩ :: whole) (⟨.text before, ⟨start, middle⟩⟩ :: parts)

/-- The same body, and alike tokens behind it. -/
inductive AlikeBody : List Node × List Diagnostic × Option Stop → List Node × List Diagnostic × Option Stop → Prop where
  | endless {nodes : List Node} {problems : List Diagnostic} : AlikeBody (nodes, problems, none) (nodes, problems, none)
  | stopped {nodes : List Node} {problems : List Diagnostic} {closer : Closer} {args : String} {span : Span}
      {whole parts : List Lexeme} (behind : Parted whole parts) :
      AlikeBody (nodes, problems, some (closer, args, span, whole)) (nodes, problems, some (closer, args, span, parts))

/-- The same block, if there is one. -/
inductive AlikeBlock : Option (Node × List Diagnostic × List Lexeme) → Option (Node × List Diagnostic × List Lexeme) →
    Prop where
  | open : AlikeBlock none none
  | closed {node : Node} {problems : List Diagnostic} {whole parts : List Lexeme} (behind : Parted whole parts) :
      AlikeBlock (some (node, problems, whole)) (some (node, problems, parts))

/-- The same branches, if there are any. -/
inductive AlikeBranches : Option (List (String × List Node) × Option (List Node) × List Diagnostic × Nat × List Lexeme) →
    Option (List (String × List Node) × Option (List Node) × List Diagnostic × Nat × List Lexeme) → Prop where
  | open : AlikeBranches none none
  | closed {branches : List (String × List Node)} {otherwise : Option (List Node)} {problems : List Diagnostic}
      {stop : Nat} {whole parts : List Lexeme} (behind : Parted whole parts) :
      AlikeBranches (some (branches, otherwise, problems, stop, whole)) (some (branches, otherwise, problems, stop, parts))

theorem AlikeBody.prepend {first second : List Node × List Diagnostic × Option Stop} (alike : AlikeBody first second)
    (node : Node) (problems : List Diagnostic) :
    AlikeBody (node.prepend first.1, problems ++ first.2.1, first.2.2)
      (node.prepend second.1, problems ++ second.2.1, second.2.2) := by
  cases alike with
  | endless => exact .endless
  | stopped behind => exact .stopped behind

variable {source : List Char}

theorem first?_parted {stops : List Closer} {lexeme : Lexeme} {whole parts : List Lexeme} (parted : Parted whole parts)
    (blocks : ∀ name args opener, lexeme.value = .directive name args →
      AlikeBlock ((scanBlock source opener (args.getD "") lexeme.span whole).map Block.parts)
        ((scanBlock source opener (args.getD "") lexeme.span parts).map Block.parts)) :
    AlikeBlock (first? source stops lexeme whole) (first? source stops lexeme parts) := by
  match lexeme with
  | ⟨.text text, span⟩ | ⟨.echo expression raw, span⟩ => exact .closed parted
  | ⟨.directive name args, span⟩ =>
    unfold first?
    dsimp only
    cases role : roleOf name (args.getD "") with
    | standalone => exact .closed parted
    | closer closer =>
      dsimp only
      split
      · exact .open
      · exact .closed parted
    | opener opener =>
      dsimp only
      have alike := blocks name args opener rfl
      revert alike
      generalize (scanBlock source opener (args.getD "") span whole).map Block.parts = first
      generalize (scanBlock source opener (args.getD "") span parts).map Block.parts = second
      intro alike
      cases alike with
      | «open» => exact .closed parted
      | closed behind => exact .closed behind

mutual
/-- Reading the parts of texts gives the same. -/
theorem scanBody_parted (stops : List Closer) {whole : List Lexeme} (parts : List Lexeme) (parted : Parted whole parts) :
    AlikeBody (scanBody source stops whole).parts (scanBody source stops parts).parts := by
  cases parted with
  | nil =>
    rw [scanBody]
    exact .endless
  | @split before after start middle stop whole parts behind =>
    have onwards := (scanBody_parted stops parts behind).prepend (.text ⟨start, middle⟩ before) []
    have joined := @prepend_joined ⟨start, middle⟩ ⟨middle, stop⟩ rfl before after (scanBody source stops whole).parts.1
    rw [scanBody_text] at onwards
    rw [scanBody_text, scanBody_text, joined]
    exact onwards
  | @cons lexeme whole parts behind =>
    have blocks := @first?_parted source stops _ _ _ behind fun name args opener _ =>
      scanBlock_parted opener (args.getD "") lexeme.span parts behind
    generalize left : first? source stops lexeme whole = first at blocks
    generalize right : first? source stops lexeme parts = second at blocks
    cases blocks with
    | «open» =>
      obtain ⟨token, span⟩ := lexeme
      obtain ⟨closer, args, ends, rfl⟩ := first?_none left
      rw [scanBody_closer stops ends, scanBody_closer stops ends]
      exact .stopped behind
    | closed further =>
      have := (first?_inside right).length_le
      rw [scanBody_first left, scanBody_first right]
      exact (scanBody_parted stops _ further).prepend _ _
termination_by (parts.length, 0)

theorem scanBlock_parted (opener : Opener) (args : String) (start : Span) {whole : List Lexeme} (parts : List Lexeme)
    (parted : Parted whole parts) :
    AlikeBlock ((scanBlock source opener args start whole).map Block.parts)
      ((scanBlock source opener args start parts).map Block.parts) := by
  by_cases conditional : opener = .conditional
  · subst conditional
    rw [scanBlock_conditional, scanBlock_conditional]
    have alike := scanBranches_parted args parts parted
    generalize (scanBranches source args whole).map Branches.parts = first at alike
    generalize (scanBranches source args parts).map Branches.parts = second at alike
    cases alike with
    | «open» => exact .open
    | closed behind => exact .closed behind
  · rw [scanBlock_single conditional, scanBlock_single conditional]
    have alike := scanBody_parted opener.stops parts parted
    generalize (scanBody source opener.stops whole).parts = first at alike
    generalize (scanBody source opener.stops parts).parts = second at alike
    cases alike with
    | endless => exact .open
    | stopped behind => exact .closed behind
termination_by (parts.length, 2)

theorem scanBranches_parted (condition : String) {whole : List Lexeme} (parts : List Lexeme)
    (parted : Parted whole parts) :
    AlikeBranches ((scanBranches source condition whole).map Branches.parts)
      ((scanBranches source condition parts).map Branches.parts) := by
  rw [scanBranches_parts, scanBranches_parts]
  have alike := scanBody_parted Opener.conditional.stops parts parted
  generalize (scanBody source Opener.conditional.stops whole).parts = first at alike
  generalize right : (scanBody source Opener.conditional.stops parts).parts = second at alike
  cases alike with
  | endless => exact .open
  | @stopped nodes problems closer args span whole parts behind =>
    have := (@stop_inside source _ _ _ _ _ _ (by rw [right])).2
    dsimp only [Option.bind_some]
    split
    · have others := scanBranches_parted args parts behind
      generalize (scanBranches source args whole).map Branches.parts = first at others
      generalize (scanBranches source args parts).map Branches.parts = second at others
      cases others with
      | «open» => exact .open
      | closed further => exact .closed further
    split
    · have last := scanBody_parted [.endIf] parts behind
      generalize (scanBody source [.endIf] whole).parts = first at last
      generalize (scanBody source [.endIf] parts).parts = second at last
      cases last with
      | endless => exact .open
      | stopped further => exact .closed further
    · exact .closed behind
termination_by (parts.length, 1)
end

theorem nodes_parted (stops : List Closer) {whole parts : List Lexeme} (parted : Parted whole parts) :
    (scanBody source stops whole).parts.1 = (scanBody source stops parts).parts.1 := by
  have alike := @scanBody_parted source stops _ parts parted
  generalize (scanBody source stops whole).parts = first at alike
  generalize (scanBody source stops parts).parts = second at alike
  cases alike <;> rfl

/-- Text that is held back is flushed on its own, or with the text that begins the row. -/
theorem assemble_held (position : Nat) {row : List (List Char × Piece)}
    (genuine : ∀ piece ∈ row, Piece.Written piece.1 piece.2) :
    (∀ pending : Pending, pending.reversed ≠ [] → assemble position pending row =
      ⟨.text (String.ofList pending.reversed.reverse), ⟨pending.start, position⟩⟩ :: assemble position {} row) ∨
    ∃ more stop whole, assemble position {} row = ⟨.text (String.ofList more), ⟨position, stop⟩⟩ :: whole ∧
      ∀ pending : Pending, pending.reversed ≠ [] → assemble position pending row =
        ⟨.text (String.ofList (pending.reversed.reverse ++ more)), ⟨pending.start, stop⟩⟩ :: whole := by
  induction row generalizing position with
  | nil =>
    refine .inl fun pending some => ?_
    simp [assemble, Pending.flush, some]
  | cons first row ih =>
    obtain ⟨written, piece⟩ := first
    obtain ⟨here, others⟩ := List.forall_mem_cons.1 genuine
    cases here with
    | comment | token =>
      refine .inl fun pending some => ?_
      simp [assemble, Pending.flush, some]
    | @literal text some _ =>
      -- The literal is held back, too, and what is held then is flushed further on.
      have held (pending : Pending) : (pending.push position text).reversed ≠ [] := by simp [Pending.push, some]
      rcases ih (position + byteLength written) others with alone | ⟨more, stop, whole, _, joined⟩
      · refine .inr ⟨text, position + byteLength written, assemble (position + byteLength written) {} row, ?_,
          fun pending some => ?_⟩
        · rw [assemble, alone _ (held _)]
          simp [Pending.push]
        · rw [assemble, alone _ (held _)]
          simp [Pending.push, some]
      · refine .inr ⟨text ++ more, stop, whole, ?_, fun pending some => ?_⟩
        · rw [assemble, joined _ (held _)]
          simp [Pending.push]
        · rw [assemble, joined _ (held _)]
          simp [Pending.push, some]

theorem assemble_comments {position : Nat} {gap row : List (List Char × Piece)}
    (comments : ∀ piece ∈ gap, piece.2 = .comment) :
    assemble position {} (gap ++ row) = assemble (position + width gap) {} row := by
  induction gap generalizing position with
  | nil => rfl
  | cons first gap ih =>
    obtain ⟨written, piece⟩ := first
    obtain ⟨rfl, others⟩ := List.forall_mem_cons.1 comments
    rw [List.cons_append, assemble, ih others, width_cons, Nat.add_assoc]
    rfl

theorem assemble_literals {start : Nat} {pending : Pending} {before literals : List (List Char × List Char)}
    (holds : Held pending start before) (genuine : ∀ literal ∈ literals, literal.2 ≠ []) (row : List (List Char × Piece)) :
    ∃ further, Held further start (before ++ literals) ∧
      assemble (start + width (Held.row before)) pending (Held.row literals ++ row) =
        assemble (start + width (Held.row (before ++ literals))) further row := by
  induction literals generalizing pending before with
  | nil => exact ⟨pending, by simpa using holds, by simp [Held.row]⟩
  | cons literal literals ih =>
    obtain ⟨some, others⟩ := List.forall_mem_cons.1 genuine
    obtain ⟨further, held, same⟩ := ih (@Held.push _ _ _ holds literal.1 _ some) others
    refine ⟨further, by simpa using held, ?_⟩
    have wider : start + width (Held.row before) + byteLength literal.1 = start + width (Held.row (before ++ [literal])) := by
      simp [Held.row, Nat.add_assoc]
    have first : Held.row (literal :: literals) ++ row = (literal.1, .literal literal.2) :: (Held.row literals ++ row) := rfl
    rw [first, assemble, wider]
    simpa using same

/-- The tokens that a row is cut into have the longest texts of all that it is laid out in. -/
theorem Laid.parted {position : Nat} {row : List (List Char × Piece)} {lexemes : List Lexeme}
    (laid : Laid position row lexemes) (genuine : ∀ piece ∈ row, Piece.Written piece.1 piece.2) :
    Parted (assemble position {} row) lexemes := by
  induction laid with
  | @nil position gap comments =>
    have none := @assemble_comments position gap [] comments
    rw [List.append_nil] at none
    rw [none]
    exact .nil
  | @cons position gap written row lexemes token comments spells behind ih =>
    simp only [List.forall_mem_append] at genuine
    obtain ⟨-, here, others⟩ := genuine
    rw [assemble_comments comments]
    cases spells with
    | mark => simpa [assemble, Pending.flush] using (ih others).cons _
    | @text literals some =>
      have texts : ∀ literal ∈ literals, literal.2 ≠ [] := by
        intro literal mem
        cases here _ (List.mem_map_of_mem mem) with
        | literal some _ => exact some
      obtain ⟨further, held, same⟩ := assemble_literals (.nothing (position + width gap)) texts row
      have empty : width (Held.row []) = 0 := rfl
      rw [empty, Nat.add_zero, List.nil_append] at same
      rw [List.nil_append] at held
      have more : further.reversed ≠ [] := mt held.empty.1 some
      have onwards : Parted (assemble (position + width gap + width (Held.row literals)) {} row) lexemes := ih others
      change Parted (assemble (position + width gap) {} (Held.row literals ++ row)) _
      rcases assemble_held (position + width gap + width (Held.row literals)) others with
        alone | ⟨after, stop, whole, first, joined⟩
      · rw [same, alone further more, held.text, held.start some]
        exact onwards.cons _
      · rw [same, joined further more, held.text, held.start some, String.ofList_append]
        rw [first] at onwards
        exact .split onwards

end Stencil.Template
