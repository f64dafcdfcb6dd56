import Stencil.Template.Basic

/-! Template source as a row of pieces. Cutting source into tokens is done in two steps: what
stands at each place is read from the text alone, and then the pieces are put together, with
literal ones joined to texts. What the pieces take up is the whole source. -/

namespace Stencil.Template
open Text

/-- Literal text and what it was written as. An at sign before another one or before a whole
interpolation is left out, and so keeps what follows it from being read; nothing else is. -/
inductive Unescaped : List Char → List Char → Prop where
  | nil : Unescaped [] []
  | plain {c : Char} {written text : List Char} (behind : Unescaped written text) :
      Unescaped (c :: written) (c :: text)
  | doubled {written text : List Char} (behind : Unescaped written text) :
      Unescaped ('@' :: '@' :: written) ('@' :: text)
  | braces {marks : List Char × List Char} {inside written text : List Char} (known : marks ∈ [echoMarks, rawMarks])
      (behind : Unescaped written text) :
      Unescaped ('@' :: (marks.1 ++ inside ++ marks.2 ++ written)) (marks.1 ++ inside ++ marks.2 ++ text)

theorem Unescaped.refl (text : List Char) : Unescaped text text := by
  induction text with
  | nil => exact .nil
  | cons c text ih => exact .plain ih

theorem Unescaped.append {written text written' text' : List Char} (first : Unescaped written text)
    (second : Unescaped written' text') : Unescaped (written ++ written') (text ++ text') := by
  induction first with
  | nil => exact second
  | plain _ ih => exact .plain ih
  | doubled _ ih => exact .doubled ih
  | @braces marks inside written text known _ ih =>
    rw [List.append_assoc _ text, List.cons_append, List.append_assoc _ written]
    exact .braces known ih

/-- The whole of a comment, which ends at the first mark that can end it. -/
def IsComment (written : List Char) : Prop :=
  ∃ inside, enclosed? commentMarks written = some inside ∧ written = commentMarks.1 ++ inside ++ commentMarks.2

/-- What a piece can be written as. -/
inductive Piece.Written : List Char → Piece → Prop where
  | literal {written text : List Char} (some : text ≠ []) (unescaped : Unescaped written text) :
      Written written (.literal text)
  | comment {written : List Char} (comment : IsComment written) : Written written .comment
  | token {written : List Char} {token : Token} (some : written ≠ []) (mark : ∀ text, token ≠ .text text) :
      Written written (.token token)

theorem Piece.Written.nonempty {written : List Char} {piece : Piece} (genuine : Piece.Written written piece) :
    written ≠ [] := by
  rintro rfl
  cases genuine with
  | literal some unescaped =>
    cases unescaped
    exact some rfl
  | comment comment =>
    obtain ⟨inside, _, impossible⟩ := comment
    simp [commentMarks] at impossible
  | token some => exact some rfl

theorem enclosed?_eq_some {marks : List Char × List Char} {text inside : List Char} :
    enclosed? marks text = some inside ↔
      ∃ rest, text = marks.1 ++ (inside ++ marks.2 ++ rest) ∧
        cutFirst? marks.2 (inside ++ marks.2 ++ rest) = some (inside, rest) := by
  constructor
  · intro found
    obtain ⟨behind, opens, closes⟩ := Option.bind_eq_some_iff.1 found
    obtain ⟨⟨before, rest⟩, cut, rfl⟩ := Option.map_eq_some_iff.1 closes
    have split := cutFirst?_eq_append cut
    refine ⟨rest, ?_, ?_⟩
    · rw [← split]
      exact stripPrefix?_eq_some.1 opens
    · rw [← split]
      exact cut
  · rintro ⟨rest, rfl, cut⟩
    have opens : stripPrefix? marks.1 (marks.1 ++ (inside ++ marks.2 ++ rest)) = some (inside ++ marks.2 ++ rest) :=
      stripPrefix?_eq_some.2 rfl
    rw [enclosed?, opens, Option.bind_some, cut]
    rfl

theorem enclosed?_more {marks : List Char × List Char} {text inside : List Char}
    (found : enclosed? marks text = some inside) (more : List Char) :
    enclosed? marks (marks.1 ++ (inside ++ marks.2 ++ more)) = some inside := by
  obtain ⟨_, _, cut⟩ := enclosed?_eq_some.1 found
  exact enclosed?_eq_some.2 ⟨more, rfl, cutFirst?_more cut more⟩

theorem take_enclosed {marks : List Char × List Char} {c : Char} {tail inside : List Char}
    (opened : marks.1 ≠ []) (found : enclosed? marks (c :: tail) = some inside) :
    c :: tail.take (enclosedWidth marks inside) = marks.1 ++ inside ++ marks.2 := by
  obtain ⟨rest, split, _⟩ := enclosed?_eq_some.1 found
  have width : (marks.1 ++ inside ++ marks.2).length = enclosedWidth marks inside + 1 := by
    have := List.length_pos_iff.2 opened
    simp only [enclosedWidth, List.length_append]
    omega
  rw [← List.take_succ_cons, ← width, split, ← List.append_assoc, ← List.append_assoc, List.take_left']
  rfl

section Piece
variable {inWord : Bool} {c : Char} {tail : List Char}

theorem markedPiece_written {marks : List Char × List Char} {piece : List Char → Piece} (opened : marks.1 ≠ [])
    (written : ∀ inside, enclosed? marks (c :: tail) = some inside →
      Piece.Written (marks.1 ++ inside ++ marks.2) (piece inside)) :
    Piece.Written (c :: tail.take (markedPiece marks c tail piece).2) (markedPiece marks c tail piece).1 := by
  unfold markedPiece
  split
  next inside found =>
    rw [take_enclosed opened found]
    exact written inside found
  next => exact .literal (List.cons_ne_nil c []) (.refl [c])

theorem verbatim?_written {text : List Char} (found : verbatim? tail = some text) :
    Piece.Written ('@' :: tail.take text.length) (.literal text) := by
  obtain ⟨marks, known, inner⟩ := List.exists_of_findSome?_eq_some found
  obtain ⟨inside, enclosed, rfl⟩ := Option.map_eq_some_iff.1 inner
  obtain ⟨rest, rfl, _⟩ := enclosed?_eq_some.1 enclosed
  rw [← List.append_assoc, ← List.append_assoc, List.take_left' rfl]
  refine .literal ?_ ?_
  · rcases List.mem_cons.1 known with rfl | known
    · simp [echoMarks]
    · cases List.mem_singleton.1 known
      simp [rawMarks]
  · have braces := @Unescaped.braces marks inside [] [] known .nil
    simpa using braces

theorem atSign_written : Piece.Written ('@' :: tail.take (atSign inWord tail).2) (atSign inWord tail).1 := by
  unfold atSign
  split
  next doubled =>
    obtain ⟨rest, rfl⟩ : ∃ rest, tail = '@' :: rest := by
      cases tail with
      | nil => cases doubled
      | cons d rest => exact ⟨rest, by rw [Option.some.inj (beq_iff_eq.1 doubled)]⟩
    exact .literal (List.cons_ne_nil _ _) (.doubled .nil)
  next =>
    split
    next text found => exact verbatim?_written found
    next =>
      split
      next found called =>
        unfold called? at called
        dsimp only at called
        split at called
        · cases called
        · split at called
          · split at called
            · obtain ⟨args, _, rfl⟩ := Option.map_eq_some_iff.1 called
              exact .token (List.cons_ne_nil _ _) fun _ same => by cases same
            · cases called
          · cases called
      next =>
        split
        · exact .token (List.cons_ne_nil _ _) fun _ same => by cases same
        · exact .literal (List.cons_ne_nil _ _) (.refl _)

theorem pieceAt_written (inWord : Bool) (c : Char) (tail : List Char) :
    Piece.Written (c :: tail.take (pieceAt inWord c tail).2) (pieceAt inWord c tail).1 := by
  have opened {marks : List Char × List Char} (known : marks ∈ [commentMarks, rawMarks, echoMarks]) : marks.1 ≠ [] := by
    simp only [List.mem_cons, List.not_mem_nil, or_false] at known
    rcases known with rfl | rfl | rfl <;> simp [commentMarks, rawMarks, echoMarks]
  unfold pieceAt
  split
  · apply markedPiece_written (opened (by simp))
    intro inside found
    have whole := enclosed?_more found []
    rw [List.append_nil, ← List.append_assoc] at whole
    exact .comment ⟨inside, whole, rfl⟩
  split
  · exact markedPiece_written (opened (by simp)) fun inside _ => .token (by simp [rawMarks]) nofun
  split
  · exact markedPiece_written (opened (by simp)) fun inside _ => .token (by simp [echoMarks]) nofun
  split
  next at_sign =>
    subst at_sign
    exact atSign_written
  next => exact .literal (List.cons_ne_nil _ _) (.refl _)

end Piece

/-- Whether an at sign right behind the piece stands in the middle of a word. -/
def Piece.endsInWord : Piece → Bool
  | .literal text => text.getLast?.any isWord
  | .comment | .token _ => false

theorem Pending.inWord_push {pending : Pending} {position : Nat} {text : List Char} (some : text ≠ []) :
    (pending.push position text).inWord = (Piece.literal text).endsInWord := by
  have last : text.reverse.head? = text.getLast? := List.head?_reverse
  cases reversed : text.reverse with
  | nil => exact absurd (List.reverse_eq_nil_iff.1 reversed) some
  | cons first others =>
    rw [reversed] at last
    simp [Pending.inWord, Pending.push, Piece.endsInWord, reversed, ← last]

/-- The pieces of a text, each with what it was written as. -/
def pieces (inWord : Bool) (text : List Char) : List (List Char × Piece) :=
  match text with
  | [] => []
  | c :: tail =>
    let (piece, further) := pieceAt inWord c tail
    (c :: tail.take further, piece) :: pieces piece.endsInWord (tail.drop further)
termination_by text.length
decreasing_by exact length_drop_lt _ _ _

theorem pieces_nil (inWord : Bool) : pieces inWord [] = [] := by rw [pieces]

theorem pieces_cons (inWord : Bool) (c : Char) (tail : List Char) :
    pieces inWord (c :: tail) = (c :: tail.take (pieceAt inWord c tail).2, (pieceAt inWord c tail).1) ::
      pieces (pieceAt inWord c tail).1.endsInWord (tail.drop (pieceAt inWord c tail).2) := by rw [pieces]

/-- Puts pieces together from a position on, behind literal text that is no token yet. -/
def assemble (position : Nat) (pending : Pending) : List (List Char × Piece) → List Lexeme
  | [] => pending.flush position
  | (written, piece) :: rest =>
    let stop := position + byteLength written
    match piece with
    | .literal text => assemble stop (pending.push position text) rest
    | .comment => pending.flush position ++ assemble stop {} rest
    | .token token => pending.flush position ++ ⟨token, ⟨position, stop⟩⟩ :: assemble stop {} rest

theorem pieces_written (inWord : Bool) (text : List Char) :
    ∀ piece ∈ pieces inWord text, Piece.Written piece.1 piece.2 := by
  fun_induction pieces inWord text with
  | case1 => exact List.forall_mem_nil _
  | case2 inWord c tail piece further read ih =>
    have written := pieceAt_written inWord c tail
    rw [read] at written
    exact List.forall_mem_cons.2 ⟨written, ih⟩

/-- The pieces take up the whole text. -/
theorem pieces_flatten (inWord : Bool) (text : List Char) : (pieces inWord text).flatMap Prod.fst = text := by
  fun_induction pieces inWord text with
  | case1 => rfl
  | case2 inWord c tail piece further read ih =>
    rw [List.flatMap_cons, ih, List.cons_append, List.take_append_drop]

/-- Behind the first pieces of a text, the others are those of what is left of it. -/
theorem pieces_split {text : List Char} {inWord : Bool} {front back : List (List Char × Piece)}
    (split : pieces inWord text = front ++ back) :
    ∃ right, text = front.flatMap Prod.fst ++ right ∧
      back = pieces (front.foldl (fun _ piece => piece.2.endsInWord) inWord) right := by
  induction front generalizing inWord text with
  | nil => exact ⟨text, rfl, split.symm⟩
  | cons first front ih =>
    cases text with
    | nil =>
      rw [pieces_nil] at split
      cases split
    | cons c tail =>
      rw [pieces_cons] at split
      obtain ⟨here, behind⟩ := List.cons.inj split
      obtain ⟨right, rest, same⟩ := ih behind
      refine ⟨right, ?_, ?_⟩
      · rw [List.flatMap_cons, ← here, List.append_assoc, ← rest, List.cons_append, List.take_append_drop]
      · rw [List.foldl_cons, ← here]
        exact same

theorem tokenizeFrom_eq_assemble (position : Nat) (pending : Pending) (text : List Char) :
    tokenizeFrom position pending text = assemble position pending (pieces pending.inWord text) := by
  generalize same : pending.inWord = inWord
  fun_induction pieces inWord text generalizing position pending with
  | case1 => rw [tokenizeFrom_nil, assemble]
  | case2 inWord c tail piece further read ih =>
    have written := pieceAt_written inWord c tail
    have stop : position + c.utf8Size + byteLength (tail.take further) =
      position + byteLength (c :: tail.take further) := Nat.add_assoc ..
    rw [tokenizeFrom, same, read]
    rw [read] at written
    dsimp only
    rw [stop]
    cases piece with
    | literal text =>
      apply ih
      cases written with
      | literal some _ => exact Pending.inWord_push some
    | comment => exact congrArg _ (ih _ _ rfl)
    | token token => exact congrArg (_ ++ _ :: ·) (ih _ _ rfl)

theorem tokenize_eq_assemble (source : String) :
    tokenize source = assemble 0 {} (pieces false source.toList) := tokenizeFrom_eq_assemble 0 {} source.toList

theorem flush_split {pending : Pending} {position : Nat} {row before after : List Lexeme} {lexeme : Lexeme}
    (split : pending.flush position ++ row = before ++ lexeme :: after) (mark : ∀ text, lexeme.value ≠ .text text) :
    ∃ more, before = pending.flush position ++ more ∧ row = more ++ lexeme :: after := by
  obtain ⟨more, same, rest⟩ | ⟨more, same, rest⟩ := List.append_eq_append_iff.1 split
  · exact ⟨more, same, rest⟩
  · cases more with
    | nil => exact ⟨[], by simpa using same.symm, by simpa using rest.symm⟩
    | cons first more =>
      -- A text is all that can be held back, and the lexeme is none.
      obtain ⟨rfl, _⟩ := List.cons.inj rest
      have held : lexeme ∈ pending.flush position := by rw [same]; simp
      unfold Pending.flush at held
      split at held
      · cases held
      · rw [List.mem_singleton.1 held] at mark
        exact absurd rfl (mark _)

/-- A token that is no text is a piece. What stands before it and behind it is put together apart. -/
theorem assemble_split {position : Nat} {pending : Pending} {row : List (List Char × Piece)} {before after : List Lexeme}
    {token : Token} {span : Span} (split : assemble position pending row = before ++ ⟨token, span⟩ :: after)
    (mark : ∀ text, token ≠ .text text) :
    ∃ front written back, row = front ++ (written, .token token) :: back ∧
      span = ⟨position + byteLength (front.flatMap Prod.fst),
        position + byteLength (front.flatMap Prod.fst) + byteLength written⟩ ∧
      before = assemble position pending front ∧ after = assemble span.stop {} back := by
  induction row generalizing position pending before with
  | nil =>
    rw [assemble, ← List.append_nil (pending.flush position)] at split
    obtain ⟨more, _, impossible⟩ := flush_split split mark
    simp at impossible
  | cons first row ih =>
    obtain ⟨written, piece⟩ := first
    -- What is found further on stands behind the first piece, too.
    have further {inner : Pending} {more : List Lexeme}
        (behind : assemble (position + byteLength written) inner row = more ++ ⟨token, span⟩ :: after)
        (joined : ∀ front, more = assemble (position + byteLength written) inner front →
          before = assemble position pending ((written, piece) :: front)) :
        ∃ front written' back, (written, piece) :: row = front ++ (written', .token token) :: back ∧
          span = ⟨position + byteLength (front.flatMap Prod.fst),
            position + byteLength (front.flatMap Prod.fst) + byteLength written'⟩ ∧
          before = assemble position pending front ∧ after = assemble span.stop {} back := by
      obtain ⟨front, written', back, rfl, place, same, rest⟩ := ih behind
      refine ⟨(written, piece) :: front, written', back, rfl, ?_, joined front same, rest⟩
      simpa [Nat.add_assoc] using place
    cases piece with
    | literal text => exact further split fun front same => same
    | comment =>
      rw [assemble] at split
      obtain ⟨more, rfl, behind⟩ := flush_split split mark
      exact further behind fun front same => by rw [same, assemble]
    | token other =>
      rw [assemble] at split
      obtain ⟨more, rfl, behind⟩ := flush_split split mark
      cases more with
      | nil =>
        obtain ⟨here, rest⟩ := List.cons.inj behind
        cases here
        exact ⟨[], written, row, rfl, rfl, by simp [assemble], rest.symm⟩
      | cons next more =>
        obtain ⟨rfl, rest⟩ := List.cons.inj behind
        exact further rest fun front same => by rw [same, assemble]

/-- What starts at the place of a token that is no text. -/
theorem pieceAt_of_mem {source : String} {token : Token} {span : Span} (mem : ⟨token, span⟩ ∈ tokenize source)
    (mark : ∀ text, token ≠ .text text) : ∃ front inWord c tail further, source.toList = front ++ c :: tail ∧
      pieceAt inWord c tail = (.token token, further) ∧
      span = ⟨byteLength front, byteLength front + byteLength (c :: tail.take further)⟩ := by
  obtain ⟨before, after, split⟩ := List.append_of_mem mem
  rw [tokenize_eq_assemble] at split
  obtain ⟨front, written, back, row, rfl, _⟩ := assemble_split split mark
  obtain ⟨right, whole, rest⟩ := pieces_split row
  cases right with
  | nil =>
    rw [pieces_nil] at rest
    cases rest
  | cons c tail =>
    rw [pieces_cons] at rest
    generalize read : pieceAt _ c tail = found at rest
    obtain ⟨piece, further⟩ := found
    obtain ⟨here, _⟩ := List.cons.inj rest
    cases here
    exact ⟨_, _, c, tail, further, whole, read, by rw [Nat.zero_add]⟩

end Stencil.Template
