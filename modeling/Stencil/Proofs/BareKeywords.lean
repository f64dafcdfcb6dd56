import Mathlib
import Stencil.Proofs.LiteralArguments
import Stencil.Proofs.TokenSpans

/-! Words that end or divide a block. Such a word takes nothing behind it, but for one case: where it is not in the
middle of a word and a whole pair of parentheses follows, it is read with these as its arguments. -/

namespace Stencil.Template
open Text

/-- The text in a pair of parentheses that opens here. -/
def parenthesised? : List Char → Option (List Char)
  | '(' :: behind => insideParens? {} behind
  | _ => none

theorem parenthesised?_eq_some {text inside : List Char} : parenthesised? text = some inside ↔
    ∃ behind, text = '(' :: behind ∧ insideParens? {} behind = some inside := by
  unfold parenthesised?
  split
  next behind => simp
  next other =>
    constructor
    · intro impossible
      cases impossible
    · intro ⟨behind, split, _⟩
      exact absurd split (other behind)

/-- A text that ends in the middle of a word, at the position. -/
def wordStopsAt (position : Nat) : Lexeme → Bool
  | ⟨.text text, span⟩ => decide (span.stop = position) && text.toList.getLast?.any isWord
  | _ => false

/-- What the last one of the tokens leaves unfinished at the position is a word. -/
def behindWord (lexemes : List Lexeme) (position : Nat) : Bool := lexemes.getLast?.any (wordStopsAt position)

section Word
variable {pending : Pending} {position stop : Nat} {row : List Lexeme}

theorem behindWord_flush : behindWord (pending.flush position) position = pending.inWord := by
  unfold Pending.flush Pending.inWord
  cases pending.reversed with
  | nil => rfl
  | cons c reversed => simp [behindWord, wordStopsAt]

theorem behindWord_flush_append (further : position < stop) :
    behindWord (pending.flush position ++ row) stop = behindWord row stop := by
  cases row with
  | nil =>
    unfold Pending.flush
    split
    · rfl
    · simp [behindWord, wordStopsAt, Nat.ne_of_lt further]
  | cons lexeme row =>
    rw [behindWord, List.getLast?_append_of_ne_nil _ (List.cons_ne_nil lexeme row), behindWord]

theorem behindWord_cons {token : Token} {span : Span} (mark : ∀ text, token ≠ .text text) :
    behindWord (⟨token, span⟩ :: row) stop = behindWord row stop := by
  cases row with
  | nil =>
    cases token with
    | text text => exact absurd rfl (mark text)
    | echo | directive => rfl
  | cons lexeme row => rw [behindWord, List.getLast?_cons_cons, behindWord]

/-- Behind a row of pieces, whether a word is open can be seen from the tokens. -/
theorem behindWord_assemble {row : List (List Char × Piece)} (genuine : ∀ piece ∈ row, Piece.Written piece.1 piece.2)
    (position : Nat) (pending : Pending) : behindWord (assemble position pending row) (position + width row) =
      row.foldl (fun _ piece => piece.2.endsInWord) pending.inWord := by
  induction row generalizing position pending with
  | nil => exact behindWord_flush
  | cons first row ih =>
    obtain ⟨written, piece⟩ := first
    obtain ⟨here, others⟩ := List.forall_mem_cons.mp genuine
    have some := byteLength_pos here.nonempty
    have onwards : behindWord (assemble (position + byteLength written) {} row)
        (position + width ((written, piece) :: row)) = row.foldl (fun _ piece => piece.2.endsInWord) false := by
      rw [width_cons, ← Nat.add_assoc]
      exact ih others _ {}
    have further : position < position + width ((written, piece) :: row) := by
      rw [width_cons]
      omega
    rw [List.foldl_cons]
    cases here with
    | @literal text filled unescaped =>
      have joined := ih others (position + byteLength written) (pending.push position text)
      rw [Pending.inWord_push filled, Nat.add_assoc] at joined
      rw [width_cons]
      exact joined
    | comment =>
      rw [assemble, behindWord_flush_append further]
      exact onwards
    | token filled mark =>
      rw [assemble, behindWord_flush_append further, behindWord_cons mark]
      exact onwards

end Word

section Sign
variable {inWord : Bool} {c : Char} {tail : List Char} {name : String} {args : Option String} {further : Nat}

/-- A directive starts with an at sign. -/
theorem atSign_of_pieceAt (found : pieceAt inWord c tail = (.token (.directive name args), further)) :
    c = '@' ∧ atSign inWord tail = (.token (.directive name args), further) := by
  have braces {marks : List Char × List Char} {piece : List Char → Piece}
      (none : ∀ text, piece text ≠ .token (.directive name args)) :
      markedPiece marks c tail piece ≠ (.token (.directive name args), further) := by
    intro found
    unfold markedPiece at found
    split at found
    · exact none _ (Prod.mk.inj found).1
    · cases found
  unfold pieceAt at found
  split at found
  · exact absurd found (braces nofun)
  split at found
  · exact absurd found (braces nofun)
  split at found
  · exact absurd found (braces nofun)
  split at found
  next sign => exact ⟨sign, found⟩
  next => cases found

theorem directiveName_bare : ∀ name ∈ bareKeywords, directiveName name.toList = name.toList := by decide

theorem not_builtin : ∀ name ∈ bareKeywords, name ∉ builtinNames := by decide

theorem directiveName_call {name : List Char} (behind : List Char) (word : directiveName name = name) :
    directiveName (name ++ '(' :: behind) = name := by
  cases name with
  | nil => rfl
  | cons d name =>
    by_cases start : isDirectiveStart d = true
    · rw [directiveName, if_pos start] at word
      have others : ∀ e ∈ name, (isDirectiveStart e || Decimal.isDigit e) = true := by
        rw [← (List.cons.inj word).2]
        intro e inside
        exact List.mem_takeWhile_imp (p := fun c => isDirectiveStart c || Decimal.isDigit c) inside
      rw [List.cons_append, directiveName, if_pos start, List.takeWhile_append_of_pos others,
        List.takeWhile_cons_of_neg (by decide), List.append_nil]
    · rw [directiveName, if_neg start] at word
      cases word

theorem bare_nonempty : ∀ name ∈ bareKeywords, name.toList ≠ [] := by decide

/-- Had a pair of parentheses been closed behind the word, it would have been read as a call. -/
theorem called?_bare (bare : name ∈ bareKeywords) {rest inside : List Char} (closed : parenthesised? rest = some inside) :
    called? false (name.toList ++ rest) =
      some (.token (.directive name (some (String.ofList inside))), name.toList.length + inside.length + 2) := by
  obtain ⟨behind, rfl, closed⟩ := parenthesised?_eq_some.mp closed
  have word := directiveName_call behind (directiveName_bare name bare)
  refine called?_eq_some.mpr ⟨behind, inside, ?_, ?_, .inl rfl, closed, ?_⟩
  · rw [word]
  · rw [word]
    exact bare_nonempty name bare
  · rw [word, String.ofList_toList]

/-- What an at sign in front of such a word starts. -/
theorem keyword_of_atSign (bare : name ∈ bareKeywords)
    (found : atSign inWord tail = (.token (.directive name args), further)) :
    ∃ rest, tail = name.toList ++ rest ∧
      args = (if inWord then none else (parenthesised? rest).map String.ofList) ∧
      (args = none → further = name.toList.length) := by
  unfold atSign at found
  split at found
  · cases found
  split at found
  · cases found
  split at found
  next called =>
    subst found
    obtain ⟨behind, inside, split, _, counts, closed, same⟩ := called?_eq_some.mp called
    obtain ⟨directive, rfl⟩ := Prod.mk.inj same
    cases directive
    rw [String.toList_ofList]
    have outside : inWord = false := by
      rcases counts with outside | builtin
      · exact outside
      · exact absurd builtin (not_builtin _ bare)
    refine ⟨'(' :: behind, split, ?_, nofun⟩
    rw [outside, if_neg Bool.false_ne_true, parenthesised?, closed]
    rfl
  next uncalled =>
    split at found
    next keyword known =>
      obtain ⟨directive, rfl⟩ := Prod.mk.inj found
      cases directive
      have begins := directiveName_prefix tail
      obtain ⟨rest, rfl⟩ := (keyword?_eq_some known).trans begins
      refine ⟨rest, rfl, ?_, fun _ => String.length_toList.symm⟩
      cases inWord with
      | true => rfl
      | false =>
        have none : parenthesised? rest = none := by
          apply Option.eq_none_iff_forall_ne_some.mpr
          intro inside closed
          rw [called?_bare bare closed] at uncalled
          cases uncalled
        rw [none]
        rfl
    next => cases found

end Sign

/-- A word that ends or divides a block has no arguments, unless it stands behind no word and in front of a whole pair of
parentheses. It takes up the at sign and itself, and the text behind is cut as if it were a source of its own. -/
theorem bare_keyword_takes_parentheses {source : String} {before after : List Lexeme} {name : String}
    {args : Option String} {span : Span} (split : tokenize source = before ++ ⟨.directive name args, span⟩ :: after)
    (bare : name ∈ bareKeywords) : ∃ front rest, source.toList = front ++ '@' :: (name.toList ++ rest) ∧
      span.start = byteLength front ∧
      args = (if behindWord before span.start then none else (parenthesised? rest).map String.ofList) ∧
      (args = none → span.stop = span.start + byteLength ('@' :: name.toList) ∧
        after = tokenizeFrom span.stop {} rest) := by
  rw [tokenize_eq_assemble] at split
  obtain ⟨front, written, back, row, rfl, rfl, rfl⟩ := assemble_split split nofun
  have genuine := pieces_written false source.toList
  rw [row] at genuine
  have inWord : behindWord (assemble 0 {} front) (0 + width front) =
      front.foldl (fun _ piece => piece.2.endsInWord) false :=
    behindWord_assemble (List.forall_mem_append.mp genuine).1 0 {}
  obtain ⟨right, whole, behind⟩ := pieces_split row
  rw [← inWord] at behind
  cases right with
  | nil =>
    rw [pieces_nil] at behind
    cases behind
  | cons c tail =>
    rw [pieces_cons] at behind
    generalize read : pieceAt _ c tail = found at behind
    obtain ⟨piece, further⟩ := found
    obtain ⟨here, rfl⟩ := List.cons.inj behind
    cases here
    obtain ⟨rfl, found⟩ := atSign_of_pieceAt read
    obtain ⟨rest, rfl, taken, width⟩ := keyword_of_atSign bare found
    refine ⟨front.flatMap Prod.fst, rest, whole, Nat.zero_add _, taken, ?_⟩
    intro none
    rw [width none, List.take_left, List.drop_left, tokenizeFrom_eq_assemble]
    exact ⟨rfl, rfl⟩

/-- Behind a word the parentheses are text. -/
theorem joined_else_is_bare : ∃ front rest, "b@else(c)".toList = front ++ '@' :: ("else".toList ++ rest) ∧
    [⟨.text "(c)", ⟨6, 9⟩⟩] = tokenizeFrom 6 {} rest := by
  have split : tokenize "b@else(c)" =
      [⟨.text "b", ⟨0, 1⟩⟩] ++ ⟨.directive "else" none, ⟨1, 6⟩⟩ :: [⟨.text "(c)", ⟨6, 9⟩⟩] := by decide +kernel
  obtain ⟨front, rest, whole, _, _, bare⟩ := bare_keyword_takes_parentheses split (by decide)
  exact ⟨front, rest, whole, (bare rfl).2⟩

/-- Behind a space they are taken for arguments. -/
theorem spaced_else_takes_arguments : tokenize " @else(c)" =
    [⟨.text " ", ⟨0, 1⟩⟩, ⟨.directive "else" (some "c"), ⟨1, 9⟩⟩] := by decide +kernel

end Stencil.Template
