import Stencil.Proofs.TokenPieces

/-! Cutting source apart. What stands at a place may depend on all that follows, such as a mark
that closes it far behind, but if it ends before a cut, the text that is cut off there is read the
same. -/

namespace Stencil.Template
open Text

section Cut
variable {inWord : Bool} {c : Char} {tail right : List Char}

/-- A text between two marks is found in the text cut off behind it as well. -/
theorem enclosed?_cut {marks : List Char × List Char} {left : List Char}
    (stays : ∀ inside, enclosed? marks (left ++ right) = some inside →
      (marks.1 ++ inside ++ marks.2).length ≤ left.length) :
    enclosed? marks left = enclosed? marks (left ++ right) := by
  cases found : enclosed? marks (left ++ right) with
  | some inside =>
    obtain ⟨rest, split, _⟩ := enclosed?_eq_some.1 found
    rw [← List.append_assoc, ← List.append_assoc] at split
    obtain ⟨more, rfl, _⟩ | ⟨more, longer, _⟩ := List.append_eq_append_iff.1 split.symm
    · rw [List.append_assoc, List.append_assoc, ← List.append_assoc inside]
      exact enclosed?_more found more
    · have within := stays inside found
      have none : more = [] := by
        have := congrArg List.length longer
        simp only [List.length_append] at this within
        exact List.length_eq_zero_iff.1 (by omega)
      have whole := enclosed?_more found []
      rw [List.append_nil, ← List.append_assoc] at whole
      rw [← List.append_nil left, ← none, ← longer]
      exact whole
  | none =>
    cases cut : enclosed? marks left with
    | none => rfl
    | some inside =>
      obtain ⟨rest, rfl, _⟩ := enclosed?_eq_some.1 cut
      rw [List.append_assoc, List.append_assoc, enclosed?_more cut] at found
      cases found

/-- A cut leaves a name whole or goes through it. -/
theorem directiveName_cut (tail right : List Char) : directiveName tail = directiveName (tail ++ right) ∨
    directiveName tail = tail ∧ tail <+: directiveName (tail ++ right) := by
  cases tail with
  | nil => exact .inr ⟨rfl, List.nil_prefix⟩
  | cons d tail =>
    simp only [List.cons_append, directiveName, List.takeWhile_append]
    split
    · split
      next whole =>
        refine .inr ⟨?_, List.prefix_cons_inj _ |>.2 (List.prefix_append _ _)⟩
        rw [(List.takeWhile_prefix _).eq_of_length whole]
      next => exact .inl rfl
    · exact .inl rfl

theorem directiveName_prefix (text : List Char) : directiveName text <+: text := by
  cases text with
  | nil => exact List.nil_prefix
  | cons d text =>
    rw [directiveName]
    split
    · exact List.prefix_cons_inj _ |>.2 (List.takeWhile_prefix _)
    · exact List.nil_prefix

theorem insideParens?_more {nest : Nest} {text args : List Char} (found : insideParens? nest text = some args)
    (more : List Char) : insideParens? nest (text ++ more) = some args := by
  induction text generalizing nest args with
  | nil => cases found
  | cons d text ih =>
    rw [insideParens?] at found
    rw [List.cons_append, insideParens?]
    split at found
    next closes => rw [if_pos closes, found]
    next opened =>
      obtain ⟨inner, inside, rfl⟩ := Option.map_eq_some_iff.1 found
      rw [if_neg opened, ih inside]
      rfl

theorem insideParens?_cut {nest : Nest} {text args : List Char} (found : insideParens? nest (text ++ right) = some args)
    (within : args.length < text.length) : insideParens? nest text = some args := by
  induction text generalizing nest args with
  | nil => cases within
  | cons d text ih =>
    rw [List.cons_append, insideParens?] at found
    rw [insideParens?]
    split at found
    next closes => rw [if_pos closes, found]
    next opened =>
      obtain ⟨inner, inside, rfl⟩ := Option.map_eq_some_iff.1 found
      rw [if_neg opened, ih inside (by simpa using within)]
      rfl

theorem verbatim?_cut (stays : ∀ text, verbatim? (tail ++ right) = some text → text.length ≤ tail.length) :
    verbatim? tail = verbatim? (tail ++ right) := by
  unfold verbatim? at stays ⊢
  have echo : enclosed? echoMarks tail = enclosed? echoMarks (tail ++ right) := by
    apply enclosed?_cut
    intro inside found
    exact stays _ (by simp [found])
  have raw (none : enclosed? echoMarks (tail ++ right) = none) :
      enclosed? rawMarks tail = enclosed? rawMarks (tail ++ right) := by
    apply enclosed?_cut
    intro inside found
    exact stays _ (by simp [found, none])
  simp only [List.findSome?_cons, echo]
  cases found : enclosed? echoMarks (tail ++ right) with
  | some inside => rfl
  | none =>
    rw [raw found]
    rfl

theorem called?_eq_some {found : Piece × Nat} : called? inWord tail = some found ↔
    ∃ rest args, tail = directiveName tail ++ '(' :: rest ∧ directiveName tail ≠ [] ∧
      (inWord = false ∨ String.ofList (directiveName tail) ∈ builtinNames) ∧ insideParens? {} rest = some args ∧
      found = (.token (.directive (String.ofList (directiveName tail)) (some (String.ofList args))),
        (directiveName tail).length + args.length + 2) := by
  obtain ⟨behind, split⟩ := directiveName_prefix tail
  have dropped := @List.drop_left _ (directiveName tail) behind
  rw [split] at dropped
  unfold called?
  generalize directiveName tail = name at split dropped
  subst split
  dsimp only
  rw [dropped]
  cases name with
  | nil => simp
  | cons first name =>
    cases behind with
    | nil => simp
    | cons d behind =>
      by_cases opens : d = '('
      · subst opens
        simp only [List.isEmpty_cons, Bool.false_eq_true, if_false, List.append_cancel_left_eq, List.cons.injEq,
          true_and, Option.ite_none_right_eq_some, Option.map_eq_some_iff]
        constructor
        · rintro ⟨counts, args, inside, rfl⟩
          exact ⟨behind, args, rfl, List.cons_ne_nil _ _, by simpa using counts, inside, rfl⟩
        · rintro ⟨_, args, rfl, _, counts, inside, rfl⟩
          exact ⟨by simpa using counts, args, inside, rfl⟩
      · simp [opens]

theorem called?_cut (stays : ∀ found, called? inWord (tail ++ right) = some found → found.2 ≤ tail.length) :
    called? inWord tail = called? inWord (tail ++ right) := by
  apply Option.ext
  intro found
  constructor
  · intro cut
    obtain ⟨rest, args, split, named, counts, inside, rfl⟩ := called?_eq_some.1 cut
    rcases directiveName_cut tail right with same | ⟨whole, _⟩
    · refine called?_eq_some.2 ⟨rest ++ right, args, ?_⟩
      rw [← same, ← List.cons_append, ← List.append_assoc, ← split]
      exact ⟨rfl, named, counts, insideParens?_more inside right, rfl⟩
    · have := congrArg List.length split
      simp [whole] at this
  · intro whole
    have within := stays found whole
    obtain ⟨rest, args, split, named, counts, inside, rfl⟩ := called?_eq_some.1 whole
    rcases directiveName_cut tail right with same | ⟨_, through⟩
    · rw [← same] at split named counts within
      obtain ⟨behind, front⟩ := directiveName_prefix tail
      generalize name : directiveName tail = word at *
      subst front
      rw [List.append_assoc, List.append_cancel_left_eq] at split
      cases behind with
      | nil =>
        simp only [List.length_append, List.length_nil] at within
        omega
      | cons d behind =>
        obtain ⟨rfl, rfl⟩ := List.cons.inj split
        refine called?_eq_some.2 ⟨behind, args, ?_⟩
        rw [← same, name]
        refine ⟨rfl, named, counts, insideParens?_cut inside ?_, rfl⟩
        simp only [List.length_append, List.length_cons] at within
        omega
    · have := through.length_le
      dsimp only at within
      omega

theorem keyword?_eq_some {name : List Char} {keyword : String} (found : keyword? name = some keyword) :
    keyword.toList <+: name := by
  have opens := List.find?_some found
  exact stripPrefix?_isSome.1 opens

/-- The word that a name begins with is found in as much of the name as holds it. -/
theorem keyword?_cut {name longer : List Char} (begins : name <+: longer)
    (stays : ∀ keyword, keyword? longer = some keyword → keyword.length ≤ name.length) :
    keyword? name = keyword? longer := by
  have more {keyword : String} (opens : (stripPrefix? keyword.toList name).isSome = true) :
      (stripPrefix? keyword.toList longer).isSome = true :=
    stripPrefix?_isSome.2 ((stripPrefix?_isSome.1 opens).trans begins)
  cases found : keyword? longer with
  | none =>
    refine List.find?_eq_none.2 fun keyword mem opens => ?_
    exact List.find?_eq_none.1 found keyword mem (more opens)
  | some keyword =>
    have within : keyword.toList.length ≤ name.length := String.length_toList ▸ stays keyword found
    have short := List.prefix_of_prefix_length_le (keyword?_eq_some found) begins within
    obtain ⟨_, before, after, split, missed⟩ := List.find?_eq_some_iff_append.1 found
    refine List.find?_eq_some_iff_append.2 ⟨?_, before, after, split, fun other mem => ?_⟩
    · exact stripPrefix?_isSome.2 short
    · have miss := missed other mem
      simp only [Bool.not_eq_true'] at miss ⊢
      exact Bool.eq_false_iff.2 fun opens => Bool.eq_false_iff.1 miss (more opens)

theorem atSign_cut (stays : (atSign inWord (tail ++ right)).2 ≤ tail.length) :
    atSign inWord tail = atSign inWord (tail ++ right) := by
  have head : (tail.head? == some '@') = ((tail ++ right).head? == some '@') := by
    cases tail with
    | cons d tail => rfl
    | nil =>
      cases doubled : right.head? == some '@' with
      | false => simp [doubled]
      | true =>
        rw [List.nil_append] at stays
        simp [atSign, doubled] at stays
  unfold atSign at stays ⊢
  rw [head]
  split
  · rfl
  next single =>
    rw [if_neg single] at stays
    have braces : verbatim? tail = verbatim? (tail ++ right) := by
      apply verbatim?_cut
      intro text found
      simpa [found] using stays
    rw [braces]
    split
    · rfl
    next open_ =>
      rw [open_] at stays
      have called : called? inWord tail = called? inWord (tail ++ right) := by
        apply called?_cut
        intro found seen
        simpa [seen] using stays
      rw [called]
      split
      · rfl
      next uncalled =>
        rw [uncalled] at stays
        rcases directiveName_cut tail right with same | ⟨whole, through⟩
        · rw [same]
        · rw [whole, keyword?_cut through]
          intro keyword found
          simpa [found] using stays

theorem markedPiece_cut {marks : List Char × List Char} {piece : List Char → Piece} (opened : marks.1 ≠ [])
    (stays : (markedPiece marks c (tail ++ right) piece).2 ≤ tail.length) :
    markedPiece marks c tail piece = markedPiece marks c (tail ++ right) piece := by
  have same : enclosed? marks (c :: tail) = enclosed? marks (c :: tail ++ right) := by
    apply enclosed?_cut
    intro inside found
    rw [List.cons_append] at found
    unfold markedPiece at stays
    rw [found] at stays
    have := List.length_pos_iff.2 opened
    simp only [enclosedWidth, List.length_cons, List.length_append] at stays ⊢
    omega
  unfold markedPiece
  rw [same]
  rfl

theorem markedPiece_unclosed {marks : List Char × List Char} {piece : List Char → Piece}
    (few : (markedPiece marks c tail piece).2 + 1 < marks.1.length + marks.2.length) :
    markedPiece marks c tail piece = (.literal [c], 0) := by
  unfold markedPiece at few ⊢
  split
  next inside found =>
    rw [found] at few
    simp only [enclosedWidth] at few
    omega
  next => rfl

theorem markedPiece_le {marks : List Char × List Char} {piece : List Char → Piece} :
    (markedPiece marks c tail piece).2 ≤ tail.length := by
  unfold markedPiece
  split
  next inside found =>
    obtain ⟨rest, split, _⟩ := enclosed?_eq_some.1 found
    have := congrArg List.length split
    simp only [enclosedWidth, List.length_cons, List.length_append] at this ⊢
    omega
  next => exact Nat.zero_le _

theorem opensWith_iff {marks : List Char × List Char} {text : List Char} :
    opensWith marks text = true ↔ marks.1 <+: text := stripPrefix?_isSome

/-- A mark that a cut goes through has not enough characters before it. -/
theorem opensWith_cut {marks : List Char × List Char} {left : List Char} (opens : opensWith marks (left ++ right) = true)
    (cut : opensWith marks left = false) : left.length < marks.1.length := by
  apply Nat.lt_of_not_le
  intro enough
  have front := List.prefix_of_prefix_length_le (opensWith_iff.1 opens) (List.prefix_append left right) enough
  rw [opensWith_iff.2 front] at cut
  cases cut

theorem opensWith_more {marks : List Char × List Char} {left : List Char} (opens : opensWith marks left = true)
    (more : List Char) : opensWith marks (left ++ more) = true :=
  opensWith_iff.2 ((opensWith_iff.1 opens).trans (List.prefix_append _ _))

section Marked
variable {marks : List Char × List Char} {piece : List Char → Piece} {other other' : Piece × Nat}

/-- Too little text stands here for a pair of marks. -/
theorem marked_short (large : 4 ≤ marks.1.length + marks.2.length) (few : tail.length < 3)
    (short : other = (.literal [c], 0)) :
    (if opensWith marks (c :: tail) then markedPiece marks c tail piece else other) = (.literal [c], 0) := by
  have := @markedPiece_le c tail marks piece
  rw [@markedPiece_unclosed c tail marks piece (by omega), short, ite_self]

theorem marked_cut (sizes : marks.1.length < 5 ∧ 4 ≤ marks.1.length + marks.2.length)
    (brace : marks.1.head? = some '\x7b')
    (stays : (if opensWith marks (c :: (tail ++ right)) then markedPiece marks c (tail ++ right) piece else other').2 ≤
      tail.length)
    (short : c = '\x7b' → tail.length < 3 → other = (.literal [c], 0))
    (rest : other'.2 ≤ tail.length → other = other') :
    (if opensWith marks (c :: tail) then markedPiece marks c tail piece else other) =
      if opensWith marks (c :: (tail ++ right)) then markedPiece marks c (tail ++ right) piece else other' := by
  obtain ⟨others, mark⟩ : ∃ others, marks.1 = '\x7b' :: others := List.head?_eq_some_iff.1 brace
  by_cases opens : opensWith marks (c :: (tail ++ right)) = true
  · rw [if_pos opens] at stays ⊢
    by_cases whole : opensWith marks (c :: tail) = true
    · rw [if_pos whole]
      exact markedPiece_cut (by simp [mark]) stays
    · -- The cut goes through the mark, which is then not closed on either side.
      have few : (c :: tail).length < marks.1.length := @opensWith_cut right _ _ opens (by simpa using whole)
      have first : c = '\x7b' := by
        obtain ⟨more, split⟩ := opensWith_iff.1 opens
        rw [mark] at split
        exact (List.cons.inj split).1.symm
      rw [List.length_cons] at few
      rw [if_neg whole, short first (by omega), markedPiece_unclosed (by omega)]
  · have narrow : ¬ opensWith marks (c :: tail) = true := fun whole => opens (opensWith_more whole right)
    rw [if_neg opens] at stays ⊢
    rw [if_neg narrow]
    exact rest stays

end Marked

/-- What stands at a place and ends before a cut is the same in the text that is cut off there. -/
theorem pieceAt_cut (stays : (pieceAt inWord c (tail ++ right)).2 ≤ tail.length) :
    pieceAt inWord c tail = pieceAt inWord c (tail ++ right) := by
  have plain (brace : c = '\x7b') :
      (if c = '@' then atSign inWord tail else (.literal [c], 0)) = ((.literal [c], 0) : Piece × Nat) :=
    if_neg (by rw [brace]; decide)
  have echo (brace : c = '\x7b') (few : tail.length < 3) :=
    @marked_short c tail echoMarks (echoOf false) _ (by decide) few (plain brace)
  have raw (brace : c = '\x7b') (few : tail.length < 3) :=
    @marked_short c tail rawMarks (echoOf true) _ (by decide) few (echo brace few)
  unfold pieceAt at stays ⊢
  refine marked_cut (by decide) rfl stays raw fun stays => ?_
  refine marked_cut (by decide) rfl stays echo fun stays => ?_
  refine marked_cut (by decide) rfl stays (fun brace _ => plain brace) fun stays => ?_
  split
  next at_sign =>
    rw [if_pos at_sign] at stays
    exact atSign_cut stays
  next => rfl

/-- The pieces of a text that end where it is cut off are those of what is left of it. -/
theorem pieces_cut {left right : List Char} {inWord later : Bool} {front : List (List Char × Piece)}
    (split : pieces inWord (left ++ right) = front ++ pieces later right) (whole : front.flatMap Prod.fst = left) :
    pieces inWord left = front := by
  by_cases none : right = []
  · rw [none, pieces_nil, List.append_nil, List.append_nil] at split
    exact split
  have some := List.length_pos_iff.2 none
  induction front generalizing inWord left with
  | nil =>
    rw [← whole]
    exact pieces_nil inWord
  | cons first front ih =>
    cases left with
    | nil =>
      cases right with
      | nil => exact absurd rfl none
      | cons d right =>
        rw [List.nil_append, pieces_cons, List.cons_append] at split
        rw [← (List.cons.inj split).1] at whole
        cases whole
    | cons c tail =>
      rw [List.cons_append, pieces_cons, List.cons_append] at split
      obtain ⟨here, behind⟩ := List.cons.inj split
      rw [List.flatMap_cons, ← here, List.cons_append] at whole
      have rest := (List.cons.inj whole).2
      have stays : (pieceAt inWord c (tail ++ right)).2 ≤ tail.length := by
        have := congrArg List.length rest
        simp only [List.length_append, List.length_take] at this
        omega
      rw [List.take_append_of_le_length stays] at rest here
      rw [List.drop_append_of_le_length stays] at behind
      have remains : front.flatMap Prod.fst = tail.drop (pieceAt inWord c (tail ++ right)).2 := by
        rw [← List.append_cancel_left_eq, rest, List.take_append_drop]
      rw [pieces_cons, pieceAt_cut stays, here, ih behind remains]

end Cut

end Stencil.Template
