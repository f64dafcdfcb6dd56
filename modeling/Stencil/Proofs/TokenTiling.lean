import Stencil.Proofs.LongestToken
import Stencil.Proofs.TextCuts
import Stencil.Proofs.TokenSpans

/-! An expression is cut into the longest tokens one behind the other, and between them is nothing but spaces. Further
spaces at a place between two tokens do not change how either of them is read. -/

namespace Stencil.Expr
open Text

/-- The characters from a position on are these tokens, each the longest at its place, and spaces around them. What is
behind the characters counts for what is the longest. -/
inductive Cut (behind : List Char) : Nat → List Char → List (Located Token) → Prop where
  | nil {position : Nat} : Cut behind position [] []
  | space {position : Nat} {c : Char} {text : List Char} {tokens : List (Located Token)} (space : isSpace c = true)
      (rest : Cut behind (position + c.utf8Size) text tokens) : Cut behind position (c :: text) tokens
  | token {position : Nat} {written text : List Char} {tokens : List (Located Token)} {pattern : Pattern} {token : Token}
      (longest : Longest (written ++ (text ++ behind)) pattern written) (means : pattern.token? written = some token)
      (rest : Cut behind (position + byteLength written) text tokens) :
      Cut behind position (written ++ text) (⟨token, ⟨position, position + byteLength written⟩⟩ :: tokens)

theorem lexFrom_longest {pattern : Pattern} {written rest : List Char} {token : Token}
    (longest : Longest (written ++ rest) pattern written) (means : pattern.token? written = some token) (start : Nat) :
    lexFrom start (written ++ rest) = (lexFrom (start + byteLength written) rest).map
      fun tokens => ⟨token, ⟨start, start + byteLength written⟩⟩ :: tokens := by
  obtain ⟨c, tail, rfl, _⟩ := Pattern.begins longest.matched
  obtain ⟨further, here, taken, dropped⟩ := tokenAt_of_longest longest means
  have noSpace : isSpace c = false := isSpace_of_visible (isBlank_of_tokenAt here)
  have size : start + c.utf8Size + byteLength tail = start + byteLength (c :: tail) := Nat.add_assoc ..
  rw [List.cons_append, lexFrom]
  simp only [noSpace, here, taken, dropped, size]
  rfl

namespace Cut
variable {behind : List Char}

section
variable {position : Nat} {text : List Char} {tokens : List (Located Token)}

theorem lexFrom (cut : Cut behind position text tokens) :
    lexFrom position (text ++ behind) = (lexFrom (position + byteLength text) behind).map (tokens ++ ·) := by
  induction cut with
  | @nil position =>
    rw [List.nil_append, byteLength, Nat.add_zero]
    cases Expr.lexFrom position behind <;> rfl
  | space space rest ih =>
    rw [List.cons_append, Expr.lexFrom, if_pos space, ih, Nat.add_assoc]
    rfl
  | @token position written text tokens _ _ longest means rest ih =>
    rw [List.append_assoc, lexFrom_longest longest means, ih, byteLength_append, Nat.add_assoc]
    cases Expr.lexFrom (position + (byteLength written + byteLength text)) behind <;> rfl

theorem lex (cut : Cut [] 0 text tokens) : Expr.lex (String.ofList text) = .ok tokens := by
  have lexed := cut.lexFrom
  rw [List.append_nil, Expr.lexFrom_nil] at lexed
  rw [Expr.lex, String.toList_ofList, lexed]
  exact congrArg Except.ok (List.append_nil _)

theorem spaces (blank : ∀ c ∈ text, isSpace c = true) : Cut behind position text [] := by
  induction text generalizing position with
  | nil => exact .nil
  | cons c text ih =>
    obtain ⟨space, others⟩ := List.forall_mem_cons.mp blank
    exact .space space (ih others)

theorem moved (cut : Cut behind position text tokens) (other : Nat) :
    ∃ tokens', Cut behind other text tokens' ∧ tokens'.map Located.value = tokens.map Located.value := by
  induction cut generalizing other with
  | nil => exact ⟨[], .nil, rfl⟩
  | space space rest ih =>
    obtain ⟨tokens', cut, same⟩ := ih (other + _)
    exact ⟨tokens', .space space cut, same⟩
  | @token position written text tokens pattern token longest means rest ih =>
    obtain ⟨tokens', cut, same⟩ := ih (other + byteLength written)
    exact ⟨_, .token longest means cut, congrArg (token :: ·) same⟩

theorem bounds (cut : Cut behind position text tokens) : ∀ token ∈ tokens,
    position ≤ token.span.start ∧ token.span.start < token.span.stop ∧ token.span.stop ≤ position + byteLength text := by
  induction cut with
  | nil => exact List.forall_mem_nil _
  | space space rest ih =>
    intro token member
    have inside := ih token member
    simp only [byteLength]
    omega
  | token longest means rest ih =>
    have filled := byteLength_pos longest.nonempty
    simp only [byteLength_append]
    refine List.forall_mem_cons.mpr ⟨⟨Nat.le_refl _, ?_, ?_⟩, ?_⟩
    · dsimp only
      omega
    · dsimp only
      omega
    · intro token member
      have inside := ih token member
      omega

theorem ordered (cut : Cut behind position text tokens) : (tokens.map Located.span).Pairwise Span.Before := by
  induction cut with
  | nil => exact .nil
  | space space rest ih => exact ih
  | token longest means rest ih =>
    refine .cons ?_ ih
    intro span member
    obtain ⟨token, inside, rfl⟩ := List.mem_map.mp member
    exact (rest.bounds token inside).1

end

theorem append {position : Nat} {before after : List Char} {first second : List (Located Token)}
    (cut : Cut (after ++ behind) position before first)
    (cut' : Cut behind (position + byteLength before) after second) :
    Cut behind position (before ++ after) (first ++ second) := by
  induction cut with
  | nil => exact cut'
  | @space position c text tokens space rest ih =>
    exact .space space (ih (by rwa [byteLength, ← Nat.add_assoc] at cut'))
  | @token position written text tokens pattern token longest means rest ih =>
    rw [List.append_assoc]
    apply Cut.token
    · rwa [List.append_assoc]
    · exact means
    · exact ih (by rwa [byteLength_append, ← Nat.add_assoc] at cut')

/-- A place between two tokens parts the text. -/
theorem split {position : Nat} {before after : List Char} {first second : List (Located Token)}
    (cut : Cut behind position (before ++ after) (first ++ second))
    (earlier : ∀ token ∈ first, token.span.stop ≤ position + byteLength before)
    (later : ∀ token ∈ second, position + byteLength before ≤ token.span.start) :
    Cut (after ++ behind) position before first ∧ Cut behind (position + byteLength before) after second := by
  generalize whole : before ++ after = text at cut
  generalize all : first ++ second = tokens at cut
  have bounds := cut.bounds
  induction cut generalizing before first with
  | nil =>
    obtain ⟨rfl, rfl⟩ := List.append_eq_nil_iff.mp whole
    obtain ⟨rfl, rfl⟩ := List.append_eq_nil_iff.mp all
    exact ⟨.nil, .nil⟩
  | @space position c text tokens space rest ih =>
    cases before with
    | nil =>
      -- No token in front of the first character could have ended yet.
      have none : first = [] := by
        apply List.eq_nil_iff_forall_not_mem.mpr
        intro token member
        have inside := bounds token (all ▸ List.mem_append_left second member)
        have stops := earlier token member
        simp only [byteLength] at stops
        omega
      subst none whole all
      exact ⟨.nil, .space space rest⟩
    | cons d before =>
      obtain ⟨rfl, rfl⟩ := List.cons.inj whole
      simp only [byteLength, ← Nat.add_assoc] at earlier later ⊢
      obtain ⟨here, there⟩ := ih earlier later rfl all rest.bounds
      exact ⟨.space space here, there⟩
  | @token position written text tokens pattern token longest means rest ih =>
    cases first with
    | nil =>
      have starts := later _ (all ▸ List.mem_cons_self)
      obtain rfl : before = [] := eq_nil_of_byteLength (by dsimp only at starts; omega)
      subst whole all
      exact ⟨.nil, .token longest means rest⟩
    | cons head first =>
      obtain ⟨rfl, rfl⟩ := List.cons.inj all
      obtain ⟨stops, earlier⟩ := List.forall_mem_cons.mp earlier
      obtain ⟨gap, rfl, rfl⟩ : ∃ gap, before = written ++ gap ∧ text = gap ++ after := by
        rcases List.append_eq_append_iff.mp whole with ⟨gap, rfl, rfl⟩ | ⟨gap, rfl, rfl⟩
        · obtain rfl : gap = [] := eq_nil_of_byteLength (by simp only [byteLength_append] at stops; omega)
          exact ⟨[], by simp, rfl⟩
        · exact ⟨gap, rfl, rfl⟩
      simp only [byteLength_append, ← Nat.add_assoc] at earlier later ⊢
      obtain ⟨here, there⟩ := ih earlier later rfl rfl rest.bounds
      refine ⟨.token ?_ means here, there⟩
      simpa only [List.append_assoc] using longest

end Cut

/-- Spaces further behind do not make a token longer. -/
theorem Longest.spread {pattern : Pattern} {written text spaces behind : List Char}
    (longest : Longest (written ++ (text ++ behind)) pattern written) (blank : ∀ c ∈ spaces, isSpace c = true) :
    Longest (written ++ (text ++ (spaces ++ behind))) pattern written := by
  refine ⟨longest.matched, List.prefix_append _ _, ?_, longest.preferred⟩
  intro other more member begins
  by_cases quoted : ∃ quote, other = .quotation quote
  · -- Where a quotation can stand there is one already, and it stops at the same quote.
    obtain ⟨quote, rfl⟩ := quoted
    obtain ⟨c, tail, rfl, known⟩ := Pattern.begins longest.matched
    obtain rfl : c = quote.char := begins_here member begins
    obtain rfl := Pattern.eq_quotation quote known
    exact (congrArg List.length (quotation_unique member longest.matched begins (List.prefix_append _ _))).le
  · have visible := Pattern.visible member fun quote same => quoted ⟨quote, same⟩
    cases spaces with
    | nil => exact longest.longest other more member begins
    | cons c spaces =>
      have absent : c ∉ more := by
        intro inside
        have noSpace := isSpace_of_visible (visible c inside)
        rw [blank c List.mem_cons_self] at noSpace
        cases noSpace
      rw [← List.append_assoc] at begins
      have within : more <+: written ++ text := prefix_of_absent absent begins
      apply longest.longest other more member
      rw [← List.append_assoc]
      exact within.trans (List.prefix_append _ _)

namespace Cut

theorem spread {behind spaces text : List Char} {position : Nat} {tokens : List (Located Token)}
    (cut : Cut behind position text tokens) (blank : ∀ c ∈ spaces, isSpace c = true) :
    Cut (spaces ++ behind) position text tokens := by
  induction cut with
  | nil => exact .nil
  | space space rest ih => exact .space space ih
  | token longest means rest ih => exact .token (longest.spread blank) means ih

end Cut

/-- The last token stops behind a character that is no blank, and spaces follow. -/
structure Ending (behind : List Char) (position : Nat) (text : List Char) (tokens : List (Located Token))
    (front : List Char) (c : Char) (gap : List Char) (token : Located Token) : Prop where
  whole : text = front ++ c :: gap
  visible : isBlank c = false
  blank : ∀ d ∈ gap, isSpace d = true
  last : tokens.getLast? = some token
  stops : token.span.stop = position + byteLength (front ++ [c])
  cut : Cut (gap ++ behind) position (front ++ [c]) tokens

theorem Cut.last {behind text : List Char} {position : Nat} {tokens : List (Located Token)}
    (cut : Cut behind position text tokens) : (tokens = [] ∧ ∀ c ∈ text, isSpace c = true) ∨
      ∃ front c gap token, Ending behind position text tokens front c gap token := by
  induction cut with
  | nil => exact .inl ⟨rfl, List.forall_mem_nil _⟩
  | @space position d text tokens space rest ih =>
    rcases ih with ⟨none, blank⟩ | ⟨front, c, gap, token, rfl, visible, blank, last, stops, cut⟩
    · exact .inl ⟨none, List.forall_mem_cons.mpr ⟨space, blank⟩⟩
    · refine .inr ⟨d :: front, c, gap, token, rfl, visible, blank, last, ?_, .space space cut⟩
      rw [stops, List.cons_append, byteLength, Nat.add_assoc]
  | @token position written text tokens pattern token longest means rest ih =>
    rcases ih with ⟨rfl, blank⟩ | ⟨front, c, gap, token, rfl, visible, blank, last, stops, cut⟩
    · obtain ⟨front, c, rfl, visible⟩ := Pattern.ends longest.matched
      have alone : Cut (text ++ behind) position (front ++ [c] ++ [])
          [⟨token, ⟨position, position + byteLength (front ++ [c])⟩⟩] := .token longest means .nil
      rw [List.append_nil] at alone
      exact .inr ⟨front, c, text, _, by simp, visible, blank, rfl, rfl, alone⟩
    · refine .inr ⟨written ++ front, c, gap, token, by simp, visible, blank, ?_, ?_, ?_⟩
      · rw [List.getLast?_cons, last]
        rfl
      · rw [stops, List.append_assoc, byteLength_append written, Nat.add_assoc]
      · rw [List.append_assoc]
        refine .token ?_ means cut
        simpa only [List.append_assoc, List.cons_append, List.nil_append] using longest

/-- Where cutting a text fails, and the tokens in front of that. -/
structure Stuck (start : Nat) (text : List Char) (span : Span) (before : List Char) (c : Char) (taken rest : List Char)
    (tokens : List (Located Token)) : Prop where
  whole : text = before ++ c :: (taken ++ rest)
  place : span = ⟨start + byteLength before, start + byteLength before + byteLength (c :: taken)⟩
  cut : Cut (c :: (taken ++ rest)) start before tokens
  noSpace : isSpace c = false
  stray : Stray (c :: (taken ++ rest))

/-- The tokens that are read are such a cut of the text, up to its end or up to where nothing matches. -/
theorem cut_lexFrom (start : Nat) (text : List Char) : match lexFrom start text with
    | .ok tokens => Cut [] start text tokens
    | .error span => ∃ before c taken rest tokens, Stuck start text span before c taken rest tokens := by
  fun_induction lexFrom start text with
  | case1 => exact .nil
  | case2 start c tail space ih =>
    cases read : lexFrom (start + c.utf8Size) tail with
    | ok tokens =>
      rw [read] at ih
      exact .space space ih
    | error span =>
      rw [read] at ih
      obtain ⟨before, d, taken, rest, tokens, rfl, rfl, cut, noSpace, stray⟩ := ih
      refine ⟨c :: before, d, taken, rest, tokens, rfl, ?_, .space space cut, noSpace, stray⟩
      simp only [byteLength, Nat.add_assoc]
  | case3 start c tail noSpace further stop here =>
    refine ⟨[], c, tail.take further, tail.drop further, [], ?_, ?_, .nil, Bool.eq_false_iff.mpr noSpace, ?_⟩
    · rw [List.take_append_drop, List.nil_append]
    · simp only [byteLength, Nat.add_zero, stop, Nat.add_assoc]
    · rw [List.take_append_drop]
      exact stray_of_tokenAt here
  | case4 start c tail _ further stop token here ih =>
    obtain ⟨pattern, longest, means⟩ := longest_of_tokenAt here
    have parted : c :: tail = c :: tail.take further ++ tail.drop further := by
      rw [List.cons_append, List.take_append_drop]
    have size : stop = start + byteLength (c :: tail.take further) := Nat.add_assoc ..
    cases read : lexFrom stop (tail.drop further) with
    | ok tokens =>
      rw [read, size] at ih
      rw [parted] at longest ⊢
      rw [size]
      exact .token (by rwa [List.append_nil]) means ih
    | error span =>
      rw [read, size] at ih
      obtain ⟨before, d, taken, rest, tokens, whole, rfl, cut, noSpace, stray⟩ := ih
      refine ⟨c :: tail.take further ++ before, d, taken, rest, _, ?_, ?_, .token ?_ means cut, noSpace, stray⟩
      · rw [parted, whole, List.append_assoc]
      · rw [byteLength_append, Nat.add_assoc]
      · rwa [← whole, ← parted]

/-- What stands in front of the rest is cut into tokens, and the rest does not go on with the last of them. -/
structure Tiling (front behind : List Char) (tokens : List (Located Token)) : Prop where
  ordered : (tokens.map Located.span).Pairwise Span.Before
  filled : ∀ token ∈ tokens, token.span.start < token.span.stop ∧ token.span.stop ≤ byteLength front
  longest : ∀ token ∈ tokens, ∃ before written rest pattern, front ++ behind = before ++ (written ++ rest) ∧
    token.span = ⟨byteLength before, byteLength before + byteLength written⟩ ∧
    Longest (written ++ rest) pattern written ∧ pattern.token? written = some token.value
  spaced : ∀ before c after, front = before ++ c :: after → isSpace c = true ∨
    ∃ token ∈ tokens, token.span.start ≤ byteLength before ∧ byteLength before < token.span.stop

namespace Cut
variable {position : Nat} {behind text : List Char} {tokens : List (Located Token)}

theorem longest {front : List Char} (cut : Cut behind (byteLength front) text tokens) :
    ∀ token ∈ tokens, ∃ before written rest pattern, front ++ (text ++ behind) = before ++ (written ++ rest) ∧
      token.span = ⟨byteLength before, byteLength before + byteLength written⟩ ∧
      Longest (written ++ rest) pattern written ∧ pattern.token? written = some token.value := by
  generalize place : byteLength front = position at cut
  induction cut generalizing front with
  | nil => exact List.forall_mem_nil _
  | @space position c text tokens space rest ih =>
    have others := @ih (front ++ [c]) (by simp [byteLength, place])
    simpa only [List.append_assoc, List.cons_append, List.nil_append] using others
  | @token position written text tokens pattern token longest means rest ih =>
    have others := @ih (front ++ written) (by simp [place])
    refine List.forall_mem_cons.mpr ⟨⟨front, written, text ++ behind, pattern, ?_, ?_, longest, means⟩, ?_⟩
    · rw [List.append_assoc]
    · rw [place]
    · simpa only [List.append_assoc] using others

theorem spaced (cut : Cut behind position text tokens) {before after : List Char} {c : Char}
    (whole : text = before ++ c :: after) : isSpace c = true ∨
      ∃ token ∈ tokens, token.span.start ≤ position + byteLength before ∧
        position + byteLength before < token.span.stop := by
  induction cut generalizing before with
  | nil => exact absurd whole (by simp)
  | @space position d text tokens space rest ih =>
    cases before with
    | nil =>
      obtain ⟨rfl, _⟩ := List.cons.inj whole
      exact .inl space
    | cons e before =>
      obtain ⟨rfl, rest⟩ := List.cons.inj whole
      simpa only [byteLength, Nat.add_assoc] using ih rest
  | @token position written text tokens pattern token longest means rest ih =>
    have inside : (∃ gap, before = written ++ gap ∧ text = gap ++ c :: after) ∨
        byteLength before < byteLength written := by
      rcases List.append_eq_append_iff.mp whole with ⟨gap, rfl, rfl⟩ | ⟨gap, rfl, joined⟩
      · exact .inl ⟨gap, rfl, rfl⟩
      · cases gap with
        | nil => exact .inl ⟨[], by simp, joined.symm⟩
        | cons d gap =>
          have some := byteLength_pos (List.cons_ne_nil d gap)
          exact .inr (by rw [byteLength_append]; omega)
    rcases inside with ⟨gap, rfl, rfl⟩ | inside
    · rcases ih rfl with space | ⟨token, member, starts, stops⟩
      · exact .inl space
      · refine .inr ⟨token, List.mem_cons_of_mem _ member, ?_, ?_⟩
        · simpa only [byteLength_append, Nat.add_assoc] using starts
        · simpa only [byteLength_append, Nat.add_assoc] using stops
    · exact .inr ⟨_, List.mem_cons_self, Nat.le_add_right _ _, Nat.add_lt_add_left inside position⟩

theorem tiling (cut : Cut behind 0 text tokens) : Tiling text behind tokens where
  ordered := cut.ordered
  filled := by
    intro token member
    have inside := cut.bounds token member
    omega
  longest := by
    have longest := @longest behind text tokens [] cut
    simpa only [List.nil_append] using longest
  spaced := by
    intro before c after whole
    have spaced := cut.spaced whole
    simpa only [Nat.zero_add] using spaced

/-- Spaces between two tokens move those behind them, and nothing else. -/
theorem parted {before after spaces : List Char} {first second : List (Located Token)}
    (cut : Cut behind position (before ++ after) (first ++ second))
    (earlier : ∀ token ∈ first, token.span.stop ≤ position + byteLength before)
    (later : ∀ token ∈ second, position + byteLength before ≤ token.span.start)
    (blank : ∀ c ∈ spaces, isSpace c = true) : ∃ tokens,
      Cut behind position (before ++ (spaces ++ after)) tokens ∧
        tokens.map Located.value = (first ++ second).map Located.value := by
  obtain ⟨front, back⟩ := cut.split earlier later
  obtain ⟨second', back, same⟩ := back.moved (position + byteLength before + byteLength spaces)
  have gap : Cut (after ++ behind) (position + byteLength before) spaces [] := .spaces blank
  have front : Cut (spaces ++ after ++ behind) position before first := by
    rw [List.append_assoc]
    exact front.spread blank
  exact ⟨_, front.append (gap.append back), by simp [same]⟩

end Cut

/-- An expression is cut into the longest tokens with nothing but spaces around them, up to its end or up to where no
pattern matches. More spaces between two tokens leave all tokens as they are. -/
theorem lex_tiles (text : String) :
    (match lex text with
      | .ok tokens => Tiling text.toList [] tokens
      | .error span => ∃ front c behind tokens, text.toList = front ++ c :: behind ∧ span.start = byteLength front ∧
          Tiling front (c :: behind) tokens ∧ isSpace c = false ∧ Stray (c :: behind)) ∧
    ∀ first second before after spaces, lex text = .ok (first ++ second) → text.toList = before ++ after →
      (∀ token ∈ first, token.span.stop ≤ byteLength before) →
      (∀ token ∈ second, byteLength before ≤ token.span.start) → (∀ c ∈ spaces, isSpace c = true) →
      ∃ tokens, lex (String.ofList (before ++ (spaces ++ after))) = .ok tokens ∧
        tokens.map Located.value = (first ++ second).map Located.value := by
  have cut := cut_lexFrom 0 text.toList
  constructor
  · unfold lex
    cases read : lexFrom 0 text.toList with
    | ok tokens =>
      rw [read] at cut
      exact cut.tiling
    | error span =>
      rw [read] at cut
      obtain ⟨before, c, taken, rest, tokens, whole, rfl, cut, noSpace, stray⟩ := cut
      exact ⟨before, c, _, tokens, whole, Nat.zero_add _, cut.tiling, noSpace, stray⟩
  · intro first second before after spaces read whole earlier later blank
    unfold lex at read
    rw [read, whole] at cut
    obtain ⟨tokens, cut, same⟩ := cut.parted (by simpa using earlier) (by simpa using later) blank
    exact ⟨tokens, cut.lex, same⟩

theorem lex_tiles_parted : ∃ tokens, lex "a\t<=b" = .ok tokens ∧
    tokens.map Located.value = [.ident "a", .mark .lessOrEqual, .ident "b"] := by
  have read : lex "a<=b" = .ok ([⟨.ident "a", ⟨0, 1⟩⟩] ++ [⟨.mark .lessOrEqual, ⟨1, 3⟩⟩, ⟨.ident "b", ⟨3, 4⟩⟩]) := by
    change lexFrom 0 (['a'] ++ (['<', '='] ++ (['b'] ++ []))) = _
    rw [lexFrom_starts ⟨_, _, rfl, rfl, rfl⟩, lexFrom_starts ⟨_, _, rfl, rfl, rfl⟩,
      lexFrom_starts ⟨_, _, rfl, rfl, rfl⟩, lexFrom_nil]
    rfl
  exact (lex_tiles "a<=b").2 _ _ ['a'] ['<', '=', 'b'] ['\t'] read rfl (by decide) (by decide)
    (List.forall_mem_singleton.mpr rfl)

end Stencil.Expr
