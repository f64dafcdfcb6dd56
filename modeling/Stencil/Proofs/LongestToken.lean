import Stencil.Proofs.TokenPatterns

/-! Cutting an expression into tokens, the longest text that any pattern matches is taken at each place. What can stand
behind a token is left open, so that this holds of the token wherever it stands. -/

namespace Stencil.Expr
open Text Decimal Quoted

/-- Of all patterns this one matches the most of the text from its start. Where others match as much, they are for
names, and the text is a word that is none. -/
structure Longest (text : List Char) (pattern : Pattern) (written : List Char) : Prop where
  matched : written ∈ pattern.language
  begins : written <+: text
  longest : ∀ (other : Pattern) more, more ∈ other.language → more <+: text → more.length ≤ written.length
  preferred : ∀ other : Pattern, written ∈ other.language → other = pattern ∨ other = .name

/-- No pattern matches any of the text from its start. -/
def Stray (text : List Char) : Prop := ∀ pattern written, written ∈ Pattern.language pattern → ¬ written <+: text

namespace Longest
variable {text written : List Char} {pattern : Pattern}

theorem nonempty (longest : Longest text pattern written) : written ≠ [] := by
  obtain ⟨c, rest, rfl, _⟩ := Pattern.begins longest.matched
  exact List.cons_ne_nil c rest

theorem unique {other : Pattern} {more : List Char} (longest : Longest text pattern written)
    (longest' : Longest text other more) : written = more ∧ pattern = other := by
  have fits := longest'.longest pattern written longest.matched longest.begins
  have fits' := longest.longest other more longest'.matched longest'.begins
  have within := List.prefix_of_prefix_length_le longest.begins longest'.begins fits
  have same : written = more := within.eq_of_length_le fits'
  subst same
  refine ⟨rfl, ?_⟩
  rcases longest.preferred other longest'.matched with equal | name
  · exact equal.symm
  · rcases longest'.preferred pattern longest.matched with equal | name'
    · exact equal
    · exact name'.trans name.symm

end Longest

/-- A prefix is no longer than the first characters of its class. -/
theorem length_le_takeWhile {holds : Char → Bool} {first text : List Char} (begins : first <+: text)
    (all : ∀ c ∈ first, holds c = true) : first.length ≤ (text.takeWhile holds).length := by
  obtain ⟨rest, rfl⟩ := begins
  rw [List.takeWhile_append_of_pos all, List.length_append]
  omega

section Kinds
variable {c : Char} {tail : List Char}

/-- Only the pattern that the first character tells can match here. -/
theorem begins_here {pattern : Pattern} {more : List Char} (member : more ∈ pattern.language)
    (begins : more <+: c :: tail) : pattern.Begins c := by
  obtain ⟨d, rest, rfl, known⟩ := Pattern.begins member
  rwa [(List.cons_prefix_cons.mp begins).1] at known

/-- At most one quotation stands at a place: the scan stops at the first quote that can stop it, for either of two. -/
theorem quotation_unique {quote : Quote} {first second text : List Char}
    (member : first ∈ (Pattern.quotation quote).language) (member' : second ∈ (Pattern.quotation quote).language)
    (begins : first <+: text) (begins' : second <+: text) : first = second := by
  obtain ⟨items, _, between, rfl⟩ := mem_quotation.mp member
  obtain ⟨items', _, between', rfl⟩ := mem_quotation.mp member'
  obtain ⟨rest, rfl⟩ := begins
  obtain ⟨rest', joined⟩ := begins'
  have here := between.scan rest
  have there := between'.scan rest'
  have same : items' ++ quote.char :: rest' = items ++ quote.char :: rest := by simpa using joined
  rw [same, here] at there
  rw [(Prod.mk.inj there).1]

theorem longest_quotation (quote : Quote) {items behind : List Char}
    (scanned : scan quote.char tail = (items, some behind)) :
    Longest (quote.char :: tail) (.quotation quote) (quote.char :: (items ++ [quote.char])) := by
  obtain ⟨split, meant, between⟩ := between_of_scan quote scanned
  have whole : quote.char :: (items ++ [quote.char]) <+: quote.char :: tail :=
    ⟨behind, by rw [split, List.cons_append, List.append_assoc]; rfl⟩
  have matched := mem_quotation.mpr ⟨items, meant, between, rfl⟩
  refine ⟨matched, whole, ?_, ?_⟩
  · intro other more member begins
    obtain rfl := Pattern.eq_quotation quote (begins_here member begins)
    exact (congrArg List.length (quotation_unique member matched begins whole)).le
  · intro other member
    exact .inl (Pattern.eq_quotation quote (begins_here member whole))

theorem stray_quotation (quote : Quote) {items : List Char} (scanned : scan quote.char tail = (items, none)) :
    Stray (quote.char :: tail) := by
  intro pattern written member begins
  obtain rfl := Pattern.eq_quotation quote (begins_here member begins)
  obtain ⟨items', meant, between, rfl⟩ := mem_quotation.mp member
  obtain ⟨rest, joined⟩ := (List.prefix_cons_inj _).mp begins
  have again := between.scan rest
  rw [← List.singleton_append, ← List.append_assoc, joined, scanned] at again
  cases again

theorem fractionDigits_some {text : List Char} (digits : fractionDigits text ≠ []) :
    ∃ more, text = '.' :: more ∧ fractionDigits text = more.takeWhile isDigit := by
  unfold fractionDigits at digits ⊢
  split
  next more => exact ⟨more, rfl, rfl⟩
  next other =>
    split at digits
    next more => exact absurd rfl (other more)
    next => exact absurd rfl digits

/-- The numeral that a number takes up. -/
theorem numeral_of_number (digit : isDigit c = true) (tail : List Char) : ∃ numeral : Numeral,
    c :: tail.take (numberToken c tail).2 = numeral.spelling ∧ (numberToken c tail).1 = .number numeral.value := by
  have wholes : ∀ d ∈ c :: tail.takeWhile isDigit, isDigit d = true :=
    List.forall_mem_cons.mpr ⟨digit, fun d member => List.mem_takeWhile_imp member⟩
  by_cases none : fractionDigits (tail.dropWhile isDigit) = []
  · refine ⟨⟨_, [], by simpa using wholes, List.cons_ne_nil _ _⟩, ?_, ?_⟩
    · simp [numberToken, none, Numeral.spelling, take_takeWhile]
    · simp [numberToken, none, Numeral.value]
  · obtain ⟨more, behind, fraction⟩ := fractionDigits_some none
    have fractions : ∀ d ∈ fractionDigits (tail.dropWhile isDigit), isDigit d = true := by
      intro d member
      rw [fraction] at member
      exact List.mem_takeWhile_imp member
    have taken : tail.take ((tail.takeWhile isDigit).length + ((more.takeWhile isDigit).length + 1)) =
        tail.takeWhile isDigit ++ '.' :: more.takeWhile isDigit := by
      rw [List.take_add, take_takeWhile, drop_takeWhile, behind, List.take_succ_cons, take_takeWhile]
    refine ⟨⟨_, _, List.forall_mem_append.mpr ⟨wholes, fractions⟩, List.cons_ne_nil _ _⟩, ?_, rfl⟩
    rw [fraction] at none
    simp only [numberToken, Numeral.spelling, List.isEmpty_iff, fraction, none, if_false, taken, List.cons_append]

/-- A number takes up every numeral that stands in its place. -/
theorem numeral_short {numeral : Numeral} (begins : numeral.spelling <+: c :: tail) :
    numeral.spelling.length ≤ (numberToken c tail).2 + 1 := by
  obtain ⟨whole, fraction, all, filled⟩ := numeral
  obtain ⟨wholes, fractions⟩ := List.forall_mem_append.mp all
  obtain ⟨rest, joined⟩ := begins
  cases whole with
  | nil => exact absurd rfl filled
  | cons d whole =>
    obtain ⟨rfl, split⟩ := List.cons.inj joined
    have others := (List.forall_mem_cons.mp wholes).2
    simp only [numberToken, Numeral.spelling]
    cases fraction with
    | nil =>
      have split : whole ++ rest = tail := by simpa [Numeral.spelling] using split
      have digits := length_le_takeWhile ⟨rest, split⟩ others
      simp only [List.isEmpty_nil, if_true, List.append_nil, List.length_cons] at digits ⊢
      omega
    | cons e fraction =>
      have split : tail = whole ++ '.' :: (e :: fraction ++ rest) := by simpa using split.symm
      have first : tail.takeWhile isDigit = whole := by
        rw [split, List.takeWhile_append_of_pos others, List.takeWhile_cons_of_neg (by decide), List.append_nil]
      have second : tail.dropWhile isDigit = '.' :: (e :: fraction ++ rest) := by
        rw [split, List.dropWhile_append_of_pos others, List.dropWhile_cons_of_neg (by decide)]
      have digits := length_le_takeWhile (List.prefix_append (e :: fraction) rest) fractions
      have some : (e :: fraction ++ rest).takeWhile isDigit ≠ [] := by
        intro none
        rw [none] at digits
        exact absurd digits (by simp)
      simp only [first, second, fractionDigits, List.isEmpty_iff, some, if_false, List.cons_ne_nil, List.length_append,
        List.length_cons] at digits ⊢
      omega

theorem longest_number (digit : isDigit c = true) (tail : List Char) :
    Longest (c :: tail) .number (c :: tail.take (numberToken c tail).2) := by
  obtain ⟨numeral, spelled, _⟩ := numeral_of_number digit tail
  have whole : c :: tail.take (numberToken c tail).2 <+: c :: tail := (List.prefix_cons_inj c).mpr (List.take_prefix _ _)
  refine ⟨mem_number.mpr ⟨numeral, spelled⟩, whole, ?_, ?_⟩
  · intro other more member begins
    obtain rfl := Pattern.eq_number digit (begins_here member begins)
    obtain ⟨numeral', rfl⟩ := mem_number.mp member
    have short := numeral_short begins
    have enough := begins.length_le
    simp only [List.length_cons, List.length_take] at enough ⊢
    omega
  · intro other member
    exact .inl (Pattern.eq_number digit (begins_here member whole))

/-- The word whose first character is `c`. -/
theorem isIdentifier_word (start : isNameStart c = true) (tail : List Char) :
    isIdentifier (c :: tail.takeWhile isNameChar) = true := by
  apply Bool.and_eq_true_iff.mpr
  exact ⟨start, List.all_eq_true.mpr fun d member => List.mem_takeWhile_imp member⟩

theorem word_short (start : isNameStart c = true) {pattern : Pattern} {more : List Char}
    (member : more ∈ pattern.language) (begins : more <+: c :: tail) :
    more.length ≤ (c :: tail.takeWhile isNameChar).length := by
  have identifier : isIdentifier more = true := by
    rcases Pattern.eq_name start (begins_here member begins) with rfl | ⟨word, rfl⟩
    · exact mem_name.mp member
    · exact mem_keyword.mp member ▸ word.isIdentifier
  cases more with
  | nil => exact Nat.zero_le _
  | cons d more =>
    obtain ⟨_, others⟩ := Bool.and_eq_true_iff.mp identifier
    have within := (List.cons_prefix_cons.mp begins).2
    exact Nat.succ_le_succ (length_le_takeWhile within (List.all_eq_true.mp others))

/-- A word is a keyword or a name, and what is both is taken for the keyword. -/
theorem longest_word (start : isNameStart c = true) (tail : List Char) :
    ∃ pattern, Longest (c :: tail) pattern (c :: tail.takeWhile isNameChar) ∧
      pattern.token? (c :: tail.takeWhile isNameChar) = some (wordToken (c :: tail.takeWhile isNameChar)) := by
  have whole : c :: tail.takeWhile isNameChar <+: c :: tail := (List.prefix_cons_inj c).mpr (List.takeWhile_prefix _)
  have longest {pattern : Pattern} (matched : c :: tail.takeWhile isNameChar ∈ pattern.language)
      (preferred : ∀ other : Pattern, c :: tail.takeWhile isNameChar ∈ other.language → other = pattern ∨ other = .name) :
      Longest (c :: tail) pattern (c :: tail.takeWhile isNameChar) :=
    ⟨matched, whole, fun other more member begins => word_short start member begins, preferred⟩
  by_cases known : ∃ word : Keyword, c :: tail.takeWhile isNameChar = word.spelling
  · obtain ⟨word, spelled⟩ := known
    refine ⟨.keyword word, longest (mem_keyword.mpr spelled) ?_, ?_⟩
    · intro other member
      rcases Pattern.eq_name start (begins_here member whole) with name | ⟨word', rfl⟩
      · exact .inr name
      · exact .inl (congrArg Pattern.keyword (Keyword.spelling_injective ((mem_keyword.mp member).symm.trans spelled)))
    · rw [spelled]
      cases word <;> rfl
  · refine ⟨.name, longest (mem_name.mpr (isIdentifier_word start tail)) ?_, ?_⟩
    · intro other member
      rcases Pattern.eq_name start (begins_here member whole) with name | ⟨word, rfl⟩
      · exact .inr name
      · exact absurd ⟨word, mem_keyword.mp member⟩ known
    · have other (word : Keyword) : c :: tail.takeWhile isNameChar ≠ word.spelling := fun same => known ⟨word, same⟩
      have noTrue : c :: tail.takeWhile isNameChar ≠ "true".toList := other .yes
      have noFalse : c :: tail.takeWhile isNameChar ≠ "false".toList := other .no
      have noNull : c :: tail.takeWhile isNameChar ≠ "null".toList := other .null
      have noUndefined : c :: tail.takeWhile isNameChar ≠ "undefined".toList := other .undefined
      simp only [wordToken, noTrue, noFalse, noNull, noUndefined, decide_false, Bool.or_self, Bool.false_eq_true, if_false]
      rfl

/-- No mark stands behind one that it begins with. -/
theorem marks_ordered : Mark.all.Pairwise fun before behind => ¬ before.spelling <+: behind.spelling := by decide

/-- Where no word, number or quotation can stand, a text of a pattern is a mark. -/
structure Signed (c : Char) : Prop where
  noWord : isNameStart c = false
  noDigit : isDigit c = false
  noQuote : c ≠ '"' ∧ c ≠ '\''

theorem Signed.mark (signed : Signed c) {pattern : Pattern} {more : List Char} (member : more ∈ pattern.language)
    (begins : more <+: c :: tail) : ∃ sign : Mark, pattern = .mark sign ∧ more = sign.spelling := by
  obtain ⟨sign, rfl⟩ := Pattern.eq_mark signed.noWord signed.noDigit signed.noQuote.1 signed.noQuote.2
    (begins_here member begins)
  exact ⟨sign, rfl, mem_mark.mp member⟩

theorem longest_mark (signed : Signed c) {sign : Mark} (found : markAt? (c :: tail) = some sign) :
    Longest (c :: tail) (.mark sign) sign.spelling := by
  obtain ⟨here, before, behind, order, missed⟩ := List.find?_eq_some_iff_append.mp found
  have whole : sign.spelling <+: c :: tail := stripPrefix?_isSome.mp here
  have ordered := marks_ordered
  rw [order] at ordered
  -- A mark that stands here too stands in the list behind this one, and so is no longer.
  have short (other : Mark) (begins : other.spelling <+: c :: tail) :
      other = sign ∨ other.spelling <+: sign.spelling ∧ ¬ sign.spelling <+: other.spelling := by
    have listed := Mark.mem_all other
    rw [order] at listed
    rcases List.mem_append.mp listed with earlier | later
    · have none := missed other earlier
      rw [stripPrefix?_isSome.mpr begins] at none
      cases none
    · rcases List.mem_cons.mp later with same | later
      · exact .inl same
      · have apart := (List.pairwise_cons.mp (List.pairwise_append.mp ordered).2.1).1 other later
        exact .inr ⟨(List.prefix_or_prefix_of_prefix begins whole).resolve_right apart, apart⟩
  refine ⟨mem_mark.mpr rfl, whole, ?_, ?_⟩
  · intro pattern more member begins
    obtain ⟨other, rfl, rfl⟩ := signed.mark member begins
    rcases short other begins with rfl | ⟨within, _⟩
    · exact Nat.le_refl _
    · exact within.length_le
  · intro pattern member
    obtain ⟨other, rfl, same⟩ := signed.mark member whole
    rcases short other (same ▸ whole) with rfl | ⟨_, apart⟩
    · exact .inl rfl
    · exact absurd (same ▸ List.prefix_refl _) apart

theorem stray_mark (signed : Signed c) (missing : markAt? (c :: tail) = none) : Stray (c :: tail) := by
  intro pattern written member begins
  obtain ⟨sign, rfl, rfl⟩ := signed.mark member begins
  have none := List.find?_eq_none.mp missing sign (Mark.mem_all sign)
  exact none (stripPrefix?_isSome.mpr begins)

/-- What is read at a place is the longest text of a pattern, or there is none. -/
theorem tokenAt_longest (c : Char) (tail : List Char) :
    match tokenAt c tail with
    | (some token, further) => ∃ pattern, Longest (c :: tail) pattern (c :: tail.take further) ∧
        pattern.token? (c :: tail.take further) = some token
    | (none, _) => Stray (c :: tail) := by
  unfold tokenAt
  by_cases quoted : ∃ quote : Quote, c = quote.char
  · obtain ⟨quote, rfl⟩ := quoted
    have isQuote : (quote.char = '"' || quote.char = '\'') = true := by cases quote <;> rfl
    rw [if_pos isQuote]
    cases scanned : scan quote.char tail with
    | mk items behind =>
      cases behind with
      | none => exact stray_quotation quote scanned
      | some behind =>
        obtain ⟨split, meant, between⟩ := between_of_scan quote scanned
        have taken : tail.take (items.length + 1) = items ++ [quote.char] := by
          rw [split, List.take_length_add_append]
          rfl
        dsimp only
        rw [taken]
        refine ⟨.quotation quote, longest_quotation quote scanned, ?_⟩
        simp [Pattern.token?, unquote, inside]
  · have double : c ≠ '"' := fun same => quoted ⟨.double, same⟩
    have single : c ≠ '\'' := fun same => quoted ⟨.single, same⟩
    rw [if_neg (by simp [double, single])]
    by_cases digit : isDigit c = true
    · rw [if_pos digit]
      obtain ⟨numeral, spelled, value⟩ := numeral_of_number digit tail
      have means : Pattern.number.token? (c :: tail.take (numberToken c tail).2) = some (numberToken c tail).1 := by
        rw [spelled, value]
        exact congrArg (Option.map Token.number) (float?_spelling numeral)
      exact ⟨.number, longest_number digit tail, means⟩
    · rw [if_neg digit]
      by_cases start : isNameStart c = true
      · rw [if_pos start]
        dsimp only
        rw [take_takeWhile]
        exact longest_word start tail
      · rw [if_neg start]
        have signed : Signed c := ⟨Bool.eq_false_iff.mpr start, Bool.eq_false_iff.mpr digit, double, single⟩
        cases found : markAt? (c :: tail) with
        | some sign =>
          dsimp only
          rw [take_mark found]
          exact ⟨.mark sign, longest_mark signed found, rfl⟩
        | none => exact stray_mark signed found

end Kinds

section Token
variable {c : Char} {tail : List Char} {further : Nat}

theorem longest_of_tokenAt {token : Token} (here : tokenAt c tail = (some token, further)) :
    ∃ pattern, Longest (c :: tail) pattern (c :: tail.take further) ∧
      pattern.token? (c :: tail.take further) = some token := by
  have longest := tokenAt_longest c tail
  rwa [here] at longest

theorem stray_of_tokenAt (here : tokenAt c tail = (none, further)) : Stray (c :: tail) := by
  have stray := tokenAt_longest c tail
  rwa [here] at stray

theorem tokenAt_of_longest {pattern : Pattern} {written rest : List Char} {token : Token}
    (longest : Longest (c :: written ++ rest) pattern (c :: written)) (means : pattern.token? (c :: written) = some token) :
    ∃ further, tokenAt c (written ++ rest) = (some token, further) ∧ (written ++ rest).take further = written ∧
      (written ++ rest).drop further = rest := by
  cases here : tokenAt c (written ++ rest) with
  | mk found further =>
    cases found with
    | none => exact absurd longest.begins (stray_of_tokenAt here pattern _ longest.matched)
    | some token' =>
      obtain ⟨pattern', longest', means'⟩ := longest_of_tokenAt here
      obtain ⟨same, rfl⟩ := longest.unique longest'
      rw [← same, means] at means'
      have taken : (written ++ rest).take further = written := (List.cons.inj same).2.symm
      refine ⟨further, by rw [Option.some.inj means'], taken, ?_⟩
      have whole := List.take_append_drop further (written ++ rest)
      rw [taken] at whole
      exact List.append_cancel_left whole

end Token
end Stencil.Expr
