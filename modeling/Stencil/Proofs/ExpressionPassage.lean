import Mathlib.Data.List.TakeWhile
import Stencil.Proofs.ExpressionFaults
import Stencil.Proofs.LiteralItems

/-! An expression among other texts. The scan that cuts a text at a sign knows quotes and
brackets only, yet it agrees with the reading of expressions on where a quotation ends and
how deep the brackets go. So it passes over every text that is an expression. -/

namespace Stencil.Expr
open Text Decimal Argument Quoted

/-- What the scan of a quotation takes up is what can stand between quotes. -/
theorem Quoted.between_of_scan (quote : Quote) {text items rest : List Char}
    (scanned : scan quote.char text = (items, some rest)) :
    text = items ++ quote.char :: rest ∧ ∃ meant, Between quote items meant := by
  fun_induction scan quote.char text generalizing items rest with
  | case1 => cases scanned
  | case2 => cases scanned
  | case3 => cases scanned
  | case4 c text visible _ _ ran ih =>
    cases scanned
    obtain ⟨rfl, meant, between⟩ := ih ran
    exact ⟨rfl, _, .escape visible between⟩
  | case5 text =>
    cases scanned
    exact ⟨rfl, [], .nil⟩
  | case6 c text notEnd notEscape other _ _ ran ih =>
    cases scanned
    have sign : c ≠ '\\' := by
      rintro rfl
      cases text with
      | nil => exact notEnd rfl rfl
      | cons next text => exact notEscape next text rfl rfl
    obtain ⟨rfl, meant, between⟩ := ih ran
    exact ⟨rfl, _, .plain sign other between⟩

/-! A semicolon stands in no token but a quotation. -/

section Tokens
variable (depth : Nat)

theorem passes_space {c : Char} (space : isSpace c = true) :
    Passes ';' ⟨depth, none, false⟩ [c] ⟨depth, none, false⟩ :=
  passes_char (isBracket_of_isBlank (isBlank_of_isSpace space)) (.inr (by rintro rfl; cases space))

theorem plain_of_word {c : Char} (word : isNameChar c = true) : (!Position.isBracket c && c != ';') = true := by
  have other : c ≠ ';' := by rintro rfl; cases word
  have plain : Position.isBracket c = false := by
    unfold Position.isBracket
    split <;> first | rfl | exact absurd word (by decide)
  simp [plain, other]

theorem passes_word {text : List Char} (word : ∀ c ∈ text, isNameChar c = true) :
    Passes ';' ⟨depth, none, false⟩ text ⟨depth, none, false⟩ :=
  passes_plain (List.all_eq_true.2 fun c mem => plain_of_word (word c mem))

theorem isNameChar_of_isDigit {c : Char} (digit : isDigit c = true) : isNameChar c = true := by
  simp [isNameChar, digit]

theorem passes_mark (sign : Mark) (run : Nat) : Passes ';' ⟨depth, none, false⟩ sign.spelling
    ⟨(Nesting.step ⟨depth, run⟩ (.mark sign)).brackets, none, false⟩ := by
  have bracket {c : Char} (bracket : Position.isBracket c = true) {next : Position}
      (moves : Position.step ⟨depth, none, false⟩ c = next) : Passes ';' ⟨depth, none, false⟩ [c] next :=
    .cons (by simp [Position.isCut, bracket]) moves (.nil next)
  cases sign with
  | parenOpen => exact bracket rfl rfl
  | parenClose => exact bracket rfl rfl
  | bracketOpen => exact bracket rfl rfl
  | bracketClose => exact bracket rfl rfl
  | _ => exact passes_plain (by decide)

theorem take_takeWhile (holds : Char → Bool) (text : List Char) :
    text.take (text.takeWhile holds).length = text.takeWhile holds :=
  (List.prefix_iff_eq_take.1 (List.takeWhile_prefix holds)).symm

theorem drop_takeWhile (holds : Char → Bool) (text : List Char) :
    text.drop (text.takeWhile holds).length = text.dropWhile holds := by
  have split := List.takeWhile_append_dropWhile (p := holds) (l := text)
  calc text.drop (text.takeWhile holds).length
    _ = (text.takeWhile holds ++ text.dropWhile holds).drop (text.takeWhile holds).length := by rw [split]
    _ = text.dropWhile holds := List.drop_left

/-- What a number takes up: digits, and a point with more of them. -/
theorem passes_number {c : Char} (digit : isDigit c = true) (tail : List Char) :
    Passes ';' ⟨depth, none, false⟩ (c :: tail.take (numberToken c tail).2) ⟨depth, none, false⟩ := by
  have whole : Passes ';' ⟨depth, none, false⟩ (c :: tail.takeWhile isDigit) ⟨depth, none, false⟩ :=
    passes_word depth (List.forall_mem_cons.2 ⟨isNameChar_of_isDigit digit, fun d mem =>
      isNameChar_of_isDigit (List.mem_takeWhile_imp mem)⟩)
  unfold numberToken
  dsimp only
  split
  next =>
    rw [Nat.add_zero, take_takeWhile]
    exact whole
  next some =>
    cases behind : tail.dropWhile isDigit with
    | nil => simp [behind, fractionDigits] at some
    | cons point more =>
      by_cases isPoint : point = '.'
      · subst isPoint
        have point : Passes ';' ⟨depth, none, false⟩ ['.'] ⟨depth, none, false⟩ := passes_plain (by decide)
        have fraction : Passes ';' ⟨depth, none, false⟩ (more.takeWhile isDigit) ⟨depth, none, false⟩ :=
          passes_word depth fun d mem => isNameChar_of_isDigit (List.mem_takeWhile_imp mem)
        have taken : tail.take ((tail.takeWhile isDigit).length + ((more.takeWhile isDigit).length + 1)) =
            tail.takeWhile isDigit ++ '.' :: more.takeWhile isDigit := by
          rw [List.take_add, take_takeWhile, drop_takeWhile, behind, List.take_succ_cons, take_takeWhile]
        simp only [fractionDigits]
        rw [taken]
        exact whole.append (point.append fraction)
      · simp [behind, fractionDigits, isPoint] at some

theorem isNameChar_of_isNameStart {c : Char} (start : isNameStart c = true) : isNameChar c = true := by
  simp [isNameChar, start]

theorem brackets_wordToken (run : Nat) (word : List Char) :
    (Nesting.step ⟨depth, run⟩ (wordToken word)).brackets = depth := by
  unfold wordToken
  split <;> [rfl; split <;> [rfl; split <;> rfl]]

theorem mark_of_markAt? {text : List Char} {sign : Mark} (found : markAt? text = some sign) :
    ∃ rest, text = sign.spelling ++ rest := by
  have begins := List.find?_some found
  obtain ⟨rest, split⟩ := Option.isSome_iff_exists.1 begins
  exact ⟨rest, stripPrefix?_eq_some.1 split⟩

theorem take_mark {c : Char} {tail : List Char} {sign : Mark} (found : markAt? (c :: tail) = some sign) :
    c :: tail.take (sign.spelling.length - 1) = sign.spelling := by
  obtain ⟨rest, split⟩ := mark_of_markAt? found
  obtain ⟨letter, letters, spelled⟩ : ∃ letter letters, sign.spelling = letter :: letters := by
    cases sign <;> exact ⟨_, _, rfl⟩
  rw [spelled] at split
  cases split
  rw [spelled]
  exact congrArg (c :: ·) List.take_left

/-- What a quotation takes up: its items, and the quotes around them. -/
theorem passes_quotation (quote : Quote) {tail items behind : List Char}
    (scanned : scan quote.char tail = (items, some behind)) :
    Passes ';' ⟨depth, none, false⟩ (quote.char :: tail.take (items.length + 1)) ⟨depth, none, false⟩ := by
  obtain ⟨rfl, meant, between⟩ := between_of_scan quote scanned
  have taken : (items ++ quote.char :: behind).take (items.length + 1) = items ++ [quote.char] := by
    rw [List.take_length_add_append]
    rfl
  rw [taken]
  exact Quotation.passes_letters ⟨quote, items, String.ofList meant, by simpa using between⟩ ';' depth

/-- Past a token the scan is as deep in brackets as the count of the token says. -/
theorem passes_token {c : Char} {tail : List Char} {token : Token} {further : Nat}
    (here : tokenAt c tail = (some token, further)) (run : Nat) :
    Passes ';' ⟨depth, none, false⟩ (c :: tail.take further)
      ⟨(Nesting.step ⟨depth, run⟩ token).brackets, none, false⟩ := by
  unfold tokenAt at here
  split at here
  next quoted =>
    obtain ⟨quote, rfl⟩ : ∃ quote : Quote, c = quote.char := by
      simp only [Bool.or_eq_true, decide_eq_true_eq] at quoted
      rcases quoted with rfl | rfl
      · exact ⟨.double, rfl⟩
      · exact ⟨.single, rfl⟩
    split at here
    next items behind scanned =>
      cases here
      exact passes_quotation depth quote scanned
    next => cases here
  next =>
    split at here
    next digit =>
      cases here
      exact passes_number depth digit tail
    next =>
      split at here
      next start =>
        cases here
        rw [take_takeWhile, brackets_wordToken]
        exact passes_word depth (List.forall_mem_cons.2 ⟨isNameChar_of_isNameStart start, fun d mem =>
          List.mem_takeWhile_imp mem⟩)
      next =>
        split at here
        next sign found =>
          cases here
          rw [take_mark found]
          exact passes_mark depth sign run
        next => cases here

theorem passes_lexFrom {start : Nat} {text : List Char} {tokens : List (Located Token)}
    (lexed : lexFrom start text = .ok tokens) (run : Nat) :
    Passes ';' ⟨depth, none, false⟩ text
      ⟨(Nesting.after ⟨depth, run⟩ (tokens.map Located.value)).brackets, none, false⟩ := by
  fun_induction lexFrom start text generalizing tokens depth run with
  | case1 =>
    cases lexed
    exact .nil _
  | case2 start c tail space ih => exact (passes_space depth space).append (ih depth lexed run)
  | case3 => cases lexed
  | case4 start c tail _ further stop token here ih =>
    cases behind : lexFrom stop (tail.drop further) with
    | error _ => rw [behind] at lexed; cases lexed
    | ok rest =>
      rw [behind] at lexed
      cases lexed
      have here := passes_token depth here run
      have there := ih (Nesting.step ⟨depth, run⟩ token).brackets behind (Nesting.step ⟨depth, run⟩ token).run
      have whole := here.append there
      rw [List.cons_append, List.take_append_drop] at whole
      exact whole

end Tokens

/-- The semicolons of an expression stand in quotations, and no bracket of it stays open. -/
theorem passes_parsed {text : String} {whole : Expr} (parsed : parse text = .ok whole) :
    Passes ';' {} text.toList {} := by
  obtain ⟨tokens, lexed, derives⟩ := lexes_of_parse parsed
  obtain ⟨extent, nests⟩ := derives.nests
  have passes := passes_lexFrom 0 lexed 0
  rwa [nests.counted.after 0 0] at passes

/-! What an expression begins with. -/

theorem isBlank_of_isNameChar {c : Char} (word : isNameChar c = true) : isBlank c = false := by
  have bounds : 36 = c.toNat ∨ 48 ≤ c.toNat ∧ c.toNat ≤ 122 := by
    simp only [isNameChar, isNameStart, isAsciiLetter, isDigit, Bool.or_eq_true, Bool.and_eq_true, decide_eq_true_eq,
      Char.le_def, UInt32.le_iff_toNat_le] at word
    change (((97 ≤ c.toNat ∧ c.toNat ≤ 122 ∨ 65 ≤ c.toNat ∧ c.toNat ≤ 90) ∨ _) ∨ _) ∨
      48 ≤ c.toNat ∧ c.toNat ≤ 57 at word
    rcases word with ((_ | rfl) | rfl) | _
    · omega
    · decide
    · decide
    · omega
  simp only [isBlank, within, blankRanges, List.any_cons, List.any_nil, Bool.or_false, Bool.or_eq_false_iff,
    Bool.and_eq_false_iff, decide_eq_false_iff_not]
  omega

theorem word_of_identifier {name : List Char} (identifier : isIdentifier name = true) :
    ∀ c ∈ name, isNameChar c = true := by
  cases name with
  | nil => exact List.forall_mem_nil _
  | cons c name =>
    simp only [isIdentifier, Bool.and_eq_true, List.all_eq_true] at identifier
    exact List.forall_mem_cons.2 ⟨isNameChar_of_isNameStart identifier.1, identifier.2⟩

theorem Name.trimmed (name : Name) : trimmed name.text = name.text := by
  have visible : ∀ c ∈ name.text.toList, isBlank c = false := fun c mem =>
    isBlank_of_isNameChar (word_of_identifier name.isIdentifier c mem)
  have ends : Trimmed name.text.toList :=
    ⟨fun c mem => visible c (List.mem_of_mem_head? mem), fun c mem => visible c (List.mem_of_getLast? mem)⟩
  rw [Text.trimmed, ends.trim, String.ofList_toList]

/-- An expression that is a name by itself is a variable. -/
theorem parse_trimmed_name (name : Name) : parse (trimmed name.text) = .ok (.variable name.text) := by
  rw [name.trimmed, parse_name]

/-- No token begins with a blank. -/
theorem isBlank_of_tokenAt {c : Char} {tail : List Char} {token : Token} {further : Nat}
    (here : tokenAt c tail = (some token, further)) : isBlank c = false := by
  unfold tokenAt at here
  split at here
  next quoted =>
    simp only [Bool.or_eq_true, decide_eq_true_eq] at quoted
    rcases quoted with rfl | rfl <;> decide
  next =>
    split at here
    next digit => exact isBlank_of_isNameChar (isNameChar_of_isDigit digit)
    next =>
      split at here
      next start => exact isBlank_of_isNameChar (isNameChar_of_isNameStart start)
      next =>
        split at here
        next sign found =>
          obtain ⟨rest, split⟩ := mark_of_markAt? found
          cases sign <;> cases split <;> decide
        next => cases here

theorem equals_of_tokenAt {tail : List Char} {token : Token} {further : Nat}
    (here : tokenAt '=' tail = (some token, further)) : token = .mark .strictEq ∨ token = .mark .eq := by
  unfold tokenAt at here
  rw [if_neg (by decide), if_neg (by decide), if_neg (by decide)] at here
  cases found : markAt? ('=' :: tail) with
  | none =>
    rw [found] at here
    cases here
  | some sign =>
    rw [found] at here
    cases here
    obtain ⟨rest, split⟩ := mark_of_markAt? found
    cases sign <;> cases split
    · exact .inl rfl
    · exact .inr rfl

theorem first_of_lexFrom {start : Nat} {text : List Char} {token : Located Token} {tokens : List (Located Token)}
    (lexed : lexFrom start text = .ok (token :: tokens)) :
    ∃ spaces c tail further, text = spaces ++ c :: tail ∧ (∀ d ∈ spaces, isSpace d = true) ∧
      tokenAt c tail = (some token.value, further) := by
  fun_induction lexFrom start text with
  | case1 => cases lexed
  | case2 start c tail space ih =>
    obtain ⟨spaces, d, tail, further, rfl, blank, here⟩ := ih lexed
    exact ⟨c :: spaces, d, tail, further, rfl, List.forall_mem_cons.2 ⟨space, blank⟩, here⟩
  | case3 => cases lexed
  | case4 start c tail _ further stop value here ih =>
    cases behind : lexFrom stop (tail.drop further) with
    | error _ => rw [behind] at lexed; cases lexed
    | ok rest =>
      rw [behind] at lexed
      cases lexed
      exact ⟨[], c, tail, further, rfl, List.forall_mem_nil _, here⟩

theorem parsed_first {text : String} {whole : Expr} (parsed : parse text = .ok whole) :
    ∃ spaces c tail, text.toList = spaces ++ c :: tail ∧ (∀ d ∈ spaces, isSpace d = true) ∧
      isBlank c = false ∧ c ≠ '=' := by
  obtain ⟨tokens, lexed, derives⟩ := lexes_of_parse parsed
  obtain ⟨last, leads, finished⟩ := derives_iff.1 derives
  cases tokens with
  | nil => cases leads; cases finished
  | cons token tokens =>
    obtain ⟨spaces, c, tail, further, split, blank, here⟩ := first_of_lexFrom lexed
    refine ⟨spaces, c, tail, split, blank, isBlank_of_tokenAt here, ?_⟩
    rintro rfl
    rcases equals_of_tokenAt here with mark | mark <;> rw [List.map_cons, mark] at leads <;> cases leads

end Stencil.Expr
