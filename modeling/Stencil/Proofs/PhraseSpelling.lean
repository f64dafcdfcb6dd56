import Stencil.Expr.Phrase

/-! What a word is written as is read back as its token, wherever it stands, as long as a
space or nothing follows it. Words with spaces between them are therefore cut exactly where
they were put together. -/

namespace Stencil.Expr
open Text Decimal

/-- The text that can stand behind a word. -/
def Separated (rest : List Char) : Prop := rest = [] ∨ ∃ more, rest = ' ' :: more

namespace Separated
variable {rest : List Char} {holds : Char → Bool} (separated : Separated rest) (stops : holds ' ' = false)
include separated stops

theorem takeWhile : rest.takeWhile holds = [] := by
  rcases separated with rfl | ⟨more, rfl⟩ <;> simp [stops]

theorem dropWhile : rest.dropWhile holds = rest := by
  rcases separated with rfl | ⟨more, rfl⟩ <;> simp [stops]

end Separated

/-- In front of `rest` the spelling is read as the token, and is read to its end. -/
def Starts (spelling rest : List Char) (token : Token) : Prop :=
  ∃ c tail, spelling = c :: tail ∧ isSpace c = false ∧ tokenAt c (tail ++ rest) = (some token, tail.length)

theorem starts_mark (sign : Mark) {rest : List Char} (separated : Separated rest) :
    Starts sign.spelling rest (.mark sign) := by
  rcases separated with rfl | ⟨more, rfl⟩ <;> cases sign <;> exact ⟨_, _, rfl, rfl, rfl⟩

section Classes
variable {holds : Char → Bool} {c : Char} (held : holds c = true)
include held

theorem not_quote (double : holds '"' = false) (single : holds '\'' = false) :
    (c = '"' || c = '\'') = false := by
  have notDouble : c ≠ '"' := by rintro rfl; simp [double] at held
  have notSingle : c ≠ '\'' := by rintro rfl; simp [single] at held
  simp [notDouble, notSingle]

theorem not_space (space : holds ' ' = false) (tab : holds '\t' = false) (carriage : holds '\r' = false)
    (line : holds '\n' = false) : isSpace c = false := by
  have notSpace : c ≠ ' ' := by rintro rfl; simp [space] at held
  have notTab : c ≠ '\t' := by rintro rfl; simp [tab] at held
  have notCarriage : c ≠ '\r' := by rintro rfl; simp [carriage] at held
  have notLine : c ≠ '\n' := by rintro rfl; simp [line] at held
  simp [isSpace, notSpace, notTab, notCarriage, notLine]

end Classes

theorem not_digit {c : Char} (start : isNameStart c = true) : isDigit c = false := by
  cases digit : isDigit c with
  | false => rfl
  | true =>
    simp only [isDigit, Bool.and_eq_true, decide_eq_true_eq, Char.le_def, UInt32.le_iff_toNat_le] at digit
    have last : c.val.toNat ≤ 57 := digit.2
    simp only [isNameStart, isAsciiLetter, Bool.or_eq_true, Bool.and_eq_true, decide_eq_true_eq, Char.le_def,
      UInt32.le_iff_toNat_le] at start
    rcases start with ((small | large) | rfl) | rfl
    · have first : 97 ≤ c.val.toNat := small.1
      omega
    · have first : 65 ≤ c.val.toNat := large.1
      omega
    · simp at last
    · simp at digit

theorem starts_name {text : List Char} (name : isIdentifier text = true) {rest : List Char}
    (ends : rest.takeWhile isNameChar = []) : Starts text rest (wordToken text) := by
  cases text with
  | nil => simp [isIdentifier] at name
  | cons c word =>
    obtain ⟨start, further⟩ := Bool.and_eq_true_iff.1 name
    have whole : (word ++ rest).takeWhile isNameChar = word := by
      rw [List.takeWhile_append_of_pos (List.all_eq_true.1 further), ends, List.append_nil]
    refine ⟨c, word, rfl, not_space start rfl rfl rfl rfl, ?_⟩
    simp [tokenAt, not_quote start rfl rfl, not_digit start, start, whole]

theorem Name.wordToken (name : Name) : wordToken name.text.toList = .ident name.text := by
  have free {word : String} (known : word ∈ literalWords) : name.text.toList ≠ word.toList := by
    intro same
    rw [← String.toList_inj.1 same] at known
    exact name.isFree known
  have notTrue : name.text.toList ≠ "true".toList := free (by simp [literalWords])
  have notFalse : name.text.toList ≠ "false".toList := free (by simp [literalWords])
  have notNull : name.text.toList ≠ "null".toList := free (by simp [literalWords])
  have notUndefined : name.text.toList ≠ "undefined".toList := free (by simp [literalWords])
  simp only [Expr.wordToken, notTrue, notFalse, notNull, notUndefined, decide_false, Bool.or_self,
    Bool.false_eq_true, if_false, String.ofList_toList]

/-- No digit behind the numeral belongs to it, be it to the whole part or, behind a point, to the fraction. -/
structure Numeral.Ends (numeral : Numeral) (rest : List Char) : Prop where
  digits : rest.takeWhile isDigit = []
  point : numeral.fraction = [] → Expr.fractionDigits rest = []

theorem Separated.ends {rest : List Char} (separated : Separated rest) (numeral : Numeral) : numeral.Ends rest where
  digits := separated.takeWhile rfl
  point _ := by rcases separated with rfl | ⟨more, rfl⟩ <;> rfl

theorem Numeral.starts (numeral : Numeral) {rest : List Char} (ends : numeral.Ends rest) :
    Starts numeral.spelling rest (.number numeral.value) := by
  obtain ⟨whole, fraction, digits, nonempty⟩ := numeral
  obtain ⟨stops, point⟩ := ends
  cases whole with
  | nil => exact absurd rfl nonempty
  | cons c whole =>
    obtain ⟨digit, wholeDigits, fractionDigits⟩ : isDigit c = true ∧ (∀ d ∈ whole, isDigit d = true) ∧
        ∀ d ∈ fraction, isDigit d = true := by
      simpa [or_imp, forall_and] using digits
    have taken : (whole ++ rest).takeWhile isDigit = whole := by
      rw [List.takeWhile_append_of_pos wholeDigits, stops, List.append_nil]
    cases fraction with
    | nil =>
      have left : (whole ++ rest).dropWhile isDigit = rest := by
        have split := @List.takeWhile_append_dropWhile _ isDigit (whole ++ rest)
        rwa [taken, List.append_cancel_left_eq] at split
      refine ⟨c, whole, by simp [spelling], not_space digit rfl rfl rfl rfl, ?_⟩
      simp [tokenAt, not_quote digit rfl rfl, digit, numberToken, taken, left, point rfl, value]
    | cons d fraction =>
      have taken : (whole ++ '.' :: (d :: fraction ++ rest)).takeWhile isDigit = whole := by
        rw [List.takeWhile_append_of_pos wholeDigits, List.takeWhile_cons_of_neg (by decide), List.append_nil]
      have left : (whole ++ '.' :: (d :: fraction ++ rest)).dropWhile isDigit = '.' :: (d :: fraction ++ rest) := by
        rw [List.dropWhile_append_of_pos wholeDigits, List.dropWhile_cons_of_neg (by decide)]
      have behind : Expr.fractionDigits ('.' :: (d :: fraction ++ rest)) = d :: fraction := by
        rw [Expr.fractionDigits, List.takeWhile_append_of_pos fractionDigits, stops, List.append_nil]
      refine ⟨c, whole ++ '.' :: d :: fraction, by simp [spelling], not_space digit rfl rfl rfl rfl, ?_⟩
      rw [List.append_assoc, List.cons_append]
      simp only [tokenAt, not_quote digit rfl rfl, digit, numberToken, taken, left, behind]
      simp [value]

namespace Quoted

theorem encodeChar_cases (quote : Quote) (c : Char) :
    (∃ sign, encodeChar quote c = ['\\', sign] ∧ escaped sign = c ∧ sign ≠ '\n') ∨
      encodeChar quote c = [c] ∧ c ≠ '\\' ∧ c ≠ quote.char := by
  unfold encodeChar
  by_cases line : c = '\n'
  · exact .inl ⟨'n', by simp [line, escaped]⟩
  by_cases tab : c = '\t'
  · exact .inl ⟨'t', by simp [tab, escaped]⟩
  by_cases carriage : c = '\r'
  · exact .inl ⟨'r', by simp [carriage, escaped]⟩
  by_cases special : c = '\\' ∨ c = quote.char
  · refine .inl ⟨c, by simp [line, tab, carriage, special], ?_, line⟩
    rcases special with rfl | rfl
    · rfl
    · cases quote <;> rfl
  · exact .inr ⟨by simp [line, tab, carriage, special], not_or.1 special⟩

theorem decode_cons {c : Char} (plain : c ≠ '\\') (rest : List Char) :
    decode (c :: rest) = c :: decode rest := by
  cases rest <;> simp [decode, plain]

theorem scan_cons {quote c : Char} (plain : c ≠ '\\') (inside : c ≠ quote) (rest : List Char) :
    scan quote (c :: rest) = (c :: (scan quote rest).1, (scan quote rest).2) := by
  cases rest <;> simp [scan, plain, inside]

theorem decode_encode (quote : Quote) (text : List Char) : decode (encode quote text) = text := by
  induction text with
  | nil => rfl
  | cons c text ih =>
    change decode (encodeChar quote c ++ encode quote text) = c :: text
    obtain ⟨sign, written, meant, -⟩ | ⟨written, plain, -⟩ := encodeChar_cases quote c
    · rw [written, List.cons_append, List.singleton_append, decode, meant, ih]
    · rw [written, List.singleton_append, decode_cons plain, ih]

theorem scan_encode (quote : Quote) (text rest : List Char) :
    scan quote.char (encode quote text ++ quote.char :: rest) = (encode quote text, some rest) := by
  induction text with
  | nil =>
    change scan quote.char (quote.char :: rest) = ([], some rest)
    cases quote <;> simp [scan, Quote.char]
  | cons c text ih =>
    change scan quote.char ((encodeChar quote c ++ encode quote text) ++ quote.char :: rest) =
      (encodeChar quote c ++ encode quote text, some rest)
    obtain ⟨sign, written, -, notLine⟩ | ⟨written, plain, notQuote⟩ := encodeChar_cases quote c
    · simp [written, scan, notLine, ih]
    · rw [written, List.singleton_append, List.cons_append, scan_cons plain notQuote, ih]

end Quoted

theorem starts_string (quote : Quoted.Quote) (text : String) (rest : List Char) :
    Starts (Word.string quote text).spelling rest (.string text) := by
  have notSpace : isSpace quote.char = false := by cases quote <;> rfl
  have quoted : (quote.char = '"' || quote.char = '\'') = true := by cases quote <;> rfl
  have behind : Quoted.encode quote text.toList ++ [quote.char] ++ rest =
      Quoted.encode quote text.toList ++ quote.char :: rest := by simp
  refine ⟨quote.char, Quoted.encode quote text.toList ++ [quote.char], rfl, notSpace, ?_⟩
  rw [behind]
  simp [tokenAt, quoted, Quoted.scan_encode, Quoted.decode_encode]

theorem Word.starts (word : Word) {rest : List Char} (separated : Separated rest) :
    Starts word.spelling rest word.token := by
  cases word with
  | mark sign => exact starts_mark sign separated
  | bool truth => cases truth <;> exact starts_name rfl (separated.takeWhile rfl)
  | null => exact starts_name rfl (separated.takeWhile rfl)
  | ident name =>
    have named := starts_name name.isIdentifier (separated.takeWhile rfl)
    rwa [name.wordToken] at named
  | string quote text => exact starts_string quote text rest
  | number numeral => exact numeral.starts (separated.ends numeral)

theorem lexFrom_starts {spelling rest : List Char} {token : Token} (starts : Starts spelling rest token)
    (start : Nat) : lexFrom start (spelling ++ rest) =
      (lexFrom (start + byteLength spelling) rest).map
        fun tokens => ⟨token, ⟨start, start + byteLength spelling⟩⟩ :: tokens := by
  obtain ⟨c, tail, rfl, notSpace, taken⟩ := starts
  have size : start + c.utf8Size + byteLength tail = start + byteLength (c :: tail) := Nat.add_assoc ..
  rw [List.cons_append, lexFrom]
  simp only [notSpace, taken, List.take_left, List.drop_left, size]
  rfl

theorem lexFrom_space (start : Nat) (rest : List Char) :
    lexFrom start (' ' :: rest) = lexFrom (start + 1) rest := by
  rw [lexFrom]
  rfl

/-- Cutting the text of some words gives their tokens back. -/
theorem lexFrom_spell (words : List Word) (start : Nat) :
    ∃ located, lexFrom start (Word.spell words) = .ok located ∧
      located.map Located.value = words.map Word.token := by
  induction words using Word.spell.induct generalizing start with
  | case1 => exact ⟨[], lexFrom_nil start, rfl⟩
  | case2 word =>
    have taken := lexFrom_starts (word.starts (.inl rfl)) start
    rw [List.append_nil, lexFrom_nil] at taken
    exact ⟨_, taken, rfl⟩
  | case3 word words more ih =>
    obtain ⟨located, read, same⟩ := ih (start + byteLength word.spelling + 1)
    have taken := lexFrom_starts (word.starts (.inr ⟨Word.spell words, rfl⟩)) start
    rw [lexFrom_space, read] at taken
    rw [Word.spell.eq_3 word words more]
    exact ⟨_, taken, congrArg (word.token :: ·) same⟩

end Stencil.Expr
