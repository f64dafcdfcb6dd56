import Mathlib.Computability.Language
import Stencil.Proofs.ExpressionPassage

/-! The patterns of tokens. A pattern is the set of all texts that a token can be written as, put together from
spellings and classes of characters, and knows nothing of any scan. The first character of such a text tells which
patterns can match it at all. -/

namespace Stencil.Expr
open Text Decimal Quoted
open scoped Computability

/-- Words that stand for values. -/
inductive Keyword where
  | yes | no | null | undefined
deriving DecidableEq

namespace Keyword

def spelling : Keyword → List Char
  | yes => "true".toList
  | no => "false".toList
  | null => "null".toList
  | undefined => "undefined".toList

def token : Keyword → Token
  | yes => .bool true
  | no => .bool false
  | null | undefined => .null

theorem spelling_injective {word other : Keyword} (same : word.spelling = other.spelling) : word = other := by
  cases word <;> cases other <;> first | rfl | exact absurd same (by decide)

theorem isIdentifier (word : Keyword) : Expr.isIdentifier word.spelling = true := by
  cases word <;> rfl

end Keyword

inductive Pattern where
  | keyword (word : Keyword)
  | mark (sign : Mark)
  | name
  | quotation (quote : Quote)
  | number
deriving DecidableEq

/-- One character of a class. -/
def single (holds : Char → Prop) : Language Char := {text | ∃ c, holds c ∧ text = [c]}

/-- One or more digits. -/
def digits : Language Char := single (isDigit · = true) * (single (isDigit · = true))∗

namespace Pattern

/-- All that the pattern matches. Between quotes stands any character but the quote and the backslash, and behind a
backslash any character but a line feed. -/
def language : Pattern → Language Char
  | keyword word => {word.spelling}
  | mark sign => {sign.spelling}
  | name => single (isNameStart · = true) * (single (isNameChar · = true))∗
  | quotation quote => {[quote.char]} *
      (single (fun c => c ≠ quote.char ∧ c ≠ '\\') + {['\\']} * single (· ≠ '\n'))∗ * {[quote.char]}
  | number => digits * (1 + {['.']} * digits)

/-- The token that a text of the pattern stands for. -/
def token? : Pattern → List Char → Option Token
  | keyword word, _ => some word.token
  | mark sign, _ => some (.mark sign)
  | name, text => some (.ident (String.ofList text))
  | quotation _, text => some (.string (unquote (String.ofList text)))
  | number, text => (Decimal.float? text).map .number

/-- The characters that a text of the pattern can begin with. -/
def Begins (c : Char) : Pattern → Prop
  | keyword _ | name => isNameStart c = true
  | mark sign => sign.spelling.head? = some c
  | quotation quote => c = quote.char
  | number => isDigit c = true

end Pattern

theorem mem_single_star {holds : Char → Prop} {text : List Char} :
    text ∈ (single holds)∗ ↔ ∀ c ∈ text, holds c := by
  rw [Language.mem_kstar]
  constructor
  · intro ⟨words, split, each⟩ c member
    rw [split] at member
    obtain ⟨word, inside, member⟩ := List.mem_flatten.mp member
    obtain ⟨d, held, rfl⟩ := each word inside
    exact List.mem_singleton.mp member ▸ held
  · intro all
    refine ⟨text.map fun c => [c], ?_, ?_⟩
    · exact (List.flatMap_singleton' text).symm
    · intro word member
      obtain ⟨c, inside, rfl⟩ := List.mem_map.mp member
      exact ⟨c, all c inside, rfl⟩

theorem mem_digits {text : List Char} : text ∈ digits ↔ text ≠ [] ∧ ∀ c ∈ text, isDigit c = true := by
  unfold digits
  rw [Language.mem_mul]
  constructor
  · intro ⟨first, ⟨c, digit, single⟩, rest, others, joined⟩
    subst single joined
    exact ⟨List.cons_ne_nil _ _, List.forall_mem_cons.mpr ⟨digit, mem_single_star.mp others⟩⟩
  · intro ⟨filled, all⟩
    cases text with
    | nil => exact absurd rfl filled
    | cons c rest =>
      obtain ⟨digit, others⟩ := List.forall_mem_cons.mp all
      exact ⟨[c], ⟨c, digit, rfl⟩, rest, mem_single_star.mpr others, rfl⟩

theorem mem_keyword {word : Keyword} {text : List Char} :
    text ∈ (Pattern.keyword word).language ↔ text = word.spelling := Iff.rfl

theorem mem_mark {sign : Mark} {text : List Char} : text ∈ (Pattern.mark sign).language ↔ text = sign.spelling := Iff.rfl

theorem mem_name {text : List Char} : text ∈ Pattern.name.language ↔ isIdentifier text = true := by
  unfold Pattern.language
  rw [Language.mem_mul]
  constructor
  · intro ⟨first, ⟨c, start, single⟩, rest, others, joined⟩
    subst single joined
    simp only [List.singleton_append, isIdentifier, Bool.and_eq_true, List.all_eq_true]
    exact ⟨start, mem_single_star.mp others⟩
  · intro identifier
    cases text with
    | nil => cases identifier
    | cons c rest =>
      simp only [isIdentifier, Bool.and_eq_true, List.all_eq_true] at identifier
      exact ⟨[c], ⟨c, identifier.1, rfl⟩, rest, mem_single_star.mpr identifier.2, rfl⟩

/-- Items between quotes, one behind the other. -/
theorem mem_items {quote : Quote} {text : List Char} :
    text ∈ (single (fun c => c ≠ quote.char ∧ c ≠ '\\') + {['\\']} * single (· ≠ '\n'))∗ ↔
      ∃ meant, Between quote text meant := by
  rw [Language.mem_kstar]
  constructor
  · intro ⟨words, split, each⟩
    subst split
    induction words with
    | nil => exact ⟨[], .nil⟩
    | cons word words ih =>
      obtain ⟨here, others⟩ := List.forall_mem_cons.mp each
      obtain ⟨meant, between⟩ := ih others
      rcases (Language.mem_add _ _ _).mp here with plain | escape
      · obtain ⟨c, ⟨other, sign⟩, rfl⟩ := plain
        exact ⟨c :: meant, .plain sign other between⟩
      · obtain ⟨first, backslash, second, ⟨c, visible, rfl⟩, rfl⟩ := Language.mem_mul.mp escape
        cases backslash
        exact ⟨_, .escape visible between⟩
  · intro ⟨meant, between⟩
    induction between with
    | nil => exact ⟨[], rfl, List.forall_mem_nil _⟩
    | @plain c written meant sign other _ ih =>
      obtain ⟨words, rfl, each⟩ := ih
      refine ⟨[c] :: words, rfl, List.forall_mem_cons.mpr ⟨?_, each⟩⟩
      exact (Language.mem_add _ _ _).mpr (.inl ⟨c, ⟨other, sign⟩, rfl⟩)
    | @escape c written meant visible _ ih =>
      obtain ⟨words, rfl, each⟩ := ih
      refine ⟨['\\', c] :: words, rfl, List.forall_mem_cons.mpr ⟨?_, each⟩⟩
      exact (Language.mem_add _ _ _).mpr (.inr (Language.mem_mul.mpr ⟨['\\'], rfl, [c], ⟨c, visible, rfl⟩, rfl⟩))

theorem mem_quotation {quote : Quote} {text : List Char} : text ∈ (Pattern.quotation quote).language ↔
    ∃ items meant, Between quote items meant ∧ text = quote.char :: (items ++ [quote.char]) := by
  unfold Pattern.language
  rw [Language.mem_mul]
  constructor
  · intro ⟨opened, inside, closing, closes, joined⟩
    obtain ⟨opening, opens, items, between, rfl⟩ := Language.mem_mul.mp inside
    cases opens
    cases closes
    obtain ⟨meant, between⟩ := mem_items.mp between
    exact ⟨items, meant, between, joined.symm⟩
  · intro ⟨items, meant, between, joined⟩
    refine ⟨quote.char :: items, ?_, [quote.char], rfl, joined.symm⟩
    exact Language.mem_mul.mpr ⟨[quote.char], rfl, items, mem_items.mpr ⟨meant, between⟩, rfl⟩

theorem mem_number {text : List Char} :
    text ∈ Pattern.number.language ↔ ∃ numeral : Numeral, text = numeral.spelling := by
  unfold Pattern.language
  rw [Language.mem_mul]
  constructor
  · rintro ⟨whole, wholes, behind, rest, joined⟩
    obtain ⟨some, first⟩ := mem_digits.mp wholes
    rcases (Language.mem_add _ _ _).mp rest with nothing | pointed
    · have none : behind = [] := nothing
      refine ⟨⟨whole, [], by simpa using first, some⟩, ?_⟩
      rw [← joined, none]
      rfl
    · obtain ⟨point, isPoint, fraction, fractions, rfl⟩ := Language.mem_mul.mp pointed
      cases isPoint
      obtain ⟨more, second⟩ := mem_digits.mp fractions
      refine ⟨⟨whole, fraction, List.forall_mem_append.mpr ⟨first, second⟩, some⟩, ?_⟩
      simp [Numeral.spelling, more, ← joined]
  · rintro ⟨⟨whole, fraction, all, some⟩, spelled⟩
    obtain ⟨first, second⟩ := List.forall_mem_append.mp all
    refine ⟨whole, mem_digits.mpr ⟨some, first⟩, if fraction.isEmpty then [] else '.' :: fraction, ?_, spelled.symm⟩
    apply (Language.mem_add _ _ _).mpr
    cases fraction with
    | nil => exact .inl rfl
    | cons d fraction =>
      exact .inr (Language.mem_mul.mpr ⟨['.'], rfl, d :: fraction, mem_digits.mpr ⟨List.cons_ne_nil _ _, second⟩, rfl⟩)

/-- A text of the pattern begins with a character that fits the pattern. -/
theorem Pattern.begins {pattern : Pattern} {text : List Char} (member : text ∈ pattern.language) :
    ∃ c rest, text = c :: rest ∧ pattern.Begins c := by
  have named (identifier : isIdentifier text = true) : ∃ c rest, text = c :: rest ∧ isNameStart c = true := by
    cases text with
    | nil => cases identifier
    | cons c rest => exact ⟨c, rest, rfl, (Bool.and_eq_true_iff.mp identifier).1⟩
  cases pattern with
  | keyword word => exact named (mem_keyword.mp member ▸ word.isIdentifier)
  | mark sign =>
    cases mem_mark.mp member
    cases sign <;> exact ⟨_, _, rfl, rfl⟩
  | name => exact named (mem_name.mp member)
  | quotation quote =>
    obtain ⟨items, _, _, rfl⟩ := mem_quotation.mp member
    exact ⟨_, _, rfl, rfl⟩
  | number =>
    obtain ⟨⟨whole, fraction, all, some⟩, rfl⟩ := mem_number.mp member
    cases whole with
    | nil => exact absurd rfl some
    | cons c whole => exact ⟨c, _, rfl, all c (by simp)⟩

/-! No character begins texts of two patterns, but for keywords among names and marks among each other. -/

namespace Pattern
variable {pattern : Pattern} {c : Char}

theorem not_nameStart_of_mark {sign : Mark} (begins : sign.spelling.head? = some c) :
    isNameStart c = false ∧ isDigit c = false ∧ c ≠ '"' ∧ c ≠ '\'' ∧ isSpace c = false := by
  cases sign <;> cases begins <;> decide

theorem eq_quotation (quote : Quote) (begins : pattern.Begins quote.char) : pattern = .quotation quote := by
  cases pattern with
  | keyword | name | number => cases quote <;> cases begins
  | mark sign =>
    obtain ⟨_, _, double, single, _⟩ := not_nameStart_of_mark begins
    cases quote with
    | single => exact absurd rfl single
    | double => exact absurd rfl double
  | quotation other => cases quote <;> cases other <;> first | rfl | cases begins

theorem eq_number (digit : isDigit c = true) (begins : pattern.Begins c) : pattern = .number := by
  cases pattern with
  | number => rfl
  | keyword | name => exact absurd digit (Bool.eq_false_iff.mp (not_digit begins))
  | mark sign => exact absurd digit (Bool.eq_false_iff.mp (not_nameStart_of_mark begins).2.1)
  | quotation quote =>
    cases begins
    cases quote <;> cases digit

theorem eq_name (start : isNameStart c = true) (begins : pattern.Begins c) :
    pattern = .name ∨ ∃ word, pattern = .keyword word := by
  cases pattern with
  | name => exact .inl rfl
  | keyword word => exact .inr ⟨word, rfl⟩
  | mark sign => exact absurd start (Bool.eq_false_iff.mp (not_nameStart_of_mark begins).1)
  | quotation quote =>
    cases begins
    cases quote <;> cases start
  | number => exact absurd begins (Bool.eq_false_iff.mp (not_digit start))

theorem eq_mark (other : isNameStart c = false) (noDigit : isDigit c = false) (double : c ≠ '"') (single : c ≠ '\'')
    (begins : pattern.Begins c) : ∃ sign, pattern = .mark sign := by
  cases pattern with
  | mark sign => exact ⟨sign, rfl⟩
  | keyword | name => exact absurd begins (Bool.eq_false_iff.mp other)
  | number => exact absurd begins (Bool.eq_false_iff.mp noDigit)
  | quotation quote =>
    cases quote with
    | single => exact absurd begins single
    | double => exact absurd begins double

end Pattern

theorem isSpace_of_visible {c : Char} (visible : isBlank c = false) : isSpace c = false := by
  apply Bool.eq_false_iff.mpr
  intro space
  rw [isBlank_of_isSpace space] at visible
  cases visible

/-- Blanks stand in quotations only. -/
theorem Pattern.visible {pattern : Pattern} {text : List Char} (member : text ∈ pattern.language)
    (plain : ∀ quote, pattern ≠ .quotation quote) : ∀ c ∈ text, isBlank c = false := by
  have named (identifier : isIdentifier text = true) : ∀ c ∈ text, isBlank c = false := by
    cases text with
    | nil => exact List.forall_mem_nil _
    | cons c rest =>
      obtain ⟨start, others⟩ := Bool.and_eq_true_iff.mp identifier
      refine List.forall_mem_cons.mpr ⟨isBlank_of_isNameChar (isNameChar_of_isNameStart start), ?_⟩
      intro d inside
      exact isBlank_of_isNameChar (List.all_eq_true.mp others d inside)
  cases pattern with
  | keyword word => exact named (mem_keyword.mp member ▸ word.isIdentifier)
  | mark sign =>
    cases mem_mark.mp member
    have all : sign.spelling.all (fun c => !isBlank c) = true := by cases sign <;> rfl
    intro c inside
    exact Bool.not_eq_true' _ ▸ List.all_eq_true.mp all c inside
  | name => exact named (mem_name.mp member)
  | quotation quote => exact absurd rfl (plain quote)
  | number =>
    obtain ⟨⟨whole, fraction, all, some⟩, rfl⟩ := mem_number.mp member
    intro c inside
    have known : c = '.' ∨ c ∈ whole ++ fraction := by
      cases fraction with
      | nil => exact .inr (by simpa [Numeral.spelling] using inside)
      | cons d fraction =>
        simp only [Numeral.spelling, List.isEmpty_cons, Bool.false_eq_true, if_false, List.mem_append,
          List.mem_cons] at inside ⊢
        tauto
    rcases known with rfl | digit
    · decide
    · exact isBlank_of_isNameChar (isNameChar_of_isDigit (all c digit))

/-- A text of a pattern does not end in a blank. -/
theorem Pattern.ends {pattern : Pattern} {text : List Char} (member : text ∈ pattern.language) :
    ∃ before c, text = before ++ [c] ∧ isBlank c = false := by
  by_cases quoted : ∃ quote, pattern = .quotation quote
  · obtain ⟨quote, rfl⟩ := quoted
    obtain ⟨items, _, _, rfl⟩ := mem_quotation.mp member
    exact ⟨quote.char :: items, quote.char, rfl, by cases quote <;> decide⟩
  · have visible := visible member fun quote same => quoted ⟨quote, same⟩
    obtain ⟨c, rest, rfl, _⟩ := begins member
    have split := (List.dropLast_append_getLast (List.cons_ne_nil c rest)).symm
    exact ⟨_, _, split, visible _ (List.getLast_mem _)⟩

/-! What the digits of a number mean is what they mean as a numeral by themselves. -/

theorem lowerAscii_digit {c : Char} (digit : isDigit c = true) : Decimal.lowerAscii c = c := by
  apply if_neg
  intro upper
  simp only [isDigit, Bool.and_eq_true, decide_eq_true_eq, Char.le_def, UInt32.le_iff_toNat_le] at digit upper
  have last : c.val.toNat ≤ 57 := digit.2
  have first : 65 ≤ c.val.toNat := upper.1
  omega

/-- Words begin with a letter and signs are no digits, so text with a digit in front is read as digits. -/
theorem float?_digit {c : Char} (digit : isDigit c = true) (rest : List Char) :
    Decimal.float? (c :: rest) = Decimal.unsigned? (c :: rest) := by
  have other (d : Char) (letters : List Char) (noDigit : isDigit d = false) :
      String.ofList ((c :: rest).map Decimal.lowerAscii) ≠ String.ofList (d :: letters) := by
    intro same
    have equal := congrArg String.toList same
    rw [String.toList_ofList, String.toList_ofList, List.map_cons, lowerAscii_digit digit] at equal
    obtain ⟨rfl, _⟩ := List.cons.inj equal
    rw [digit] at noDigit
    cases noDigit
  have inf : String.ofList ((c :: rest).map Decimal.lowerAscii) ≠ "inf" := other 'i' ['n', 'f'] rfl
  have infinity : String.ofList ((c :: rest).map Decimal.lowerAscii) ≠ "infinity" :=
    other 'i' ['n', 'f', 'i', 'n', 'i', 't', 'y'] rfl
  have nan : String.ofList ((c :: rest).map Decimal.lowerAscii) ≠ "nan" := other 'n' ['a', 'n'] rfl
  unfold Decimal.float?
  split
  next minus =>
    cases minus
    exact absurd digit (by decide)
  next plus =>
    cases plus
    exact absurd digit (by decide)
  next => simp only [inf, infinity, nan, decide_false, Bool.or_self, Bool.false_eq_true, if_false]

theorem float?_spelling (numeral : Numeral) : Decimal.float? numeral.spelling = some numeral.value := by
  obtain ⟨whole, fraction, all, filled⟩ := numeral
  obtain ⟨wholes, fractions⟩ := List.forall_mem_append.mp all
  cases whole with
  | nil => exact absurd rfl filled
  | cons c whole =>
    rw [Numeral.spelling, List.cons_append, float?_digit (wholes c List.mem_cons_self), ← List.cons_append]
    cases fraction with
    | nil =>
      have taken : (c :: whole).takeWhile isDigit = c :: whole := List.takeWhile_eq_self_iff.mpr wholes
      have left : (c :: whole).dropWhile isDigit = [] := List.dropWhile_eq_nil_iff.mpr wholes
      simp [Decimal.unsigned?, taken, left, Decimal.exponent?, Numeral.value]
    | cons d fraction =>
      have taken : (c :: whole ++ '.' :: d :: fraction).takeWhile isDigit = c :: whole := by
        rw [List.takeWhile_append_of_pos wholes, List.takeWhile_cons_of_neg (by decide), List.append_nil]
      have left : (c :: whole ++ '.' :: d :: fraction).dropWhile isDigit = '.' :: d :: fraction := by
        rw [List.dropWhile_append_of_pos wholes, List.dropWhile_cons_of_neg (by decide)]
      have further : (d :: fraction).takeWhile isDigit = d :: fraction := List.takeWhile_eq_self_iff.mpr fractions
      have nothing : (d :: fraction).dropWhile isDigit = [] := List.dropWhile_eq_nil_iff.mpr fractions
      change Decimal.unsigned? (c :: whole ++ '.' :: d :: fraction) = _
      generalize c :: whole ++ '.' :: d :: fraction = text at taken left ⊢
      simp [Decimal.unsigned?, taken, left, further, nothing, Decimal.exponent?, Numeral.value]

end Stencil.Expr
