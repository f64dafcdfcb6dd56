import Stencil.Engine.Loop
import Stencil.Proofs.DigitText
import Stencil.Proofs.ExpressionPassage
import Stencil.Proofs.TextCuts

/-! The header of a counting loop, read back. Its parts are told apart as the expressions in it are written, but the
condition is cut at the first `<=` anywhere in it, and a keyword is taken off only together with a space. -/

namespace Stencil.Loop
open Text Argument

theorem word?_toString {n : Int} (word : Decimal.isWord n = true) : word? (toString n).toList = some n := by
  rw [word?, Decimal.integer?_toString, Option.filter_some, if_pos word]

def keywords : List (List Char) := ["let".toList, "var".toList, "const".toList]

/-- A keyword with blanks behind it. -/
structure Declaration where
  keyword : List Char
  blanks : List Char
  known : keyword ∈ keywords := by decide
  apart : blanks ≠ [] := by decide
  blank : blanks.all isBlank = true := by decide

/-- The ways to write how far a counter goes each time. -/
inductive Increase where
  | behind
  | before
  | added (step : Int)
  | summed (step : Int)
deriving Repr

namespace Increase

def step : Increase → Int
  | behind | before => 1
  | added step | summed step => step

def letters (name : List Char) : Increase → List Char
  | behind => name ++ ['+', '+']
  | before => ['+', '+'] ++ name
  | added step => name ++ ['+', '='] ++ (toString step).toList
  | summed step => name ++ ['='] ++ name ++ ['+'] ++ (toString step).toList

end Increase

/-- A header as it is meant, with blanks wherever there is room for them. -/
structure Header where
  ahead : List Char := []
  declaration : Option Declaration := none
  name : List Char
  /-- The blanks between the name and the equals sign. -/
  gap : List Char := []
  start : Int
  startSpacing : Spacing isBlank := {}
  nameSpacing : Spacing isBlank := {}
  inclusive : Bool
  limit : String
  limitSpacing : Spacing isBlank := {}
  increase : Increase
  /-- The increase, with blanks anywhere in it. -/
  increment : List Char
  blankAhead : ahead.all isBlank = true := by decide
  identifier : Expr.isIdentifier name = true
  blankGap : gap.all isBlank = true := by decide
  startFits : Decimal.isWord start = true
  parsed : (Expr.parse limit).isOk = true
  stepFits : Decimal.isWord increase.step = true
  spelled : increment.filter (fun c => !isBlank c) = increase.letters name

namespace Header
variable (header : Header)

def declared : List Char :=
  match header.declaration with
  | some declaration => declaration.keyword ++ declaration.blanks
  | none => []

def initial : List Char :=
  header.ahead ++ (header.declared ++ header.name ++ header.gap) ++
    '=' :: header.startSpacing.around (toString header.start).toList

def condition : List Char :=
  header.nameSpacing.around header.name ++
    '<' :: ((if header.inclusive then ['='] else []) ++ header.limitSpacing.around header.limit.toList)

def text : String :=
  String.ofList (header.initial ++ ';' :: (header.condition ++ ';' :: header.increment))

/-- The loop that the header stands for. -/
def counter : Counter where
  name := String.ofList header.name
  start := header.start
  limit := trimmed header.limit
  inclusive := header.inclusive
  step := header.increase.step

/-- The keyword ends with a space, and a name without a keyword is none that ends with a space. -/
def Declares : Prop :=
  match header.declaration with
  | some declaration => declaration.blanks.head? = some ' '
  | none => ¬ (header.name ∈ keywords ∧ header.gap.head? = some ' ')

/-- The first `<=` of the condition, if there is one, is the comparison. -/
def Compares : Prop := header.inclusive = true ∨ ¬ ['<', '='] <:+: header.limit.toList

instance : Decidable header.Declares := by
  unfold Declares
  split <;> infer_instance

instance : Decidable header.Compares := by
  unfold Compares
  infer_instance

theorem limit_parsed : ∃ whole, Expr.parse header.limit = .ok whole := by
  have parsed := header.parsed
  cases read : Expr.parse header.limit with
  | error _ => rw [read] at parsed; cases parsed
  | ok whole => exact ⟨whole, rfl⟩

/-! The parts between the semicolons. -/

theorem passes_integer (n : Int) : Passes ';' {} (toString n).toList {} := by
  refine passes_plain (List.all_eq_true.2 fun c mem => ?_)
  rcases Decimal.mem_toString mem with rfl | digit
  · rfl
  · exact Expr.plain_of_word (Expr.isNameChar_of_isDigit digit)

theorem word_of_keyword {keyword : List Char} (known : keyword ∈ keywords) :
    ∀ c ∈ keyword, Expr.isNameChar c = true := by
  simp only [keywords, List.mem_cons, List.not_mem_nil, or_false] at known
  rcases known with rfl | rfl | rfl <;> exact List.all_eq_true.1 rfl

theorem ne_nil_of_keyword {keyword : List Char} (known : keyword ∈ keywords) : keyword ≠ [] := by
  simp only [keywords, List.mem_cons, List.not_mem_nil, or_false] at known
  rcases known with rfl | rfl | rfl <;> decide

theorem name_ne_nil : header.name ≠ [] := by
  intro none
  have identifier := header.identifier
  rw [none] at identifier
  cases identifier

theorem passes_declared : Passes ';' {} header.declared {} := by
  unfold declared
  split
  next declaration _ =>
    exact (Expr.passes_word 0 (word_of_keyword declaration.known)).append
      (passes_blank (by decide) 0 (List.all_eq_true.1 declaration.blank))
  next => exact .nil _

theorem passes_name : Passes ';' {} header.name {} := Expr.passes_word 0 (Expr.word_of_identifier header.identifier)

theorem passes_initial : Passes ';' {} header.initial {} := by
  have sign : Passes ';' {} ['='] {} := passes_plain (by decide)
  have front := (header.passes_declared.append header.passes_name).append
    (passes_blank (by decide) 0 (List.all_eq_true.1 header.blankGap))
  have start := passes_around (by decide) header.startSpacing (passes_integer header.start)
  exact ((passes_blank (by decide) 0 (List.all_eq_true.1 header.blankAhead)).append front).append (sign.append start)

theorem passes_condition : Passes ';' {} header.condition {} := by
  obtain ⟨whole, parsed⟩ := header.limit_parsed
  have sign : Passes ';' {} ['<'] {} := passes_plain (by decide)
  have more : Passes ';' {} (if header.inclusive then ['='] else []) {} := by
    split <;> exact passes_plain (by decide)
  have limit := passes_around (by decide) header.limitSpacing (Expr.passes_parsed parsed)
  exact (passes_around (by decide) header.nameSpacing header.passes_name).append (sign.append (more.append limit))

/-- No sign of an increase is a semicolon or a bracket. -/
theorem plain_letters {name : List Char} (word : ∀ c ∈ name, Expr.isNameChar c = true) (increase : Increase) :
    (increase.letters name).all (fun c => !Position.isBracket c && c != ';') = true := by
  have inName : name.all (fun c => !Position.isBracket c && c != ';') = true :=
    List.all_eq_true.2 fun c mem => Expr.plain_of_word (word c mem)
  have inStep (step : Int) : (toString step).toList.all (fun c => !Position.isBracket c && c != ';') = true := by
    refine List.all_eq_true.2 fun c mem => ?_
    rcases Decimal.mem_toString mem with rfl | digit
    · rfl
    · exact Expr.plain_of_word (Expr.isNameChar_of_isDigit digit)
  cases increase with
  | behind =>
    rw [Increase.letters, List.all_append, inName]
    rfl
  | before =>
    rw [Increase.letters, List.all_append, inName]
    rfl
  | added step =>
    rw [Increase.letters, List.all_append, List.all_append, inName, inStep]
    rfl
  | summed step =>
    simp only [Increase.letters, List.all_append, inName, inStep]
    rfl

theorem passes_increment : Passes ';' {} header.increment {} := by
  refine passes_plain (List.all_eq_true.2 fun c mem => ?_)
  cases blank : isBlank c with
  | true =>
    have other : c ≠ ';' := by rintro rfl; cases blank
    simp [isBracket_of_isBlank blank, other]
  | false =>
    have visible : c ∈ header.increase.letters header.name := by
      rw [← header.spelled]
      exact List.mem_filter.2 ⟨mem, by simp [blank]⟩
    exact List.all_eq_true.1 (plain_letters (Expr.word_of_identifier header.identifier) header.increase) c visible

theorem split_three {initial condition increment : List Char} (first : Passes ';' {} initial {})
    (second : Passes ';' {} condition {}) (third : Passes ';' {} increment {}) :
    split ';' (initial ++ ';' :: (condition ++ ';' :: increment)) = [trim initial, trim condition, trim increment] := by
  have cut (rest : List Char) : pieces ';' {} (';' :: rest) = [] :: pieces ';' {} rest := rfl
  have last : pieces ';' {} increment = [increment] := by
    have := third.pieces []
    rw [List.append_nil] at this
    rw [this]
    simp [pieces]
  rw [split, first.pieces, cut, second.pieces, cut, last]
  simp

/-! The name, with or without a keyword. -/

theorem strip_word {keyword word : List Char} (known : ∀ c ∈ keyword, Expr.isNameChar c = true)
    (letters : ∀ c ∈ word, Expr.isNameChar c = true) {c : Char} (ends : Expr.isNameChar c = false) (rest : List Char) :
    stripPrefix? (keyword ++ [' ']) (word ++ c :: rest) = if word = keyword ∧ c = ' ' then some rest else none := by
  split
  next same =>
    obtain ⟨rfl, rfl⟩ := same
    exact stripPrefix?_eq_some.2 (by simp)
  next other =>
    cases strip : stripPrefix? (keyword ++ [' ']) (word ++ c :: rest) with
    | none => rfl
    | some behind =>
      have split : word ++ c :: rest = keyword ++ ' ' :: behind := by simpa using stripPrefix?_eq_some.1 strip
      have same := congrArg (List.takeWhile Expr.isNameChar) split
      rw [Decimal.takeWhile_append letters (Expr.Ends.cons ends rest),
        Decimal.takeWhile_append known (Expr.Ends.cons rfl behind)] at same
      rw [same, List.append_cancel_left_eq] at split
      exact absurd ⟨same, (List.cons.inj split).1⟩ other

theorem findSome?_words {word : List Char} (letters : ∀ c ∈ word, Expr.isNameChar c = true) {c : Char}
    (ends : Expr.isNameChar c = false) (rest : List Char) {words : List (List Char)}
    (known : ∀ keyword ∈ words, ∀ d ∈ keyword, Expr.isNameChar d = true) :
    (words.findSome? fun keyword => stripPrefix? (keyword ++ [' ']) (word ++ c :: rest)) =
      if word ∈ words ∧ c = ' ' then some rest else none := by
  induction words with
  | nil => simp
  | cons keyword words ih =>
    obtain ⟨here, others⟩ := List.forall_mem_cons.1 known
    rw [List.findSome?_cons, strip_word here letters ends, ih others]
    by_cases same : word = keyword ∧ c = ' '
    · simp [same]
    · rw [if_neg same]
      refine if_congr ?_ rfl rfl
      rw [List.mem_cons, or_and_right, or_iff_right same]

/-- A word is taken off with the space behind it if it is a keyword. -/
theorem withoutDeclaration_word {word : List Char} (letters : ∀ c ∈ word, Expr.isNameChar c = true) {c : Char}
    (ends : Expr.isNameChar c = false) (rest : List Char) :
    withoutDeclaration (word ++ c :: rest) = if word ∈ keywords ∧ c = ' ' then rest else word ++ c :: rest := by
  have spelled : declarations = keywords.map (· ++ [' ']) := by decide
  have found := findSome?_words letters ends rest fun keyword known => word_of_keyword known
  rw [withoutDeclaration, spelled, List.findSome?_map]
  change (keywords.findSome? fun keyword => stripPrefix? (keyword ++ [' ']) (word ++ c :: rest)).getD _ = _
  rw [found]
  split <;> rfl

theorem trim_name : trim header.name = header.name :=
  trim_visible fun c mem => Expr.isBlank_of_isNameChar (Expr.word_of_identifier header.identifier c mem)

/-- Only blanks and the characters of names stand here. -/
def Bare (text : List Char) : Prop := ∀ c ∈ text, isBlank c = true ∨ Expr.isNameChar c = true

theorem Bare.append {first second : List Char} (bare : Bare first) (bare' : Bare second) : Bare (first ++ second) :=
  List.forall_mem_append.2 ⟨bare, bare'⟩

theorem Bare.of_blank {text : List Char} (blank : text.all isBlank = true) : Bare text := fun c mem =>
  .inl (List.all_eq_true.1 blank c mem)

theorem Bare.of_word {text : List Char} (word : ∀ c ∈ text, Expr.isNameChar c = true) : Bare text := fun c mem =>
  .inr (word c mem)

theorem Bare.ne {text : List Char} (bare : Bare text) {sign : Char} (visible : isBlank sign = false)
    (other : Expr.isNameChar sign = false) : ∀ c ∈ text, c ≠ sign := by
  rintro c mem rfl
  rcases bare c mem with blank | word
  · simp [visible] at blank
  · simp [other] at word

theorem cut_bare {front : List Char} (bare : Bare front) (rest : List Char) :
    cutFirst? ['='] (front ++ '=' :: rest) = some (front, rest) := by
  have here : cutFirst? ['='] ('=' :: rest) = some ([], rest) := cutFirst?_here '=' [] rest
  rw [cutFirst?_fresh (bare.ne rfl rfl), here]
  simp

/-- A sign that is no part of a name stands in no identifier. -/
theorem not_identifier {text : List Char} {sign : Char} (mem : sign ∈ text) (other : Expr.isNameChar sign = false) :
    Expr.isIdentifier text = false := by
  cases identifier : Expr.isIdentifier text with
  | false => rfl
  | true => simp [Expr.word_of_identifier identifier sign mem] at other

theorem isNameChar_of_isBlank {c : Char} (blank : isBlank c = true) : Expr.isNameChar c = false := by
  cases word : Expr.isNameChar c with
  | false => rfl
  | true => simp [Expr.isBlank_of_isNameChar word] at blank

theorem trim_initial : trim header.initial = header.declared ++ header.name ++ header.gap ++
    '=' :: trimRight (header.startSpacing.around (toString header.start).toList) := by
  have first : ∀ c ∈ (header.declared ++ header.name ++ header.gap).head?, isBlank c = false := by
    intro c mem
    obtain ⟨d, others, name⟩ := List.exists_cons_of_ne_nil header.name_ne_nil
    have word : Expr.isNameChar c = true := by
      unfold declared at mem
      split at mem
      next declaration _ =>
        obtain ⟨d, others, keyword⟩ := List.exists_cons_of_ne_nil (ne_nil_of_keyword declaration.known)
        rw [keyword] at mem
        cases mem
        exact word_of_keyword declaration.known _ (keyword ▸ List.mem_cons_self)
      next =>
        rw [name] at mem
        cases mem
        exact Expr.word_of_identifier header.identifier _ (name ▸ List.mem_cons_self)
    exact Expr.isBlank_of_isNameChar word
  rw [initial, trim_sign _ rfl, trimLeft, List.dropWhile_append_of_pos (List.all_eq_true.1 header.blankAhead),
    dropWhile_eq_self first]

/-- Without a keyword the name stands in front of the equals sign, if it is not taken for a keyword. -/
theorem cut_named (start : List Char) :
    ∃ front, cutFirst? ['='] (withoutDeclaration (header.name ++ header.gap ++ '=' :: start)) = some (front, start) ∧
      (¬ (header.name ∈ keywords ∧ header.gap.head? = some ' ') → trim front = header.name) ∧
      (header.name ∈ keywords ∧ header.gap.head? = some ' ' → Expr.isIdentifier (trim front) = false) := by
  have word := Expr.word_of_identifier header.identifier
  have blank := List.all_eq_true.1 header.blankGap
  have bare : Bare (header.name ++ header.gap) := (Bare.of_word word).append (.of_blank header.blankGap)
  have named : trim (header.name ++ header.gap) = header.name := by rw [trim_append_blank _ blank, trim_name]
  cases gap : header.gap with
  | nil =>
    rw [gap] at bare named
    refine ⟨header.name ++ [], ?_, fun _ => named, fun taken => by cases taken.2⟩
    rw [List.append_assoc, List.nil_append, withoutDeclaration_word word rfl, if_neg (by simp)]
    simpa using cut_bare bare start
  | cons c others =>
    rw [gap] at bare named blank
    obtain ⟨here, further⟩ := List.forall_mem_cons.1 blank
    rw [List.append_assoc, List.cons_append, withoutDeclaration_word word (isNameChar_of_isBlank here)]
    by_cases taken : header.name ∈ keywords ∧ c = ' '
    · rw [if_pos taken]
      refine ⟨others, cut_bare (.of_blank (List.all_eq_true.2 further)) start, fun other => ?_, fun _ => ?_⟩
      · exact absurd ⟨taken.1, by rw [taken.2]; rfl⟩ other
      · have nothing : trim others = [] := by
          rw [← List.append_nil others, trim_blank_append further]
          rfl
        rw [nothing]
        rfl
    · rw [if_neg taken]
      refine ⟨header.name ++ c :: others, ?_, fun _ => named, fun same => ?_⟩
      · simpa using cut_bare bare start
      · exact absurd ⟨same.1, Option.some.inj same.2⟩ taken

theorem blank_between (declaration : Declaration) {c : Char} (mem : c ∈ declaration.blanks) :
    c ∈ trim (declaration.keyword ++ (declaration.blanks ++ (header.name ++ header.gap))) := by
  obtain ⟨first, keyword, spelled⟩ := List.exists_cons_of_ne_nil (ne_nil_of_keyword declaration.known)
  obtain ⟨last, name, named⟩ := List.exists_cons_of_ne_nil header.name_ne_nil
  -- The keyword in front and the name behind keep the blanks between them from being trimmed.
  have visible : isBlank first = false :=
    Expr.isBlank_of_isNameChar (word_of_keyword declaration.known _ (spelled ▸ List.mem_cons_self))
  have visible' : isBlank last = false :=
    Expr.isBlank_of_isNameChar (Expr.word_of_identifier header.identifier _ (named ▸ List.mem_cons_self))
  have shape : declaration.keyword ++ (declaration.blanks ++ (header.name ++ header.gap)) =
      (first :: keyword ++ declaration.blanks) ++ last :: (name ++ header.gap) := by
    rw [spelled, named]
    simp
  have front : ∀ d ∈ (first :: keyword ++ declaration.blanks).head?, isBlank d = false := by
    rintro _ ⟨⟩
    exact visible
  rw [shape, trim_sign _ visible', trimLeft, dropWhile_eq_self front]
  simp [mem]

/-- With a keyword the name stands there if a space stands behind the keyword. -/
theorem cut_declared (declaration : Declaration) (start : List Char) :
    ∃ front, cutFirst? ['='] (withoutDeclaration
        (declaration.keyword ++ declaration.blanks ++ header.name ++ header.gap ++ '=' :: start)) =
          some (front, start) ∧
      (declaration.blanks.head? = some ' ' → trim front = header.name) ∧
      (¬ declaration.blanks.head? = some ' ' → Expr.isIdentifier (trim front) = false) := by
  have letters := word_of_keyword declaration.known
  have bareName : Bare (header.name ++ header.gap) :=
    (Bare.of_word (Expr.word_of_identifier header.identifier)).append (.of_blank header.blankGap)
  have between (c : Char) := @blank_between header declaration c
  have blank := List.all_eq_true.1 declaration.blank
  obtain ⟨c, others, blanks⟩ := List.exists_cons_of_ne_nil declaration.apart
  rw [blanks] at blank between ⊢
  obtain ⟨here, further⟩ := List.forall_mem_cons.1 blank
  have text : declaration.keyword ++ c :: others ++ header.name ++ header.gap ++ '=' :: start =
      declaration.keyword ++ c :: (others ++ (header.name ++ header.gap) ++ '=' :: start) := by simp
  rw [text, withoutDeclaration_word letters (isNameChar_of_isBlank here)]
  by_cases space : c = ' '
  · subst space
    rw [if_pos ⟨declaration.known, rfl⟩]
    refine ⟨_, cut_bare (.append (.of_blank (List.all_eq_true.2 further)) bareName) start, fun _ => ?_, fun other => ?_⟩
    · rw [trim_blank_append further, trim_append_blank _ (List.all_eq_true.1 header.blankGap), trim_name]
    · exact absurd rfl other
  · rw [if_neg fun both => space both.2]
    have bare : Bare (declaration.keyword ++ (c :: others ++ (header.name ++ header.gap))) :=
      (Bare.of_word letters).append (.append (.of_blank (List.all_eq_true.2 blank)) bareName)
    refine ⟨_, by simpa using cut_bare bare start, fun same => absurd (Option.some.inj same) space, fun _ => ?_⟩
    exact not_identifier (between c List.mem_cons_self) (isNameChar_of_isBlank here)

/-- What stands in front of the equals sign is the name if the header declares it, and no name otherwise. -/
theorem cut_initial : ∃ front, cutFirst? ['='] (withoutDeclaration (trim header.initial)) =
      some (front, trimRight (header.startSpacing.around (toString header.start).toList)) ∧
    (header.Declares → trim front = header.name) ∧
    (¬ header.Declares → Expr.isIdentifier (trim front) = false) := by
  rw [trim_initial]
  cases keyword : header.declaration with
  | none =>
    obtain ⟨front, cut, named, other⟩ := header.cut_named _
    simp only [Declares, declared, keyword, not_not, List.nil_append]
    exact ⟨front, cut, named, other⟩
  | some declaration =>
    simp only [Declares, declared, keyword]
    exact header.cut_declared declaration _

/-! The comparison. -/

/-- Nothing of the limit makes a `<` in front of it a `<=`. -/
theorem limit_begins : ∃ c rest, trimRight (header.limitSpacing.around header.limit.toList) = c :: rest ∧ c ≠ '=' := by
  obtain ⟨whole, parsed⟩ := header.limit_parsed
  obtain ⟨spaces, c, tail, split, space, visible, other⟩ := Expr.parsed_first parsed
  have shape : header.limitSpacing.around header.limit.toList =
      (header.limitSpacing.before ++ spaces) ++ c :: (tail ++ header.limitSpacing.behind) := by
    simp [Spacing.around, split]
  rw [shape, trimRight_sign _ visible]
  cases front : header.limitSpacing.before ++ spaces with
  | nil => exact ⟨_, _, rfl, other⟩
  | cons d ahead =>
    have blank : ∀ d ∈ header.limitSpacing.before ++ spaces, isBlank d = true := List.forall_mem_append.2
      ⟨header.limitSpacing.holdsBefore, fun d mem => Expr.isBlank_of_isSpace (space d mem)⟩
    refine ⟨_, _, rfl, ?_⟩
    rintro rfl
    cases blank _ (front ▸ List.mem_cons_self)

theorem infix_limit : ['<', '='] <:+: trimRight (header.limitSpacing.around header.limit.toList) ↔
    ['<', '='] <:+: header.limit.toList := by
  obtain ⟨blanks, blank, split⟩ := trimRight_append (header.limitSpacing.around header.limit.toList)
  have visible : isBlank '=' = false := rfl
  calc ['<', '='] <:+: trimRight (header.limitSpacing.around header.limit.toList)
    _ ↔ ['<'] ++ ['='] <:+: header.limitSpacing.around header.limit.toList := by
      conv_rhs => rw [split, infix_append_blank visible blank]
      rfl
    _ ↔ ['<', '='] <:+: header.limitSpacing.before ++ header.limit.toList :=
      infix_append_blank visible header.limitSpacing.holdsBehind
    _ ↔ ['<', '='] <:+: header.limit.toList := infix_blank_append rfl header.limitSpacing.holdsBefore

theorem trim_condition : trim header.condition = trimLeft (header.nameSpacing.around header.name) ++
    '<' :: ((if header.inclusive then ['='] else []) ++
      trimRight (header.limitSpacing.around header.limit.toList)) := by
  rw [condition, trim_sign _ rfl]
  split
  · rw [List.singleton_append, trimRight_cons rfl]
    rfl
  · rfl

theorem bare_left : Bare (trimLeft (header.nameSpacing.around header.name)) := by
  have around : Bare (header.nameSpacing.around header.name) :=
    ((Bare.of_blank header.nameSpacing.allBefore).append (.of_word (Expr.word_of_identifier header.identifier))).append
      (.of_blank header.nameSpacing.allBehind)
  intro c mem
  exact around c ((List.dropWhile_sublist _).subset mem)

theorem trim_left : trim (trimLeft (header.nameSpacing.around header.name)) = header.name := by
  rw [trim_trimLeft, Spacing.trim_around, trim_name]

theorem trim_right : trim (trimRight (header.limitSpacing.around header.limit.toList)) = trim header.limit.toList := by
  rw [trim_trimRight, Spacing.trim_around]

theorem cut_inclusive (inclusive : header.inclusive = true) :
    ∃ left right, condition? (trim header.condition) = some (true, left, right) ∧
      trim left = header.name ∧ trim right = trim header.limit.toList := by
  have here (rest : List Char) : cutFirst? ['<', '='] ('<' :: (['='] ++ rest)) = some ([], rest) := cutFirst?_here ..
  rw [trim_condition, if_pos inclusive, condition?, cutFirst?_fresh (header.bare_left.ne rfl rfl), here]
  refine ⟨_, _, rfl, ?_, header.trim_right⟩
  rw [List.append_nil, trim_left]

/-- Behind a `<` a `<=` is looked for in the limit. -/
theorem cut_within (strict : header.inclusive = false) : cutFirst? ['<', '='] (trim header.condition) =
    (cutFirst? ['<', '='] (trimRight (header.limitSpacing.around header.limit.toList))).map fun (front, rest) =>
      (trimLeft (header.nameSpacing.around header.name) ++ '<' :: front, rest) := by
  obtain ⟨c, rest, begins, other⟩ := header.limit_begins
  have strip :
      stripPrefix? ['<', '='] ('<' :: trimRight (header.limitSpacing.around header.limit.toList)) = none := by
    rw [begins]
    simp [stripPrefix?, other.symm]
  rw [trim_condition, if_neg (by simp [strict]), List.nil_append, cutFirst?_fresh (header.bare_left.ne rfl rfl),
    cutFirst?, strip, Option.map_map]
  rfl

theorem cut_strict (strict : header.inclusive = false) (apart : ¬ ['<', '='] <:+: header.limit.toList) :
    ∃ left right, condition? (trim header.condition) = some (false, left, right) ∧
      trim left = header.name ∧ trim right = trim header.limit.toList := by
  have none : cutFirst? ['<', '='] (trim header.condition) = none := by
    rw [header.cut_within strict, cutFirst?_eq_none.2 (header.infix_limit.not.2 apart)]
    rfl
  have here (rest : List Char) : cutFirst? ['<'] ('<' :: rest) = some ([], rest) := cutFirst?_here '<' [] rest
  rw [condition?, none]
  dsimp only
  rw [trim_condition, if_neg (by simp [strict]), List.nil_append, cutFirst?_fresh (header.bare_left.ne rfl rfl), here]
  refine ⟨_, _, rfl, ?_, header.trim_right⟩
  dsimp only
  rw [List.append_nil, trim_left]

/-- The `<` is left on the side of the name. -/
theorem cut_inside (strict : header.inclusive = false) (inside : ['<', '='] <:+: header.limit.toList) :
    ∃ left right, condition? (trim header.condition) = some (true, left, right) ∧
      Expr.isIdentifier (trim left) = false := by
  have cut := header.cut_within strict
  cases found : cutFirst? ['<', '='] (trimRight (header.limitSpacing.around header.limit.toList)) with
  | none => exact absurd (header.infix_limit.2 inside) (cutFirst?_eq_none.1 found)
  | some sides =>
    have sign : '<' ∈ trim (trimLeft (header.nameSpacing.around header.name) ++ '<' :: sides.1) := by
      rw [trim_sign _ rfl]
      simp
    rw [condition?, cut, found]
    exact ⟨_, _, rfl, not_identifier sign rfl⟩

/-- What stands on the left of the comparison is the name if the header compares, and no name otherwise. -/
theorem cut_condition : ∃ left right, condition? (trim header.condition) =
      some (header.inclusive || !decide header.Compares, left, right) ∧
    (header.Compares → trim left = header.name ∧ trim right = trim header.limit.toList) ∧
    (¬ header.Compares → Expr.isIdentifier (trim left) = false) := by
  cases inclusive : header.inclusive with
  | true =>
    have compares : header.Compares := .inl inclusive
    obtain ⟨left, right, cut, sides⟩ := header.cut_inclusive inclusive
    exact ⟨left, right, cut, fun _ => sides, fun other => absurd compares other⟩
  | false =>
    by_cases inside : ['<', '='] <:+: header.limit.toList
    · have lost : ¬ header.Compares := by simp [Compares, inclusive, inside]
      obtain ⟨left, right, cut, other⟩ := header.cut_inside inclusive inside
      exact ⟨left, right, by simpa [lost] using cut, fun compares => absurd compares lost, fun _ => other⟩
    · have compares : header.Compares := .inr inside
      obtain ⟨left, right, cut, sides⟩ := header.cut_strict inclusive inside
      exact ⟨left, right, by simpa [compares] using cut, fun _ => sides, fun other => absurd compares other⟩

theorem trim_limit_ne_nil : trim header.limit.toList ≠ [] := by
  obtain ⟨whole, parsed⟩ := header.limit_parsed
  obtain ⟨spaces, c, tail, split, -, visible, -⟩ := Expr.parsed_first parsed
  rw [split, trim_sign _ visible]
  simp

theorem increment_read : increment? header.name (trim header.increment) = some header.increase.step := by
  have stepped := word?_toString header.stepFits
  obtain ⟨c, others, name⟩ := List.exists_cons_of_ne_nil header.name_ne_nil
  have sign : c ≠ '+' := by
    rintro rfl
    cases Expr.word_of_identifier header.identifier _ (name ▸ List.mem_cons_self)
  rw [increment?]
  simp only [filter_trim, header.spelled]
  cases kind : header.increase with
  | behind => simp [Increase.letters, Increase.step]
  | before => simp [Increase.letters, Increase.step]
  | added step =>
    rw [kind] at stepped
    have strip : stripPrefix? (header.name ++ ['+', '=']) ((Increase.added step).letters header.name) =
        some (toString step).toList := stripPrefix?_eq_some.2 rfl
    rw [if_neg (by simp [Increase.letters, name, sign]), strip]
    exact stepped
  | summed step =>
    rw [kind] at stepped
    have other : stripPrefix? (header.name ++ ['+', '=']) ((Increase.summed step).letters header.name) = none := by
      cases strip : stripPrefix? (header.name ++ ['+', '=']) ((Increase.summed step).letters header.name) with
      | none => rfl
      | some rest =>
        have split := stripPrefix?_eq_some.1 strip
        simp [Increase.letters] at split
    have strip : stripPrefix? (header.name ++ ['='] ++ header.name ++ ['+'])
        ((Increase.summed step).letters header.name) = some (toString step).toList := stripPrefix?_eq_some.2 rfl
    rw [if_neg (by simp [Increase.letters, name, sign]), other, strip]
    exact stepped

/-- A header is read as what it is meant to be, or as no header at all. -/
theorem header_is_read : Counter.ofArgs? header.text =
    if header.Declares ∧ header.Compares then some header.counter else none := by
  obtain ⟨front, initial, named, unnamed⟩ := header.cut_initial
  obtain ⟨left, right, condition, compared, apart⟩ := header.cut_condition
  have start : word? (trim (trimRight (header.startSpacing.around (toString header.start).toList))) =
      some header.start := by
    have visible : ∀ c ∈ (toString header.start).toList, isBlank c = false := by
      intro c mem
      rcases Decimal.mem_toString mem with rfl | digit
      · rfl
      · exact Expr.isBlank_of_isNameChar (Expr.isNameChar_of_isDigit digit)
    rw [trim_trimRight, Spacing.trim_around, trim_visible visible, word?_toString header.startFits]
  rw [Counter.ofArgs?, text, String.toList_ofList,
    split_three header.passes_initial header.passes_condition header.passes_increment]
  simp only [initial, condition, start, Option.bind_eq_bind, Option.bind_some]
  by_cases declares : header.Declares
  · by_cases compares : header.Compares
    · simp [declares, compares, named, compared, header.identifier, trim_limit_ne_nil, increment_read, counter, trimmed]
    · have other : trim left ≠ header.name := by
        intro same
        have identifier := header.identifier
        rw [← same, apart compares] at identifier
        cases identifier
      simp [declares, compares, named, other]
  · simp [declares, unnamed declares]

theorem blank_space : [' '].all isBlank = true := rfl

theorem blank_nothing : [].all isBlank = true := rfl

def space : Spacing isBlank := ⟨[' '], [], blank_space, blank_nothing⟩

def spaces : Spacing isBlank := ⟨[' '], [' '], blank_space, blank_space⟩

/-- `let i = 0; i < x['a;b'].length; i++` -/
def keyed : Header where
  declaration := some { keyword := "let".toList, blanks := [' '] }
  name := ['i']
  gap := [' ']
  start := 0
  startSpacing := space
  nameSpacing := spaces
  inclusive := false
  limit := "x['a;b'].length"
  limitSpacing := space
  increase := .behind
  increment := " i++".toList
  identifier := rfl
  startFits := rfl
  parsed := by decide +kernel
  stepFits := rfl
  spelled := rfl

/-- No semicolon of the limit ends the condition. -/
theorem keyed_is_read : Counter.ofArgs? "let i = 0; i < x['a;b'].length; i++" =
    some ⟨"i", 0, "x['a;b'].length", false, 1⟩ := by
  have read := keyed.header_is_read
  rwa [if_pos ⟨rfl, .inr (by decide)⟩] at read

/-- `i = 0; i < 'a<=b'.length; i++` -/
def quoted : Header where
  name := ['i']
  gap := [' ']
  start := 0
  startSpacing := space
  nameSpacing := spaces
  inclusive := false
  limit := "'a<=b'.length"
  limitSpacing := space
  increase := .behind
  increment := " i++".toList
  identifier := rfl
  startFits := rfl
  parsed := by decide +kernel
  stepFits := rfl
  spelled := rfl

/-- The condition is cut inside the quotation. -/
theorem quoted_is_lost : quoted.text = "i = 0; i < 'a<=b'.length; i++" ∧
    quoted.counter = ⟨"i", 0, "'a<=b'.length", false, 1⟩ ∧ Counter.ofArgs? quoted.text = none :=
  ⟨by decide, by decide, by decide +kernel⟩

end Header
end Stencil.Loop
