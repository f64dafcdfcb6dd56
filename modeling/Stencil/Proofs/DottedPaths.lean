import Stencil.Proofs.InterpolatedExpression
import Stencil.Proofs.WholeNumbers

/-! Paths into the data: a variable, and from its value on one step after the other, by a name or by a position. Between
brackets every step is read by itself. Behind dots so is every step but two positions in a row, whose digits are read
as one numeral with a fraction. -/

namespace Stencil

namespace Value

/-- What goes by a name in a value: the field of an object, the length of an array or a text. -/
def named? (name : String) : Value → Option Value
  | .object fields => Fields.find? fields name
  | .array items => if name = "length" then some (.ofNat items.length) else none
  | .string text | .safe text => if name = "length" then some (.ofNat text.length) else none
  | _ => none

/-- What is at a position in a value, counted from zero. The fields of an object have names, and positions past 64 bits
all mean the last one. -/
def at? (position : Nat) : Value → Option Value
  | .array items => items[position]?
  | .string text | .safe text => text.toList[position]?.map fun c => .string (String.singleton c)
  | .object fields => Fields.find? fields (toString (min position Decimal.greatestUnsigned))
  | _ => none

end Value

namespace Expr
open Decimal Text

/-- The position that a numeral means, if its value is a whole number. -/
def Numeral.position? (numeral : Numeral) : Option Nat :=
  match whole? numeral.value with
  | some (.ofNat n) => some n
  | _ => none

/-- Digits alone mean the number that they spell, as long as it has room in the significand of a number. -/
theorem Numeral.position?_digits {numeral : Numeral} (whole : numeral.fraction = [])
    (small : natOfDigits numeral.whole < 2 ^ 53) : numeral.position? = some (natOfDigits numeral.whole) := by
  have value : numeral.value = nearest (natOfDigits numeral.whole) 0 := by
    rw [Numeral.value, whole, List.append_nil]
    rfl
  rw [position?, value, whole?_nearest small]

inductive Step where
  | key (name : Name)
  | index (numeral : Numeral)

/-- The two ways to write a step. -/
inductive Style where
  | dots
  | brackets

namespace Step

def find? : Step → Value → Option Value
  | .key name, value => value.named? name.text
  | .index numeral, value => numeral.position?.bind fun position => value.at? position

def spelling : Style → Step → List Char
  | .dots, .key name => '.' :: name.text.toList
  | .dots, .index numeral => '.' :: numeral.spelling
  | .brackets, .key name => '[' :: '\'' :: (name.text.toList ++ ['\'', ']'])
  | .brackets, .index numeral => '[' :: (numeral.spelling ++ [']'])

def tokens : Style → Step → List Token
  | .dots, .key name => [.mark .dot, .ident name.text]
  | .dots, .index numeral => [.mark .dot, .number numeral.value]
  | .brackets, .key name => [.mark .bracketOpen, .string name.text, .mark .bracketClose]
  | .brackets, .index numeral => [.mark .bracketOpen, .number numeral.value, .mark .bracketClose]

/-- The expression with the step behind it. -/
def wrap : Style → Expr → Step → Expr
  | .dots, object, .key name => .member object name.text
  | .brackets, object, .key name => .index object (.literal (.string name.text))
  | _, object, .index numeral => .index object (.literal (.number numeral.value))

end Step

/-- A variable and the steps from its value on. -/
structure Path where
  root : Name
  steps : List Step

namespace Path

def text (style : Style) (path : Path) : String :=
  String.ofList (path.root.text.toList ++ path.steps.flatMap (Step.spelling style))

/-- What the steps lead to, one after another. -/
def find? (path : Path) (scope : Scope) : Option Value :=
  (scope.get? path.root.text).bind fun value => path.steps.foldlM (fun value step => step.find? value) value

/-- Null as soon as a step leads nowhere. -/
def lookup (path : Path) (scope : Scope) : Value := (path.find? scope).getD .null

end Path

/-! Evaluating a path takes its steps. -/

/-- A name begins with a letter or with a sign that can stand in for one. -/
theorem Name.begins (name : Name) : ∃ c rest, name.text.toList = c :: rest ∧ isNameStart c = true := by
  have identifier := name.isIdentifier
  cases letters : name.text.toList with
  | nil => rw [letters] at identifier; cases identifier
  | cons c rest =>
    rw [letters] at identifier
    exact ⟨c, rest, rfl, (Bool.and_eq_true_iff.1 identifier).1⟩

/-- A name begins like no numeral, and the words that stand for numbers stand for no position. -/
theorem whole?_of_name (name : Name) {value : Float} (read : float? name.text.toList = some value) :
    whole? value = none := by
  obtain ⟨c, rest, letters, start⟩ := name.begins
  rw [letters] at read
  have digit := not_digit start
  have noMinus : c ≠ '-' := by rintro rfl; cases start
  have noPlus : c ≠ '+' := by rintro rfl; cases start
  have noPoint : c ≠ '.' := by rintro rfl; cases start
  have unsigned : unsigned? (c :: rest) = none := by simp [unsigned?, digit, noPoint]
  have infinite : whole? (1 / 0) = none := by decide +kernel
  have undefined : whole? (0 / 0) = none := by decide +kernel
  unfold float? at read
  split at read
  next minus => exact absurd (List.cons.inj minus).1 noMinus
  next plus => exact absurd (List.cons.inj plus).1 noPlus
  next =>
    dsimp only at read
    split at read
    · cases read
      exact infinite
    · split at read
      · cases read
        exact undefined
      · rw [unsigned] at read
        cases read

theorem memberOf_name (name : Name) (value : Value) :
    memberOf value name.text = (value.named? name.text).getD .null := by
  cases value with
  | array items =>
    by_cases length : name.text = "length"
    · simp [memberOf, Value.named?, length]
    · cases read : float? name.text.toList with
      | none => simp [memberOf, Value.named?, length, read]
      | some position => simp [memberOf, Value.named?, length, read, element, whole?_of_name name read]
  | string text | safe text => by_cases length : name.text = "length" <;> simp [memberOf, Value.named?, length]
  | _ => rfl

theorem elementAt_position (value : Value) (position : Nat) :
    elementAt value position = (value.at? position).getD .null := by
  cases value with
  | string text | safe text => cases found : text.toList[position]? <;> simp [elementAt, Value.at?, found]
  | _ => rfl

theorem element_numeral (numeral : Numeral) (value : Value) :
    element value numeral.value = (Step.find? (.index numeral) value).getD .null := by
  change element value numeral.value = (numeral.position?.bind fun position => value.at? position).getD .null
  unfold element Numeral.position?
  cases whole? numeral.value with
  | none => rfl
  | some n =>
    cases n with
    | ofNat position => exact elementAt_position value position
    | negSucc => rfl

theorem indexed_string (value : Value) (name : String) : indexed value (.string name) = memberOf value name := by
  cases value <;> rfl

theorem indexed_number (value : Value) (position : Float) :
    indexed value (.number position) = element value position := by
  cases value with
  | null =>
    unfold indexed element
    cases whole? position with
    | none => rfl
    | some n => cases n <;> rfl
  | _ => rfl

namespace Step

/-- Both ways to write a step take it from the value in front. -/
theorem eval_wrap (style : Style) (scope : Scope) (object : Expr) (step : Step) :
    (step.wrap style object).eval scope = (step.find? (object.eval scope)).getD .null := by
  cases step with
  | key name =>
    cases style with
    | dots => exact memberOf_name name _
    | brackets => exact (indexed_string _ _).trans (memberOf_name name _)
  | index numeral => cases style <;> exact (indexed_number _ _).trans (element_numeral numeral _)

/-- Nothing is found in null, so once a step has led nowhere the value stays null. -/
theorem find?_null (step : Step) : step.find? .null = none := by
  cases step with
  | key name => rfl
  | index numeral => cases found : numeral.position? <;> simp [find?, found, Value.at?]

theorem eval_foldl_wrap (style : Style) (scope : Scope) (steps : List Step) {object : Expr} {found : Option Value}
    (value : object.eval scope = found.getD .null) : (steps.foldl (wrap style) object).eval scope =
      (found.bind fun value => steps.foldlM (fun value step => step.find? value) value).getD .null := by
  induction steps generalizing object found with
  | nil => cases found <;> exact value
  | cons step steps ih =>
    have next : (step.wrap style object).eval scope = (found.bind step.find?).getD .null := by
      rw [eval_wrap, value]
      cases found with
      | none => rw [Option.getD_none, find?_null]; rfl
      | some value => rfl
    rw [List.foldl_cons, ih next]
    cases found <;> rfl

theorem derives_wrap (style : Style) (step : Step) {tokens : List Token} {object : Expr}
    (derives : Derives Phrase.accessLevel tokens object) :
    Derives Phrase.accessLevel (tokens ++ step.tokens style) (step.wrap style object) := by
  have inside {token : Token} {key : Expr} (single : Derives Phrase.accessLevel [token] key) :
      Derives Phrase.accessLevel (tokens ++ [.mark .bracketOpen, token, .mark .bracketClose]) (.index object key) := by
    have indexed := derives.index (single.weaken (Nat.zero_le _))
    rwa [List.append_assoc] at indexed
  cases step with
  | key name =>
    cases style with
    | dots => exact derives.member name.text
    | brackets => exact inside (.string name.text)
  | index numeral =>
    cases style with
    | dots => exact derives.position numeral.value
    | brackets => exact inside (.number numeral.value)

theorem derives_foldl (style : Style) (steps : List Step) {tokens : List Token} {object : Expr}
    (derives : Derives Phrase.accessLevel tokens object) :
    Derives Phrase.accessLevel (tokens ++ steps.flatMap (Step.tokens style)) (steps.foldl (wrap style) object) := by
  induction steps generalizing tokens object with
  | nil => rwa [List.flatMap_nil, List.append_nil]
  | cons step steps ih =>
    rw [List.flatMap_cons, ← List.append_assoc, List.foldl_cons]
    exact ih (step.derives_wrap style derives)

/-- No step leaves a bracket open, so paths of any length stay below the cap. -/
theorem fits_steps (style : Style) (steps : List Step) :
    Nesting.fits {} (steps.flatMap (Step.tokens style)) = true := by
  induction steps with
  | nil => rfl
  | cons step steps ih =>
    rw [List.flatMap_cons]
    cases step <;> cases style <;> exact ih

end Step

/-! The tokens of a path. -/

/-- Wherever the text starts, it is cut into these tokens. -/
def CutInto (text : List Char) (tokens : List Token) : Prop :=
  ∀ start, ∃ located, lexFrom start text = .ok located ∧ located.map Located.value = tokens

namespace CutInto

theorem nil : CutInto [] [] := fun start => ⟨[], lexFrom_nil start, rfl⟩

theorem cons {spelling rest : List Char} {token : Token} {tokens : List Token} (starts : Starts spelling rest token)
    (behind : CutInto rest tokens) : CutInto (spelling ++ rest) (token :: tokens) := by
  intro start
  obtain ⟨located, lexed, same⟩ := behind (start + Text.byteLength spelling)
  refine ⟨_, by rw [lexFrom_starts starts, lexed]; rfl, ?_⟩
  rw [List.map_cons, same]

end CutInto

theorem starts_dot (rest : List Char) : Starts ['.'] rest (.mark .dot) := ⟨'.', [], rfl, rfl, rfl⟩

theorem starts_open (rest : List Char) : Starts ['['] rest (.mark .bracketOpen) := ⟨'[', [], rfl, rfl, rfl⟩

theorem starts_close (rest : List Char) : Starts [']'] rest (.mark .bracketClose) := ⟨']', [], rfl, rfl, rfl⟩

/-- A name needs no backslash between quotes. -/
def Name.quoted (name : Name) : Quotation where
  quote := .single
  written := name.text.toList
  text := name.text
  between := by
    have word := word_of_identifier name.isIdentifier
    generalize name.text.toList = letters at word ⊢
    induction letters with
    | nil => exact .nil
    | cons c letters ih =>
      obtain ⟨here, others⟩ := List.forall_mem_cons.1 word
      exact .plain (by rintro rfl; cases here) (by rintro rfl; cases here) (ih others)

namespace Step

/-- What every step begins with. -/
def mark : Style → Char
  | .dots => '.'
  | .brackets => '['

theorem spelling_cons (style : Style) (step : Step) : ∃ tail, step.spelling style = mark style :: tail := by
  cases step <;> cases style <;> exact ⟨_, rfl⟩

/-- Behind a step or the variable there is nothing, or the mark of the next step. -/
theorem flatMap_spelling (style : Style) (steps : List Step) : steps.flatMap (spelling style) = [] ∨
    ∃ tail, steps.flatMap (spelling style) = mark style :: tail := by
  cases steps with
  | nil => exact .inl rfl
  | cons step steps =>
    obtain ⟨tail, begins⟩ := step.spelling_cons style
    exact .inr ⟨tail ++ steps.flatMap (spelling style), by rw [List.flatMap_cons, begins, List.cons_append]⟩

theorem takeWhile_steps (style : Style) (steps : List Step) {holds : Char → Bool} (stops : holds (mark style) = false) :
    (steps.flatMap (spelling style)).takeWhile holds = [] := by
  rcases flatMap_spelling style steps with none | ⟨tail, some⟩
  · rw [none]; rfl
  · rw [some, List.takeWhile_cons_of_neg (by simp [stops])]

theorem starts_root (style : Style) (root : Name) (steps : List Step) :
    Starts root.text.toList (steps.flatMap (spelling style)) (.ident root.text) := by
  rw [← root.wordToken]
  exact starts_name root.isIdentifier (takeWhile_steps style steps (by cases style <;> rfl))

theorem cut_brackets (steps : List Step) :
    CutInto (steps.flatMap (spelling .brackets)) (steps.flatMap (tokens .brackets)) := by
  induction steps with
  | nil => exact .nil
  | cons step steps ih =>
    have closed := CutInto.cons (starts_close _) ih
    cases step with
    | key name =>
      have quoted := closed.cons (name.quoted.starts _)
      have opened := quoted.cons (starts_open _)
      simpa [spelling, tokens, Quotation.letters, Name.quoted, Quoted.Quote.char] using opened
    | index numeral =>
      have numbered := closed.cons (numeral.starts ⟨rfl, fun _ => rfl⟩)
      have opened := numbered.cons (starts_open _)
      simpa [spelling, tokens] using opened

/-- Whether the second step leaves the first one alone: behind digits without a fraction, a dot and further digits would
be one. -/
def Apart : Step → Step → Prop
  | .index first, .index _ => first.fraction ≠ []
  | _, _ => True

theorem ends_of_apart {numeral : Numeral} {steps : List Step} (apart : (Step.index numeral :: steps).IsChain Apart) :
    numeral.Ends (steps.flatMap (spelling .dots)) where
  digits := takeWhile_steps .dots steps rfl
  point none := by
    cases steps with
    | nil => rfl
    | cons step steps =>
      cases step with
      | index => exact absurd none (List.isChain_cons_cons.1 apart).1
      | key name =>
        obtain ⟨c, rest, letters, start⟩ := name.begins
        rw [List.flatMap_cons]
        change ((name.text.toList ++ _).takeWhile isDigit) = []
        rw [letters]
        exact List.takeWhile_cons_of_neg (by simp [not_digit start])

theorem cut_dots {steps : List Step} (apart : steps.IsChain Apart) :
    CutInto (steps.flatMap (spelling .dots)) (steps.flatMap (tokens .dots)) := by
  induction steps with
  | nil => exact .nil
  | cons step steps ih =>
    have behind := ih apart.tail
    cases step with
    | key name =>
      have named := starts_name name.isIdentifier (takeWhile_steps .dots steps rfl)
      rw [name.wordToken] at named
      have dotted := (behind.cons named).cons (starts_dot _)
      simpa [spelling, tokens] using dotted
    | index numeral =>
      have dotted := (behind.cons (numeral.starts (ends_of_apart apart))).cons (starts_dot _)
      simpa [spelling, tokens] using dotted

end Step

namespace Path

theorem parse_path {style : Style} {path : Path}
    (cut : CutInto (path.steps.flatMap (Step.spelling style)) (path.steps.flatMap (Step.tokens style))) :
    parse (path.text style) = .ok (path.steps.foldl (Step.wrap style) (.variable path.root.text)) := by
  obtain ⟨located, lexed, tokens⟩ := cut.cons (Step.starts_root style path.root path.steps) 0
  have fits : Nesting.fits {} (located.map Located.value) = true := by
    rw [tokens]
    exact Step.fits_steps style path.steps
  have derives := Step.derives_foldl style path.steps (.variable path.root.text)
  refine parse_of_fits (by rw [lex, text, String.toList_ofList]; exact lexed) fits ?_
  rw [tokens]
  exact derives.weaken (Nat.zero_le _)

/-- A path that is cut where it was put together means the value that its steps lead to. -/
theorem evaluate_text {style : Style} {path : Path}
    (cut : CutInto (path.steps.flatMap (Step.spelling style)) (path.steps.flatMap (Step.tokens style))) (scope : Scope)
    (evaluator : Evaluator) : (Evaluator.evaluate scope (path.text style) evaluator).1 = path.lookup scope := by
  rw [Evaluator.evaluate_fst, Scope.value_of_parse (parse_trimmed (parse_path cut))]
  exact Step.eval_foldl_wrap style scope path.steps rfl

end Path

/-! Two positions in a row, both whole numbers, are one numeral behind dots. -/

/-- The numeral that two make with a point between them. -/
def Numeral.pointed (first second : Numeral) : Numeral where
  whole := first.whole
  fraction := second.whole
  digits c inside := by
    rcases List.mem_append.1 inside with inside | inside
    · exact first.digits c (List.mem_append_left _ inside)
    · exact second.digits c (List.mem_append_left _ inside)
  nonempty := first.nonempty

theorem Numeral.spelling_pointed {first second : Numeral} (one : first.fraction = []) (two : second.fraction = []) :
    (first.pointed second).spelling = first.spelling ++ '.' :: second.spelling := by
  have digits : second.whole.isEmpty = false := List.isEmpty_eq_false_iff.2 second.nonempty
  simp [spelling, pointed, one, two, digits]

namespace Step

def IsWhole : Step → Prop
  | .key _ => True
  | .index numeral => numeral.fraction = []

/-- The steps that are read where these stand behind dots, if every position is a whole number. -/
def joined : List Step → List Step
  | .index first :: .index second :: steps => .index (first.pointed second) :: joined steps
  | step :: steps => step :: joined steps
  | [] => []

theorem spelling_joined {steps : List Step} (whole : ∀ step ∈ steps, step.IsWhole) :
    (joined steps).flatMap (spelling .dots) = steps.flatMap (spelling .dots) := by
  fun_induction joined steps with
  | case1 first second steps ih =>
    obtain ⟨one, two, others⟩ := by simpa only [List.forall_mem_cons] using whole
    have numeral := Numeral.spelling_pointed one two
    simp [ih others, spelling, numeral]
  | case2 step steps _ ih => rw [List.flatMap_cons, List.flatMap_cons, ih (List.forall_mem_cons.1 whole).2]
  | case3 => rfl

/-- A position comes first only where one came first before. -/
theorem head_joined {steps : List Step} {numeral : Numeral} (head : (joined steps).head? = some (.index numeral)) :
    ∃ first, steps.head? = some (.index first) := by
  match steps with
  | [] => cases head
  | .key name :: steps => cases head
  | .index first :: steps => exact ⟨first, rfl⟩

theorem apart_joined (steps : List Step) : (joined steps).IsChain Apart := by
  fun_induction joined steps with
  | case1 first second steps ih =>
    refine List.isChain_cons.2 ⟨fun step _ => ?_, ih⟩
    cases step with
    | key => trivial
    | index => exact second.nonempty
  | case2 step steps alone ih =>
    refine List.isChain_cons.2 ⟨fun next head => ?_, ih⟩
    cases step with
    | key => trivial
    | index numeral =>
      cases next with
      | key => trivial
      | index =>
        obtain ⟨first, follows⟩ := head_joined head
        obtain ⟨others, rfl⟩ := List.head?_eq_some_iff.1 follows
        exact absurd rfl (alone numeral first others rfl)
  | case3 => exact .nil

end Step

namespace Path

/-- The path that is read where this one stands behind dots, if every position is a whole number. -/
def joined (path : Path) : Path := { path with steps := Step.joined path.steps }

theorem text_joined {path : Path} (whole : ∀ step ∈ path.steps, step.IsWhole) :
    path.joined.text .dots = path.text .dots := by
  rw [text, text, joined, Step.spelling_joined whole]

/-- What a path means in either spelling. -/
structure IsLookedUp (path : Path) : Prop where
  /-- Between brackets, what its steps lead to. -/
  brackets : ∀ (scope : Scope) (evaluator : Evaluator),
    (Evaluator.evaluate scope (path.text .brackets) evaluator).1 = path.lookup scope
  /-- Behind dots as well, as long as no position follows on a whole one. -/
  dots : path.steps.IsChain Step.Apart → ∀ (scope : Scope) (evaluator : Evaluator),
    (Evaluator.evaluate scope (path.text .dots) evaluator).1 = path.lookup scope
  /-- Two whole positions in a row are looked up as the one numeral that they make with the dot between them. -/
  joins : (∀ step ∈ path.steps, step.IsWhole) → ∀ (scope : Scope) (evaluator : Evaluator),
    (Evaluator.evaluate scope (path.text .dots) evaluator).1 = path.joined.lookup scope
  /-- Digits are the position that they spell, as long as it has room in the significand of a number. -/
  positions : ∀ numeral, .index numeral ∈ path.steps → numeral.fraction = [] → natOfDigits numeral.whole < 2 ^ 53 →
    ∀ value, (Step.index numeral).find? value = value.at? (natOfDigits numeral.whole)

theorem isLookedUp (path : Path) : path.IsLookedUp where
  brackets := evaluate_text (Step.cut_brackets path.steps)
  dots apart := evaluate_text (Step.cut_dots apart)
  joins whole := by
    rw [← text_joined whole]
    exact evaluate_text (Step.cut_dots (Step.apart_joined path.steps))
  positions numeral _ whole small value := by rw [Step.find?, Numeral.position?_digits whole small, Option.bind_some]

def zero : Numeral := ⟨['0'], [], by simp [isDigit], nofun⟩

def one : Numeral := ⟨['1'], [], by simp [isDigit], nofun⟩

/-- The second cell of the first row. -/
def cell : Path := ⟨⟨"rows", by decide, by simp [literalWords]⟩, [.index zero, .index one]⟩

/-- A single row of two cells. -/
def table : Scope := .root [("rows", .array [.array [.string "a", .string "b"]])]

/-- Between brackets the cell is found. With dots it is the numeral `0.1` that is looked up. -/
theorem cell_is_missed : (∀ step ∈ cell.steps, step.IsWhole) ∧
    cell.text .brackets = "rows[0][1]" ∧ cell.text .dots = "rows.0.1" ∧ cell.lookup table = .string "b" ∧
    (Evaluator.evaluate table (cell.text .brackets) .empty).1 = .string "b" ∧
    (Evaluator.evaluate table (cell.text .dots) .empty).1 = .null := by
  have whole : ∀ step ∈ cell.steps, step.IsWhole := by simp [cell, zero, one, Step.IsWhole]
  have first : zero.position? = some 0 := by decide +kernel
  have second : one.position? = some 1 := by decide +kernel
  have tenth : (zero.pointed one).position? = none := by decide +kernel
  have rows : table.get? "rows" = some (.array [.array [.string "a", .string "b"]]) := rfl
  have found : cell.lookup table = .string "b" := by
    simp [lookup, Path.find?, cell, rows, Step.find?, first, second, Value.at?]
  have lost : cell.joined.lookup table = .null := by
    simp [lookup, Path.find?, cell, joined, Step.joined, rows, Step.find?, tenth]
  have brackets := evaluate_text (Step.cut_brackets cell.steps) table .empty
  have dots := @evaluate_text .dots cell.joined (Step.cut_dots (Step.apart_joined _)) table .empty
  refine ⟨whole, by decide, by decide, found, brackets.trans found, ?_⟩
  rw [← text_joined whole]
  exact dots.trans lost

end Path

end Expr
end Stencil
