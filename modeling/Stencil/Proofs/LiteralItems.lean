import Stencil.Proofs.ExpressionNesting
import Stencil.Proofs.QuotedLiterals

/-! Literal data without braces: null, truths, texts between quotes, and arrays of these with spaces wherever the
tokens leave room. The scans for commas and colons pass over such an item, and read as an expression it has its value
whatever the variables are. -/

namespace Stencil

namespace Text

/-- Blanks, or what else there is room for, on either side of a text. -/
structure Spacing (holds : Char → Bool) where
  before : List Char := []
  behind : List Char := []
  allBefore : before.all holds = true := by rfl
  allBehind : behind.all holds = true := by rfl

namespace Spacing
variable {holds : Char → Bool}

def around (spacing : Spacing holds) (text : List Char) : List Char := spacing.before ++ text ++ spacing.behind

theorem holdsBefore (spacing : Spacing holds) : ∀ c ∈ spacing.before, holds c = true :=
  List.all_eq_true.1 spacing.allBefore

theorem holdsBehind (spacing : Spacing holds) : ∀ c ∈ spacing.behind, holds c = true :=
  List.all_eq_true.1 spacing.allBehind

end Spacing

/-- Neither end of the text is blank. -/
structure Trimmed (text : List Char) : Prop where
  first : ∀ c ∈ text.head?, isBlank c = false
  last : ∀ c ∈ text.getLast?, isBlank c = false

theorem dropWhile_eq_self {holds : Char → Bool} {text : List Char} (first : ∀ c ∈ text.head?, holds c = false) :
    text.dropWhile holds = text := by
  cases text with
  | nil => rfl
  | cons c text => rw [List.dropWhile_cons_of_neg (by simp [first c rfl])]

theorem Trimmed.trim {text : List Char} (trimmed : Trimmed text) : Text.trim text = text := by
  have last : ∀ c ∈ text.reverse.head?, isBlank c = false := by
    rw [List.head?_reverse]
    exact trimmed.last
  rw [Text.trim, trimLeft, dropWhile_eq_self trimmed.first, trimRight, dropWhile_eq_self last, List.reverse_reverse]

theorem trim_blank_append {blanks : List Char} (blank : ∀ c ∈ blanks, isBlank c = true) (text : List Char) :
    trim (blanks ++ text) = trim text := by
  rw [trim, trimLeft, List.dropWhile_append_of_pos blank]
  rfl

theorem trimRight_append_blank (text : List Char) {blanks : List Char} (blank : ∀ c ∈ blanks, isBlank c = true) :
    trimRight (text ++ blanks) = trimRight text := by
  rw [trimRight, trimRight, List.reverse_append,
    List.dropWhile_append_of_pos fun c mem => blank c (List.mem_reverse.1 mem)]

theorem trim_append_blank (text : List Char) {blanks : List Char} (blank : ∀ c ∈ blanks, isBlank c = true) :
    trim (text ++ blanks) = trim text := by
  have nothing : blanks.dropWhile isBlank = [] := by
    rw [← List.append_nil blanks, List.dropWhile_append_of_pos blank]
    rfl
  rw [trim, trim, trimLeft, trimLeft, List.dropWhile_append]
  split
  next empty => rw [nothing, List.isEmpty_iff.1 empty]
  next => exact trimRight_append_blank _ blank

theorem Spacing.trim_around (spacing : Spacing isBlank) (text : List Char) : trim (spacing.around text) = trim text := by
  rw [around, trim_append_blank _ spacing.holdsBehind, trim_blank_append spacing.holdsBefore]

theorem Trimmed.of_ends {first last : Char} (middle : List Char) (visible : isBlank first = false)
    (visible' : isBlank last = false) : Trimmed (first :: (middle ++ [last])) where
  first c := by rintro ⟨⟩; exact visible
  last c mem := by
    rw [List.getLast?_cons, List.getLast?_concat] at mem
    cases mem
    exact visible'

/-- Texts with commas between them. -/
def listed (texts : List (List Char)) : List Char := List.intercalate [','] texts

@[simp] theorem listed_nil : listed [] = [] := rfl

@[simp] theorem listed_singleton (text : List Char) : listed [text] = text := List.append_nil _

@[simp] theorem listed_cons (first second : List Char) (others : List (List Char)) :
    listed (first :: second :: others) = first ++ ',' :: listed (second :: others) := by
  simp [listed]

end Text

open Text

/-- An item of an array as it stands there. -/
structure Written where
  spacing : Spacing Expr.isSpace
  text : List Char
  value : Value

def Written.letters (written : Written) : List Char := written.spacing.around written.text

/-- The text stands for the value, and no more brackets go into each other than the depth allows. -/
inductive Item : Nat → List Char → Value → Prop where
  | null (depth : Nat) : Item depth "null".toList .null
  | bool (depth : Nat) (truth : Bool) : Item depth (if truth then "true" else "false").toList (.bool truth)
  | string (depth : Nat) (quotation : Quotation) : Item depth quotation.letters (.string quotation.text)
  | array {depth : Nat} (items : List Written) (spaces : List Char)
      (inside : ∀ item ∈ items, Item depth item.text item.value)
      (blank : ∀ c ∈ spaces, Expr.isSpace c = true) :
    Item (depth + 1) ('[' :: (listed (items.map Written.letters) ++ spaces ++ [']'])) (.array (items.map Written.value))

namespace Argument

theorem Position.step_plain {c : Char} (plain : isBracket c = false) (depth : Nat) :
    step ⟨depth, none, false⟩ c = ⟨depth, none, false⟩ := by
  simp only [step]
  split <;> first | rfl | exact absurd plain (by decide)

section Plain
variable {separator : Char} {depth : Nat}

theorem passes_char {c : Char} (plain : Position.isBracket c = false) (kept : depth ≠ 0 ∨ c ≠ separator) :
    Passes separator ⟨depth, none, false⟩ [c] ⟨depth, none, false⟩ := by
  refine .cons ?_ (Position.step_plain plain depth) (.nil _)
  rcases kept with inside | other
  · simp [Position.isCut, Position.isTop, inside]
  · simp [Position.isCut, other]

theorem passes_plain {text : List Char} (plain : text.all (fun c => !Position.isBracket c && c != separator) = true) :
    Passes separator ⟨depth, none, false⟩ text ⟨depth, none, false⟩ := by
  induction text with
  | nil => exact .nil _
  | cons c text ih =>
    simp only [List.all_cons, Bool.and_eq_true, Bool.not_eq_true', bne_iff_ne] at plain
    obtain ⟨⟨here, other⟩, behind⟩ := plain
    exact (passes_char here (.inr other)).append (ih behind)

/-- Inside brackets the commas part nothing. -/
theorem passes_listed {texts : List (List Char)} (inside : depth ≠ 0)
    (passes : ∀ text ∈ texts, Passes separator ⟨depth, none, false⟩ text ⟨depth, none, false⟩) :
    Passes separator ⟨depth, none, false⟩ (listed texts) ⟨depth, none, false⟩ := by
  induction texts with
  | nil => exact .nil _
  | cons first others ih =>
    obtain ⟨here, behind⟩ := List.forall_mem_cons.1 passes
    cases others with
    | nil =>
      rw [listed_singleton]
      exact here
    | cons second others =>
      have comma : Passes separator ⟨depth, none, false⟩ [','] ⟨depth, none, false⟩ := passes_char rfl (.inl inside)
      rw [listed_cons]
      exact here.append (comma.append (ih behind))

theorem passes_enclosed {opening closing : Char} {text : List Char}
    (brackets : Position.isBracket opening = true ∧ Position.isBracket closing = true)
    (opens : Position.step ⟨depth, none, false⟩ opening = ⟨depth + 1, none, false⟩)
    (closes : Position.step ⟨depth + 1, none, false⟩ closing = ⟨depth, none, false⟩)
    (inside : Passes separator ⟨depth + 1, none, false⟩ text ⟨depth + 1, none, false⟩) :
    Passes separator ⟨depth, none, false⟩ (opening :: (text ++ [closing])) ⟨depth, none, false⟩ := by
  have kept {c : Char} (bracket : Position.isBracket c = true) (position : Position) :
      position.isCut separator c = false := by
    simp [Position.isCut, bracket]
  exact .cons (kept brackets.1 _) opens (inside.append (.cons (kept brackets.2 _) closes (.nil _)))

end Plain

/-- The characters at which arguments and members are cut. -/
def IsSeparator (c : Char) : Prop := c = ',' ∨ c = ':'

variable {separator : Char}

theorem IsSeparator.visible (sign : IsSeparator separator) : isBlank separator = false := by
  rcases sign with rfl | rfl <;> decide

theorem isBracket_of_isBlank {c : Char} (blank : isBlank c = true) : Position.isBracket c = false := by
  unfold Position.isBracket
  split <;> first | rfl | exact absurd blank (by decide)

theorem ne_of_isBlank (visible : isBlank separator = false) {c : Char} (blank : isBlank c = true) : c ≠ separator := by
  rintro rfl
  exact absurd blank (by simp [visible])

theorem passes_blank (visible : isBlank separator = false) (depth : Nat) {blanks : List Char}
    (blank : ∀ c ∈ blanks, isBlank c = true) : Passes separator ⟨depth, none, false⟩ blanks ⟨depth, none, false⟩ := by
  refine passes_plain (List.all_eq_true.2 fun c mem => ?_)
  simp [isBracket_of_isBlank (blank c mem), ne_of_isBlank visible (blank c mem)]

theorem passes_around (visible : isBlank separator = false) {depth : Nat} (spacing : Spacing isBlank) {text : List Char}
    (passes : Passes separator ⟨depth, none, false⟩ text ⟨depth, none, false⟩) :
    Passes separator ⟨depth, none, false⟩ (spacing.around text) ⟨depth, none, false⟩ :=
  ((passes_blank visible depth spacing.holdsBefore).append passes).append
    (passes_blank visible depth spacing.holdsBehind)

end Argument

theorem Expr.isBlank_of_isSpace {c : Char} (space : isSpace c = true) : isBlank c = true := by
  simp only [isSpace, Bool.or_eq_true, decide_eq_true_eq] at space
  rcases space with ((rfl | rfl) | rfl) | rfl <;> decide

/-- Whatever separates tokens is blank. -/
def Text.Spacing.blank (spacing : Spacing Expr.isSpace) : Spacing isBlank where
  before := spacing.before
  behind := spacing.behind
  allBefore := List.all_eq_true.2 fun c mem => Expr.isBlank_of_isSpace (spacing.holdsBefore c mem)
  allBehind := List.all_eq_true.2 fun c mem => Expr.isBlank_of_isSpace (spacing.holdsBehind c mem)

namespace Item
open Argument

variable {depth : Nat} {text : List Char} {value : Value}

theorem trimmed (item : Item depth text value) : Trimmed text := by
  cases item with
  | null => exact .of_ends ['u', 'l'] (by decide) (by decide)
  | bool _ truth =>
    cases truth with
    | true => exact .of_ends ['r', 'u'] (by decide) (by decide)
    | false => exact .of_ends ['a', 'l', 's'] (by decide) (by decide)
  | string _ quotation => exact .of_ends _ quotation.quote.visible quotation.quote.visible
  | array items spaces => exact .of_ends _ (by decide) (by decide)

theorem ne_nil (item : Item depth text value) : text ≠ [] := by
  cases item with
  | null => decide
  | bool _ truth => cases truth <;> decide
  | string | array => exact List.cons_ne_nil _ _

theorem isObject (item : Item depth text value) : Argument.isObject text = false := by
  cases item with
  | null => decide
  | bool _ truth => cases truth <;> decide
  | string _ quotation => exact quotation.isObject_letters
  | array => rfl

/-- Neither a comma nor a colon of an item cuts anything. -/
theorem passes {separator : Char} (sign : IsSeparator separator) (item : Item depth text value) (nesting : Nat) :
    Passes separator ⟨nesting, none, false⟩ text ⟨nesting, none, false⟩ := by
  induction item generalizing nesting with
  | null => exact passes_plain (by rcases sign with rfl | rfl <;> decide)
  | bool _ truth => exact passes_plain (by rcases sign with rfl | rfl <;> cases truth <;> decide)
  | string _ quotation => exact quotation.passes_letters separator nesting
  | array items spaces _ blank ih =>
    have each : ∀ letters ∈ items.map Written.letters,
        Passes separator ⟨nesting + 1, none, false⟩ letters ⟨nesting + 1, none, false⟩ := by
      rintro _ mem
      obtain ⟨written, among, rfl⟩ := List.mem_map.1 mem
      exact passes_around sign.visible written.spacing.blank (ih written among (nesting + 1))
    have behind : Passes separator ⟨nesting + 1, none, false⟩ spaces ⟨nesting + 1, none, false⟩ :=
      passes_blank sign.visible _ fun c mem => Expr.isBlank_of_isSpace (blank c mem)
    exact passes_enclosed ⟨rfl, rfl⟩ rfl rfl ((passes_listed (Nat.succ_ne_zero _) each).append behind)

end Item

namespace Expr

/-- In front of the rest the text is cut into the tokens, wherever it starts. -/
def Lexes (text rest : List Char) (tokens : List Token) : Prop :=
  ∀ start, ∃ located : List (Located Token), located.map Located.value = tokens ∧
    lexFrom start (text ++ rest) = (lexFrom (start + byteLength text) rest).map (located ++ ·)

/-- What stands next does not go on with a word. -/
def Ends (rest : List Char) : Prop := rest.takeWhile isNameChar = []

theorem Ends.cons {c : Char} (other : isNameChar c = false) (rest : List Char) : Ends (c :: rest) :=
  List.takeWhile_cons_of_neg (by simp [other])

theorem Ends.behind {spaces rest : List Char} (ends : Ends rest) (blank : ∀ c ∈ spaces, isSpace c = true) :
    Ends (spaces ++ rest) := by
  cases spaces with
  | nil => exact ends
  | cons c spaces =>
    have space := blank c List.mem_cons_self
    simp only [isSpace, Bool.or_eq_true, decide_eq_true_eq] at space
    refine .cons ?_ _
    rcases space with ((rfl | rfl) | rfl) | rfl <;> rfl

namespace Lexes
variable {text more rest : List Char} {tokens others : List Token}

theorem nil (rest : List Char) : Lexes [] rest [] := by
  intro start
  refine ⟨[], rfl, ?_⟩
  rw [List.nil_append]
  change lexFrom start rest = (lexFrom start rest).map _
  cases lexFrom start rest <;> rfl

theorem append (first : Lexes text (more ++ rest) tokens) (second : Lexes more rest others) :
    Lexes (text ++ more) rest (tokens ++ others) := by
  intro start
  obtain ⟨located, same, read⟩ := first start
  obtain ⟨further, same', read'⟩ := second (start + byteLength text)
  refine ⟨located ++ further, by rw [List.map_append, same, same'], ?_⟩
  have size : start + byteLength text + byteLength more = start + byteLength (text ++ more) := by
    rw [byteLength_append, Nat.add_assoc]
  rw [List.append_assoc, read, read', size]
  cases lexFrom (start + byteLength (text ++ more)) rest with
  | error _ => rfl
  | ok tokens => exact congrArg Except.ok (List.append_assoc ..).symm

theorem of_starts {token : Token} (starts : Starts text rest token) : Lexes text rest [token] := fun start =>
  ⟨[⟨token, ⟨start, start + byteLength text⟩⟩], rfl, lexFrom_starts starts start⟩

theorem comma (rest : List Char) : Lexes [','] rest [.mark .comma] := .of_starts ⟨_, _, rfl, rfl, rfl⟩

theorem bracketOpen (rest : List Char) : Lexes ['['] rest [.mark .bracketOpen] := .of_starts ⟨_, _, rfl, rfl, rfl⟩

theorem bracketClose (rest : List Char) : Lexes [']'] rest [.mark .bracketClose] := .of_starts ⟨_, _, rfl, rfl, rfl⟩

theorem spaces (blank : ∀ c ∈ text, isSpace c = true) : Lexes text rest [] := by
  induction text with
  | nil => exact nil rest
  | cons c text ih =>
    obtain ⟨space, behind⟩ := List.forall_mem_cons.1 blank
    intro start
    obtain ⟨located, same, read⟩ := ih behind (start + c.utf8Size)
    refine ⟨located, same, ?_⟩
    rw [List.cons_append, lexFrom, if_pos space, read, Nat.add_assoc]
    rfl

theorem around (spacing : Spacing isSpace) (inside : Lexes text (spacing.behind ++ rest) tokens) :
    Lexes (spacing.around text) rest tokens := by
  have before : Lexes spacing.before (text ++ (spacing.behind ++ rest)) [] := spaces spacing.holdsBefore
  have whole := (before.append inside).append (spaces spacing.holdsBehind)
  rwa [List.nil_append, List.append_nil] at whole

theorem lex (whole : Lexes text [] tokens) :
    ∃ located, Expr.lex (String.ofList text) = .ok located ∧ located.map Located.value = tokens := by
  obtain ⟨located, same, read⟩ := whole 0
  rw [List.append_nil, lexFrom_nil] at read
  refine ⟨located, ?_, same⟩
  rw [Expr.lex, String.toList_ofList, read]
  exact congrArg Except.ok (List.append_nil _)

end Lexes

/-- The text is read as this expression, which has the value whatever the variables are. No minus stands in it, so that the
pass over its tokens finds its nesting. -/
structure ReadAs (depth : Nat) (text : List Char) (value : Value) (tokens : List Token) (whole : Expr) (extent : Extent) :
    Prop where
  nests : Nests Phrase.accessLevel tokens whole extent
  shallow : extent.nesting ≤ depth
  plain : extent.minus = 0
  meant : ∀ scope, whole.eval scope = value
  lexed : ∀ rest, Ends rest → Lexes text rest tokens

/-- The same for the items of an array. -/
structure ItemsReadAs (depth : Nat) (items : List Written) (tokens : List Token) (wholes : List Expr) (extent : Extent) :
    Prop where
  nests : NestsItems tokens wholes extent
  shallow : extent.nesting ≤ depth
  plain : extent.minus = 0
  meant : ∀ scope, evalItems scope wholes = items.map Written.value
  lexed : ∀ rest, Ends rest → Lexes (listed (items.map Written.letters)) rest tokens

theorem ReadAs.written {depth : Nat} {written : Written} {tokens : List Token} {whole : Expr} {extent : Extent}
    (read : ReadAs depth written.text written.value tokens whole extent) {rest : List Char} (ends : Ends rest) :
    Lexes written.letters rest tokens :=
  .around written.spacing (read.lexed _ (ends.behind written.spacing.holdsBehind))

theorem ItemsReadAs.none (depth : Nat) : ItemsReadAs depth [] [] [] {} where
  nests := .none
  shallow := Nat.zero_le _
  plain := rfl
  meant _ := rfl
  lexed rest _ := .nil rest

theorem ItemsReadAs.last {depth : Nat} {written : Written} {tokens : List Token} {whole : Expr} {extent : Extent}
    (read : ReadAs depth written.text written.value tokens whole extent) :
    ItemsReadAs depth [written] tokens [whole] extent where
  nests := .last (read.nests.weaken (Nat.zero_le _))
  shallow := read.shallow
  plain := read.plain
  meant scope := congrArg ([·]) (read.meant scope)
  lexed rest ends := by
    rw [List.map_singleton, listed_singleton]
    exact read.written ends

theorem ItemsReadAs.more {depth : Nat} {written second : Written} {others : List Written} {tokens further : List Token}
    {whole : Expr} {wholes : List Expr} {extent extent' : Extent}
    (read : ReadAs depth written.text written.value tokens whole extent)
    (behind : ItemsReadAs depth (second :: others) further wholes extent') :
    ItemsReadAs depth (written :: second :: others) (tokens ++ .mark .comma :: further) (whole :: wholes)
      (extent.beside extent') where
  nests := .more (read.nests.weaken (Nat.zero_le _)) behind.nests
  shallow := Nat.max_le.2 ⟨read.shallow, behind.shallow⟩
  plain := by simp [Extent.beside, read.plain, behind.plain]
  meant scope := by
    rw [evalItems, read.meant, behind.meant]
    rfl
  lexed rest ends := by
    rw [List.map_cons, List.map_cons, listed_cons]
    exact (read.written (.cons rfl _)).append ((Lexes.comma _).append (behind.lexed rest ends))

theorem ItemsReadAs.of_forall {depth : Nat} (items : List Written)
    (each : ∀ item ∈ items, ∃ tokens whole extent, ReadAs depth item.text item.value tokens whole extent) :
    ∃ tokens wholes extent, ItemsReadAs depth items tokens wholes extent := by
  induction items with
  | nil => exact ⟨_, _, _, .none depth⟩
  | cons first others ih =>
    obtain ⟨⟨_, _, _, read⟩, behind⟩ := List.forall_mem_cons.1 each
    obtain ⟨_, _, _, behind⟩ := ih behind
    cases others with
    | nil => exact ⟨_, _, _, .last read⟩
    | cons second others => exact ⟨_, _, _, .more read behind⟩

end Expr

namespace Item
open Stencil.Expr

variable {depth : Nat} {text : List Char} {value : Value}

theorem readAs (item : Item depth text value) :
    ∃ tokens whole extent, ReadAs depth text value tokens whole extent := by
  induction item with
  | null =>
    exact ⟨_, _, _, .null, Nat.zero_le _, rfl, fun _ => rfl, fun _ ends => .of_starts (starts_name rfl ends)⟩
  | bool _ truth =>
    refine ⟨_, _, _, .bool truth, Nat.zero_le _, rfl, fun _ => rfl, fun _ ends => .of_starts ?_⟩
    cases truth <;> exact starts_name rfl ends
  | string _ quotation =>
    exact ⟨_, _, _, .string _, Nat.zero_le _, rfl, fun _ => rfl, fun rest _ => .of_starts (quotation.starts rest)⟩
  | array items spaces _ blank ih =>
    obtain ⟨tokens, wholes, extent, read⟩ := ItemsReadAs.of_forall items ih
    refine ⟨_, _, _, .array read.nests, Nat.succ_le_succ read.shallow, ?_, fun scope => ?_, fun rest _ => ?_⟩
    · simp [Extent.enclosed, read.plain]
    · rw [eval, read.meant]
    · have inside := read.lexed (spaces ++ ']' :: rest) ((Ends.cons rfl rest).behind blank)
      have whole := ((inside.append (.spaces blank)).append (Lexes.bracketClose rest))
      rw [List.append_nil] at whole
      exact (Lexes.bracketOpen _).append whole

theorem parse (item : Item nestingCap text value) :
    ∃ whole, Expr.parse (String.ofList text) = .ok whole ∧ ∀ scope, whole.eval scope = value := by
  obtain ⟨tokens, whole, extent, read⟩ := item.readAs
  obtain ⟨located, lexed, rfl⟩ := (read.lexed [] rfl).lex
  have fits : Nesting.fits {} (located.map Located.value) = true := by
    have below := read.nests.counted.below 0 0
    have signs := read.nests.counted.signs
    have shallow := read.shallow
    have plain := read.plain
    rw [fits_iff_peak]
    omega
  exact ⟨whole, parse_of_fits lexed fits (read.nests.weaken (Nat.zero_le _)).derives, read.meant⟩

/-- Read as an argument, an item of no more nesting than the cap gives its value. -/
theorem value_read (item : Item nestingCap text value) (scope : Scope) :
    (Argument.read text).valueBy scope.value = value := by
  obtain ⟨whole, parsed, meant⟩ := item.parse
  have trimmed : Text.trimmed (String.ofList text) = String.ofList text := by
    rw [Text.trimmed, String.toList_ofList, item.trimmed.trim]
  have read : Argument.read text = .expression (String.ofList text) := by
    rw [Argument.read, item.isObject]
    rfl
  rw [read]
  change scope.value (String.ofList text) = value
  rw [Scope.value_of_parse (trimmed ▸ parsed), meant]

end Item

end Stencil
