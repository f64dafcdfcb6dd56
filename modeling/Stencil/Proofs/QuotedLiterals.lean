import Stencil.Proofs.ExpressionVariables
import Stencil.Proofs.PhraseSpelling
import Stencil.Template.Tokenizer

/-! Texts between quotes. Four scans pass over them: for the parenthesis that closes a directive, for the commas
between arguments, for the end of an argument that is a literal, and for the tokens of an expression. Each keeps
track of quotes and backslashes by itself, but they agree on where a literal ends and on what it stands for. -/

namespace Stencil.Expr.Quoted

/-- The text with a backslash before each backslash and each quote. -/
def protect (quote : Quote) (text : List Char) : List Char :=
  text.flatMap fun c => if c = '\\' ∨ c = quote.char then ['\\', c] else [c]

/-- What can stand between two quotes, and the text that it stands for. -/
inductive Between (quote : Quote) : List Char → List Char → Prop where
  | nil : Between quote [] []
  | plain {c : Char} {written meant : List Char} (sign : c ≠ '\\') (other : c ≠ quote.char)
      (behind : Between quote written meant) : Between quote (c :: written) (c :: meant)
  | escape {c : Char} {written meant : List Char} (visible : c ≠ '\n') (behind : Between quote written meant) :
      Between quote ('\\' :: c :: written) (escaped c :: meant)

variable {quote : Quote} {written meant : List Char}

theorem Quote.char_ne_backslash (quote : Quote) : quote.char ≠ '\\' := by
  cases quote <;> decide

theorem Quote.visible (quote : Quote) : Text.isBlank quote.char = false := by
  cases quote <;> decide

theorem between_protect (quote : Quote) (text : List Char) : Between quote (protect quote text) text := by
  induction text with
  | nil => exact .nil
  | cons c text ih =>
    unfold protect
    rw [List.flatMap_cons]
    by_cases special : c = '\\' ∨ c = quote.char
    · have meant : escaped c = c ∧ c ≠ '\n' := by
        rcases special with rfl | rfl
        · decide
        · cases quote <;> decide
      rw [if_pos special]
      have escape := Between.escape meant.2 ih
      rwa [meant.1] at escape
    · rw [if_neg special]
      obtain ⟨sign, other⟩ := not_or.1 special
      exact .plain sign other ih

/-! Each scan has its own lemma, by induction on what stands between the quotes. -/

theorem Between.decode (between : Between quote written meant) : decode written = meant := by
  induction between with
  | nil => rfl
  | plain sign _ _ ih => rw [decode_cons sign, ih]
  | escape _ _ ih => rw [Quoted.decode, ih]

theorem Between.scan (between : Between quote written meant) (rest : List Char) :
    scan quote.char (written ++ quote.char :: rest) = (written, some rest) := by
  induction between with
  | nil =>
    change Quoted.scan quote.char (quote.char :: rest) = ([], some rest)
    cases quote <;> simp [Quoted.scan, Quote.char]
  | plain sign other _ ih => rw [List.cons_append, scan_cons sign other, ih]
  | escape visible _ ih => simp [Quoted.scan, visible, ih]

end Stencil.Expr.Quoted

namespace Stencil.Argument
open Text Expr.Quoted

variable {quote : Quote} {written meant : List Char}

theorem breaksOff_between (between : Between quote written meant) : breaksOff quote.char written = false := by
  induction between with
  | nil => rfl
  | @plain c written _ sign other _ ih =>
    have step : breaksOff quote.char (c :: written) = (decide (c = quote.char) || breaksOff quote.char written) := by
      cases written <;> simp [breaksOff, sign]
    rw [step, ih, decide_eq_false other]
    rfl
  | escape _ _ ih => rw [breaksOff, ih]

theorem pieces_ne_nil (separator : Char) (position : Position) (text : List Char) :
    pieces separator position text ≠ [] := by
  cases text with
  | nil => exact List.cons_ne_nil _ _
  | cons c text =>
    unfold pieces
    split
    · exact List.cons_ne_nil _ _
    · split <;> exact List.cons_ne_nil _ _

theorem pieces_kept {separator c : Char} {position : Position} (kept : position.isCut separator c = false)
    (text : List Char) : pieces separator position (c :: text) =
      (pieces separator (position.step c) text).modifyHead (c :: ·) := by
  rw [pieces, if_neg (by simp [kept])]
  split
  next none => exact absurd none (pieces_ne_nil _ _ _)
  next piece rest some =>
    rw [some]
    rfl

/-- A scan that meets no cut on its way through a text. -/
inductive Passes (separator : Char) : Position → List Char → Position → Prop where
  | nil (position : Position) : Passes separator position [] position
  | cons {position next after : Position} {c : Char} {text : List Char} (kept : position.isCut separator c = false)
      (moves : position.step c = next) (behind : Passes separator next text after) :
    Passes separator position (c :: text) after

namespace Passes
variable {separator : Char} {position between after : Position} {first text : List Char}

theorem append (passes : Passes separator position first between) (behind : Passes separator between text after) :
    Passes separator position (first ++ text) after := by
  induction passes with
  | nil => exact behind
  | cons kept moves _ ih => exact .cons kept moves (ih behind)

/-- The text stays in one piece, together with what stands behind it. -/
theorem pieces (passes : Passes separator position text after) (rest : List Char) :
    Argument.pieces separator position (text ++ rest) =
      (Argument.pieces separator after rest).modifyHead (text ++ ·) := by
  induction passes with
  | nil position =>
    rw [List.nil_append]
    cases Argument.pieces separator position rest <;> rfl
  | @cons _ _ after c _ kept moves _ ih =>
    rw [List.cons_append, pieces_kept kept, moves, ih]
    cases Argument.pieces separator after rest <;> rfl

/-- The text stands before the first cut. -/
theorem cut? (passes : Passes separator position text after) (rest : List Char) :
    Argument.cut? separator position (text ++ rest) =
      (Argument.cut? separator after rest).map fun (before, behind) => (text ++ before, behind) := by
  induction passes with
  | nil position =>
    rw [List.nil_append]
    cases Argument.cut? separator position rest <;> rfl
  | @cons _ _ after _ _ kept moves _ ih =>
    rw [List.cons_append, Argument.cut?, if_neg (by simp [kept]), moves, ih]
    cases Argument.cut? separator after rest <;> rfl

end Passes

/-- What stands between quotes is passed over together with the quote behind it. -/
theorem passes_between (between : Between quote written meant) (separator : Char) (depth : Nat) :
    Passes separator ⟨depth, some quote.char, false⟩ (written ++ [quote.char]) ⟨depth, none, false⟩ := by
  have quoted (c : Char) (escaped : Bool) : Position.isCut ⟨depth, some quote.char, escaped⟩ separator c = false := by
    simp [Position.isCut, Position.isTop]
  induction between with
  | nil =>
    have closes : Position.step ⟨depth, some quote.char, false⟩ quote.char = ⟨depth, none, false⟩ := by
      simp [Position.step, quote.char_ne_backslash]
    exact .cons (quoted _ _) closes (.nil _)
  | @plain c _ _ sign other _ ih =>
    have stays : Position.step ⟨depth, some quote.char, false⟩ c = ⟨depth, some quote.char, false⟩ := by
      simp [Position.step, sign, other]
    exact .cons (quoted _ _) stays ih
  | @escape c _ _ _ _ ih =>
    have opens : Position.step ⟨depth, some quote.char, false⟩ '\\' = ⟨depth, some quote.char, true⟩ := by
      simp [Position.step]
    have closes : Position.step ⟨depth, some quote.char, true⟩ c = ⟨depth, some quote.char, false⟩ := by
      simp [Position.step]
    exact .cons (quoted _ _) opens (.cons (quoted _ _) closes ih)

end Stencil.Argument

namespace Stencil.Template
open Expr.Quoted

/-- No parenthesis between quotes closes anything. -/
theorem insideParens?_between {quote : Quote} {written meant : List Char} (between : Between quote written meant)
    (depth : Nat) (rest : List Char) :
    insideParens? ⟨depth, some quote.char, false⟩ (written ++ quote.char :: rest) =
      (insideParens? ⟨depth, none, false⟩ rest).map (written ++ quote.char :: ·) := by
  induction between with
  | nil => simp [insideParens?, Nest.step, quote.char_ne_backslash]
  | plain sign other _ ih =>
    simp [insideParens?, Nest.step, sign, other, ih, Function.comp_def]
  | escape _ _ ih => simp [insideParens?, Nest.step, ih, Function.comp_def]

end Stencil.Template

namespace Stencil

/-- A text between quotes. Any of its characters may be written with a backslash. -/
structure Quotation where
  quote : Expr.Quoted.Quote
  written : List Char
  text : String
  between : Expr.Quoted.Between quote written text.toList

namespace Quotation
open Expr.Quoted

def letters (quotation : Quotation) : List Char :=
  quotation.quote.char :: (quotation.written ++ [quotation.quote.char])

variable (quotation : Quotation)

theorem trim_letters : Text.trim quotation.letters = quotation.letters := by
  simp [Text.trim, Text.trimLeft, Text.trimRight, letters, quotation.quote.visible]

theorem starts (rest : List Char) : Expr.Starts quotation.letters rest (.string quotation.text) := by
  have notSpace : Expr.isSpace quotation.quote.char = false := by cases quotation.quote <;> rfl
  have quoted : (quotation.quote.char = '"' || quotation.quote.char = '\'') = true := by
    cases quotation.quote <;> rfl
  refine ⟨quotation.quote.char, _, rfl, notSpace, ?_⟩
  rw [List.append_assoc, List.singleton_append]
  simp [Expr.tokenAt, quoted, quotation.between.scan, quotation.between.decode]

theorem stringLiteral?_letters : Argument.stringLiteral? quotation.letters = some quotation.text.toList := by
  have quoted : quotation.quote.char = '\'' ∨ quotation.quote.char = '"' := by cases quotation.quote <;> decide
  unfold Argument.stringLiteral?
  rw [trim_letters]
  simp [letters, quoted, Argument.breaksOff_between quotation.between, quotation.between.decode]

theorem isObject_letters : Argument.isObject quotation.letters = false := by
  have noBrace : quotation.quote.char ≠ '\x7b' := by cases quotation.quote <;> decide
  simp [Argument.isObject, Text.trimLeft, letters, quotation.quote.visible, noBrace]

theorem passes_letters (separator : Char) (depth : Nat) :
    Argument.Passes separator ⟨depth, none, false⟩ quotation.letters ⟨depth, none, false⟩ := by
  have kept : Argument.Position.isCut ⟨depth, none, false⟩ separator quotation.quote.char = false := by
    cases quotation.quote <;> simp [Argument.Position.isCut, Argument.Position.isBracket, Quote.char]
  have opens : Argument.Position.step ⟨depth, none, false⟩ quotation.quote.char =
      ⟨depth, some quotation.quote.char, false⟩ := by
    cases quotation.quote <;> rfl
  exact .cons kept opens (Argument.passes_between quotation.between separator depth)

end Quotation

/-- A text and the quotes that it is put between. -/
structure Literal where
  quote : Expr.Quoted.Quote
  text : String

namespace Literal
open Expr.Quoted

def letters (literal : Literal) : List Char :=
  literal.quote.char :: (protect literal.quote literal.text.toList ++ [literal.quote.char])

def spelling (literal : Literal) : String := String.ofList literal.letters

/-- The literals as the arguments of a directive. -/
def arguments (literals : List Literal) : String := String.intercalate ", " (literals.map spelling)

variable (literal : Literal)

theorem between : Between literal.quote (protect literal.quote literal.text.toList) literal.text.toList :=
  between_protect _ _

/-- The literal with only those backslashes that it needs. -/
def quotation : Quotation := ⟨literal.quote, _, literal.text, literal.between⟩

theorem letters_append (rest : List Char) : literal.letters ++ rest =
    literal.quote.char :: (protect literal.quote literal.text.toList ++ literal.quote.char :: rest) := by
  simp [letters]

theorem trim_letters : Text.trim literal.letters = literal.letters := literal.quotation.trim_letters

theorem trimmed_spelling : Text.trimmed literal.spelling = literal.spelling := by
  simp [Text.trimmed, spelling, trim_letters]

theorem lex_spelling : Expr.lex literal.spelling =
    .ok [⟨.string literal.text, ⟨0, Text.byteLength literal.spelling.toList⟩⟩] := by
  have taken := Expr.lexFrom_starts (literal.quotation.starts []) 0
  rw [List.append_nil, Expr.lexFrom_nil, Nat.zero_add] at taken
  unfold Expr.lex spelling
  rw [String.toList_ofList]
  exact taken

theorem parse_spelling : Expr.parse literal.spelling = .ok (.literal (.string literal.text)) := by
  rw [Expr.parse, lex_spelling]
  rfl

theorem value_spelling (scope : Scope) : scope.value literal.spelling = .string literal.text := by
  have parsed : Expr.parse (Text.trimmed literal.spelling) = .ok (.literal (.string literal.text)) := by
    rw [trimmed_spelling, parse_spelling]
  rw [Scope.value_of_parse parsed]
  rfl

theorem read_letters : Argument.read literal.letters = .expression literal.spelling := by
  have noBrace : Argument.isObject literal.letters = false := literal.quotation.isObject_letters
  rw [Argument.read, noBrace]
  rfl

theorem pieces_letters (separator : Char) (depth : Nat) (rest : List Char) :
    Argument.pieces separator ⟨depth, none, false⟩ (literal.letters ++ rest) =
      (Argument.pieces separator ⟨depth, none, false⟩ rest).modifyHead (literal.letters ++ ·) :=
  (literal.quotation.passes_letters separator depth).pieces rest

theorem insideParens?_letters (depth : Nat) (rest : List Char) :
    Template.insideParens? ⟨depth, none, false⟩ (literal.letters ++ rest) =
      (Template.insideParens? ⟨depth, none, false⟩ rest).map (literal.letters ++ ·) := by
  have opens : Template.Nest.step ⟨depth, none, false⟩ literal.quote.char = ⟨depth, some literal.quote.char, false⟩ := by
    cases literal.quote <;> rfl
  have noParen : literal.quote.char ≠ ')' := by cases literal.quote <;> decide
  rw [letters_append, Template.insideParens?, opens, Template.insideParens?_between literal.between]
  simp [noParen, letters, Function.comp_def]

theorem arguments_cons (first second : Literal) (others : List Literal) : (arguments (first :: second :: others)).toList =
    first.letters ++ ',' :: ' ' :: (arguments (second :: others)).toList := by
  unfold arguments
  rw [List.map_cons, List.map_cons, String.intercalate_cons_cons, String.toList_append, String.toList_append]
  simp [spelling]

theorem arguments_single : (arguments [literal]).toList = literal.letters := by
  simp [arguments, spelling]

/-- The closing parenthesis is found behind all the literals. -/
theorem insideParens?_arguments (literals : List Literal) (rest : List Char) :
    Template.insideParens? {} ((arguments literals).toList ++ ')' :: rest) = some (arguments literals).toList := by
  have closes : Template.insideParens? {} (')' :: rest) = some [] := rfl
  induction literals with
  | nil => exact closes
  | cons first literals ih =>
    cases literals with
    | nil =>
      rw [arguments_single, insideParens?_letters]
      simp [closes]
    | cons second others =>
      have comma (text : List Char) : Template.insideParens? {} (',' :: ' ' :: text) =
          (Template.insideParens? {} text).map (',' :: ' ' :: ·) := by
        simp [Template.insideParens?, Template.Nest.step, Function.comp_def]
      rw [arguments_cons, List.append_assoc, insideParens?_letters, List.cons_append, List.cons_append]
      simp [comma, ih]

/-- The commas between the literals are those that part the arguments. -/
theorem pieces_arguments (first : Literal) (others : List Literal) :
    (Argument.pieces ',' {} (arguments (first :: others)).toList).map Text.trim = (first :: others).map letters := by
  induction others generalizing first with
  | nil =>
    have whole := first.pieces_letters ',' 0 []
    rw [List.append_nil] at whole
    rw [arguments_single, whole]
    simp [Argument.pieces, trim_letters]
  | cons second others ih =>
    have comma (text : List Char) : Argument.pieces ',' {} (',' :: text) = [] :: Argument.pieces ',' {} text := rfl
    have space (text : List Char) : (Argument.pieces ',' {} (' ' :: text)).map Text.trim =
        (Argument.pieces ',' {} text).map Text.trim := by
      have kept : Argument.pieces ',' {} (' ' :: text) = (Argument.pieces ',' {} text).modifyHead (' ' :: ·) :=
        Argument.pieces_kept rfl text
      rw [kept]
      cases Argument.pieces ',' {} text <;> rfl
    rw [arguments_cons, pieces_letters, comma, List.modifyHead_cons, List.append_nil, List.map_cons, space, ih second,
      trim_letters]
    rfl

theorem list_arguments (literals : List Literal) : Argument.list (arguments literals) = literals.map spelling := by
  have parts : Argument.split ',' (arguments literals).toList = literals.map letters := by
    cases literals with
    | nil => rfl
    | cons first others =>
      unfold Argument.split
      rw [pieces_arguments]
      split
      next blank => simp [letters] at blank
      next => rfl
  unfold Argument.list
  rw [parts, List.map_map]
  rfl

end Literal

/-- How a literal is read where it stands by itself. -/
structure Literal.ReadAlike (literal : Literal) : Prop where
  /-- It is one token, which takes up the whole text. -/
  lexed : Expr.lex literal.spelling = .ok [⟨.string literal.text, ⟨0, Text.byteLength literal.spelling.toList⟩⟩]
  /-- It is seen to be a literal and nothing more. -/
  unquoted : Argument.stringLiteral? literal.spelling.toList = some literal.text.toList
  /-- It evaluates to its text, whatever the variables are. -/
  evaluated : ∀ scope evaluator, (Evaluator.evaluate scope literal.spelling evaluator).1 = .string literal.text

theorem Literal.readAlike (literal : Literal) : literal.ReadAlike where
  lexed := literal.lex_spelling
  unquoted := by
    rw [spelling, String.toList_ofList]
    exact literal.quotation.stringLiteral?_letters
  evaluated scope evaluator := (Evaluator.evaluate_fst scope _ evaluator).trans (literal.value_spelling scope)

end Stencil
