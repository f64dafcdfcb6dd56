import Stencil.Proofs.NodeSequence
import Stencil.Proofs.QuotedLiterals
import Stencil.Proofs.TemplateGrammar
import Stencil.Proofs.TokenCut

/-! Literals as the arguments of a directive. Whatever stands between the quotes, be it quotes, brackets, commas or
what would start a directive or an interpolation elsewhere, the directive is cut out as a whole and its handler is
given the texts themselves. -/

namespace Stencil

theorem Template.pieceAt_sign (inWord : Bool) (tail : List Char) : pieceAt inWord '@' tail = atSign inWord tail := by
  simp [pieceAt, opensWith, Text.stripPrefix?, commentMarks, rawMarks, echoMarks]

/-- The name of a directive: letters and underscores, and digits except at the start. -/
structure DirectiveName where
  first : Char
  others : List Char
  starts : Template.isDirectiveStart first = true
  continues : ∀ c ∈ others, (Template.isDirectiveStart c || Decimal.isDigit c) = true

namespace DirectiveName
open Template

def letters (name : DirectiveName) : List Char := name.first :: name.others

def text (name : DirectiveName) : String := String.ofList name.letters

/-- The directive as it is written, with literals for its arguments. -/
def calling (name : DirectiveName) (literals : List Literal) : String :=
  "@" ++ name.text ++ "(" ++ Literal.arguments literals ++ ")"

/-- What a handler for the directive is given. -/
def call (name : DirectiveName) (literals : List Literal) (scope : Scope) : Call :=
  ⟨name.text, Literal.arguments literals, scope⟩

/-- What stands behind the at sign. -/
def marked (name : DirectiveName) (literals : List Literal) : List Char :=
  name.letters ++ '(' :: ((Literal.arguments literals).toList ++ [')'])

/-- No directive of the language goes by this name. -/
def IsCustom (name : DirectiveName) : Prop :=
  (∀ closer : Closer, name.text ≠ closer.name) ∧ (∀ opener : Opener, name.text ≠ opener.name) ∧
    name.text ∉ ["extends", "yield", "include"]

variable (name : DirectiveName) (literals : List Literal)

theorem calling_letters : (name.calling literals).toList = '@' :: name.marked literals := by
  simp [calling, marked, text]

theorem first_ne {c : Char} (noStart : isDirectiveStart c = false) : name.first ≠ c := by
  rintro rfl
  rw [name.starts] at noStart
  cases noStart

theorem directiveName_marked : directiveName (name.marked literals) = name.letters := by
  have stops : (isDirectiveStart '(' || Decimal.isDigit '(') = false := by decide
  unfold marked letters
  rw [List.cons_append, directiveName, if_pos name.starts, List.takeWhile_append_of_pos name.continues,
    List.takeWhile_cons_of_neg (by rw [stops]; exact Bool.false_ne_true), List.append_nil]

theorem length_marked :
    (name.marked literals).length = name.letters.length + (Literal.arguments literals).toList.length + 2 := by
  simp only [marked, List.length_append, List.length_cons, List.length_nil]
  omega

theorem atSign_marked : atSign false (name.marked literals) =
    (.token (.directive name.text (some (Literal.arguments literals))), (name.marked literals).length) := by
  have noSign : name.first ≠ '@' := name.first_ne (by decide)
  have noBrace : name.first ≠ '\x7b' := name.first_ne (by decide)
  have named := name.directiveName_marked literals
  have plain : verbatim? (name.marked literals) = none := by
    simp [verbatim?, enclosed?, marked, letters, Text.stripPrefix?, echoMarks, rawMarks, noBrace.symm]
  have called : called? false (name.marked literals) = _ := called?_eq_some.2 ⟨_, _, by rw [named]; rfl,
    by rw [named]; exact List.cons_ne_nil _ _, .inl rfl, Literal.insideParens?_arguments literals [], rfl⟩
  unfold atSign
  rw [if_neg (by simpa [marked, letters] using noSign), plain, called, length_marked, named, String.ofList_toList]
  rfl

theorem tokenize_calling : tokenize (name.calling literals) =
    [⟨.directive name.text (some (Literal.arguments literals)), ⟨0, Text.byteLength (name.calling literals).toList⟩⟩] := by
  have outside : ({} : Pending).inWord = false := rfl
  unfold tokenize
  rw [calling_letters, tokenizeFrom, outside, pieceAt_sign, atSign_marked]
  dsimp only
  rw [List.take_length, List.drop_length, tokenizeFrom, Nat.zero_add]
  rfl

theorem read_calling (custom : name.IsCustom) : ∃ span raw, read (name.calling literals) =
    ([.directive span name.text (some (Literal.arguments literals)) raw], []) := by
  have items : Items (name.calling literals).toList [⟨.directive name.text (some (Literal.arguments literals)),
      ⟨0, Text.byteLength (name.calling literals).toList⟩⟩] _ := .leaf (.other custom.1 custom.2.1 custom.2.2) .nil
  rw [← tokenize_calling] at items
  exact ⟨_, _, items_iff_read.1 items⟩

/-- How literals are read that are the arguments of a directive. -/
structure HandsOver : Prop where
  /-- The directive is one token, which takes up the whole source. -/
  tokenized : tokenize (name.calling literals) =
    [⟨.directive name.text (some (Literal.arguments literals)), ⟨0, Text.byteLength (name.calling literals).toList⟩⟩]
  /-- Its arguments are the literals as they are written. -/
  parts : Argument.list (Literal.arguments literals) = literals.map Literal.spelling
  /-- A handler that asks for the text of an argument is given that of the literal. -/
  strings : ∀ scope index evaluator,
    (((name.call literals scope).string? index).run (Evaluator.evaluate scope) evaluator).1 =
      literals[index]?.map Literal.text
  /-- And so it is if it asks for the value. -/
  values : ∀ scope index evaluator,
    (((name.call literals scope).value? index).run (Evaluator.evaluate scope) evaluator).1 =
      literals[index]?.map fun literal => .string literal.text
  /-- The handler that an engine has for the name is run on this, and prints what it gives unless it fails. -/
  handled : name.IsCustom → ∀ (engine : Engine) handler data evaluator,
    engine.directives.find? name.text = some handler →
      (engine.renderInline (name.calling literals) data evaluator).1 =
        match ((handler (name.call literals (engine.dataScope data))).run
          (Evaluator.evaluate (engine.dataScope data)) evaluator).1 with
        | .ok text => .ok text
        | .error _ => .ok (Render.comment "directive error" name.text)

theorem part (index : Nat) (scope : Scope) :
    (name.call literals scope).parts[index]? = literals[index]?.map Literal.spelling := by
  change (Argument.list (Literal.arguments literals))[index]? = _
  rw [Literal.list_arguments, List.getElem?_map]

theorem string_argument (index : Nat) (scope : Scope) (evaluator : Evaluator) :
    (((name.call literals scope).string? index).run (Evaluator.evaluate scope) evaluator).1 =
      literals[index]?.map Literal.text := by
  unfold Call.string?
  rw [part]
  cases literals[index]? with
  | none => rfl
  | some literal =>
    have unquoted := literal.readAlike.unquoted
    simp only [Option.map_some, unquoted, String.ofList_toList]
    rfl

theorem value_argument (index : Nat) (scope : Scope) (evaluator : Evaluator) :
    (((name.call literals scope).value? index).run (Evaluator.evaluate scope) evaluator).1 =
      literals[index]?.map fun literal => .string literal.text := by
  unfold Call.value?
  rw [part]
  cases literals[index]? with
  | none => rfl
  | some literal =>
    have read : Argument.read literal.spelling.toList = .expression literal.spelling := by
      rw [Literal.spelling, String.toList_ofList]
      exact literal.read_letters
    simp only [Option.map_some, Call.valueOf, read]
    exact congrArg some (literal.readAlike.evaluated scope evaluator)

end DirectiveName

theorem Render.directive_handled {engine : Engine} {name : String} {handler : Handler}
    (found : engine.directives.find? name = some handler) (args raw : String) (scope : Scope)
    (session : Session engine) : (Render.directive name (some args) raw scope session).1 =
      match ((handler ⟨name, args, scope⟩).run (Evaluator.evaluate scope) session.evaluator).1 with
      | .ok text => .ok text
      | .error _ => .ok (comment "directive error" name) := by
  rcases ran : (handler ⟨name, args, scope⟩).run (Evaluator.evaluate scope) session.evaluator with ⟨result, after⟩
  have settled : evaluating ((handler ⟨name, args, scope⟩).run (Evaluator.evaluate scope)) session =
      (.ok result, { session with evaluator := after }) := by
    unfold evaluating
    rw [ran]
  unfold Render.directive
  rw [found]
  dsimp only
  rw [Option.getD_some, bind_ok settled]
  cases result <;> rfl

theorem DirectiveName.handsOver (name : DirectiveName) (literals : List Literal) : name.HandsOver literals where
  tokenized := name.tokenize_calling literals
  parts := Literal.list_arguments literals
  strings scope index evaluator := name.string_argument literals index scope evaluator
  values scope index evaluator := name.value_argument literals index scope evaluator
  handled custom engine handler data evaluator found := by
    obtain ⟨span, raw, read⟩ := name.read_calling literals custom
    have nodes : (Template.parse "" (name.calling literals)).nodes = _ := congrArg Prod.fst read
    change ((Render.Operation.fragment (Template.parse "" (name.calling literals)) (engine.dataScope data)).run
      { evaluator }).1 = _
    rw [Render.fragment_printing _ _ (by rw [nodes]; rfl), nodes]
    unfold Render.printing
    rw [Render.onStack_apply, Render.nodes_single, Render.node]
    exact Render.directive_handled found _ _ _ _

/-- All the scans agree on quoted literals, each of which stands for its text and goes no further than its quotes. -/
theorem literals_are_read_alike : (∀ literal : Literal, literal.ReadAlike) ∧
    ∀ (name : DirectiveName) (literals : List Literal), name.HandsOver literals :=
  ⟨Literal.readAlike, DirectiveName.handsOver⟩

end Stencil
