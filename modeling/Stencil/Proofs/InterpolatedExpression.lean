import Stencil.Proofs.EscapedOutput
import Stencil.Proofs.ExpressionNesting
import Stencil.Proofs.TokenTiling

/-! Expressions in interpolations. The blanks around an expression are spaces and no part of a token, so it is read the
same without them. Between the marks of an interpolation it is read as a whole unless the closing mark stands in it. -/

namespace Stencil
open Text

namespace Expr

/-- What is read of an expression depends on its tokens and not on where they stand. -/
theorem parse_of_values {text other : String} {tokens tokens' : List (Located Token)} {whole : Expr}
    (parsed : parse text = .ok whole) (lexed : lex text = .ok tokens) (lexed' : lex other = .ok tokens')
    (same : tokens'.map Located.value = tokens.map Located.value) : parse other = .ok whole := by
  obtain ⟨found, lexed'', derives⟩ := lexes_of_parse parsed
  rw [lexed] at lexed''
  obtain rfl := Except.ok.inj lexed''
  have fits : Nesting.fits {} (tokens.map Located.value) = true := by
    apply Bool.not_eq_false _ |>.mp
    intro deep
    obtain ⟨span, failed⟩ := parse_of_not_fits lexed deep
    rw [parsed] at failed
    cases failed
  rw [← same] at fits derives
  exact parse_of_fits lexed' fits derives

/-- A token is as long without some of the text behind it. -/
theorem Longest.shortened {text more written : List Char} {pattern : Pattern}
    (longest : Longest (text ++ more) pattern written) (begins : written <+: text) : Longest text pattern written where
  matched := longest.matched
  begins := begins
  longest other _ member within := longest.longest other _ member (within.trans (List.prefix_append text more))
  preferred := longest.preferred

namespace Cut
variable {position : Nat} {text behind : List Char} {tokens : List (Located Token)}

/-- Without what is behind them the characters are cut the same. -/
theorem alone (cut : Cut behind position text tokens) : Cut [] position text tokens := by
  induction cut with
  | nil => exact .nil
  | space space rest ih => exact .space space ih
  | @token position written text tokens pattern token longest means rest ih =>
    refine .token ?_ means ih
    rw [← List.append_assoc] at longest
    rw [List.append_nil]
    exact longest.shortened (List.prefix_append written text)

/-- No token begins with a blank. -/
theorem visible {blanks : List Char} (blank : ∀ c ∈ blanks, isBlank c = true)
    (cut : Cut behind position (blanks ++ text) tokens) : Cut behind (position + byteLength blanks) text tokens := by
  induction blanks generalizing position with
  | nil => exact cut
  | cons c blanks ih =>
    obtain ⟨here, others⟩ := List.forall_mem_cons.mp blank
    generalize whole : c :: blanks ++ text = all at cut
    cases cut with
    | nil => cases whole
    | space space rest =>
      obtain ⟨rfl, rfl⟩ := List.cons.inj whole
      rw [byteLength, ← Nat.add_assoc]
      exact ih others rest
    | token longest means rest =>
      obtain ⟨d, tail, rfl, _⟩ := Pattern.begins longest.matched
      obtain ⟨_, first, _⟩ := tokenAt_of_longest longest means
      obtain ⟨rfl, _⟩ := List.cons.inj whole
      rw [isBlank_of_tokenAt first] at here
      cases here

/-- The blanks around an expression are spaces, and it has the same tokens without them. -/
theorem trimmed (cut : Cut [] 0 text tokens) :
    ∃ tokens', Cut [] 0 (trim text) tokens' ∧ tokens'.map Located.value = tokens.map Located.value := by
  rcases cut.last with ⟨rfl, blank⟩ | ⟨front, c, gap, token, rfl, visible, blank, _, _, short⟩
  · have none : trimLeft text = [] := List.dropWhile_eq_nil_iff.mpr fun c inside => isBlank_of_isSpace (blank c inside)
    refine ⟨[], ?_, rfl⟩
    rw [trim, none]
    exact .nil
  · have none : trimRight gap = [] := by
      have blanks : gap.reverse.dropWhile isBlank = [] :=
        List.dropWhile_eq_nil_iff.mpr fun d inside => isBlank_of_isSpace (blank d (List.mem_reverse.mp inside))
      rw [trimRight, blanks, List.reverse_nil]
    obtain ⟨blanks, leading, parted⟩ := trimLeft_append front
    rw [trim_sign front visible, none]
    rw [parted, List.append_assoc] at short
    exact (short.alone.visible leading).moved 0

end Cut

theorem parse_trimmed {text : String} {whole : Expr} (parsed : parse text = .ok whole) :
    parse (Text.trimmed text) = .ok whole := by
  obtain ⟨tokens, lexed, _⟩ := lexes_of_parse parsed
  have cut := cut_lexFrom 0 text.toList
  rw [show lexFrom 0 text.toList = .ok tokens from lexed] at cut
  obtain ⟨tokens', cut, same⟩ := cut.trimmed
  exact parse_of_values parsed lexed cut.lex same

end Expr
namespace Template

/-- The marks around an escaped interpolation or a raw one. -/
def marksOf (raw : Bool) : List Char × List Char := if raw then rawMarks else echoMarks

/-- The template that is one interpolation, with a space on either side of the expression. -/
def interpolation (raw : Bool) (text : String) : String :=
  String.ofList ((marksOf raw).1 ++ ' ' :: (text.toList ++ ' ' :: (marksOf raw).2))

section Enclosed
variable {raw : Bool} {inside rest : List Char}

theorem pieceAt_marks {c : Char} {tail : List Char} (inWord : Bool) (split : c :: tail = (marksOf raw).1 ++ ' ' :: rest) :
    pieceAt inWord c tail = markedPiece (marksOf raw) c tail (echoOf raw) := by
  cases raw with
  | true =>
    obtain ⟨rfl, rfl⟩ : c = '\x7b' ∧ tail = '!' :: '!' :: ' ' :: rest := by simpa [marksOf, rawMarks] using split
    simp [pieceAt, opensWith, stripPrefix?, commentMarks, rawMarks, marksOf]
  | false =>
    obtain ⟨rfl, rfl⟩ : c = '\x7b' ∧ tail = '\x7b' :: ' ' :: rest := by simpa [marksOf, echoMarks] using split
    simp [pieceAt, opensWith, stripPrefix?, commentMarks, rawMarks, echoMarks, marksOf]

/-- The first token of a text that opens with the mark of an interpolation and a space. -/
theorem tokenizeFrom_marks {source : List Char}
    (whole : source = (marksOf raw).1 ++ (' ' :: inside ++ (marksOf raw).2 ++ rest))
    (found : enclosed? (marksOf raw) source = some (' ' :: inside)) : tokenizeFrom 0 {} source =
      ⟨.echo (String.ofList (trim (' ' :: inside))) raw,
          ⟨0, byteLength ((marksOf raw).1 ++ ' ' :: inside ++ (marksOf raw).2)⟩⟩ ::
        tokenizeFrom (byteLength ((marksOf raw).1 ++ ' ' :: inside ++ (marksOf raw).2)) {} rest := by
  have opened : (marksOf raw).1 ≠ [] := by cases raw <;> decide
  cases source with
  | nil =>
    have none := (List.append_eq_nil_iff.mp whole.symm).1
    exact absurd none opened
  | cons c tail =>
    have taken := take_enclosed opened found
    have parted : c :: tail.take (enclosedWidth (marksOf raw) (' ' :: inside)) ++
        tail.drop (enclosedWidth (marksOf raw) (' ' :: inside)) = c :: tail := by
      rw [List.cons_append, List.take_append_drop]
    have left : tail.drop (enclosedWidth (marksOf raw) (' ' :: inside)) = rest := by
      rw [taken, whole, ← List.append_assoc, ← List.append_assoc] at parted
      exact List.append_cancel_left parted
    have stop : 0 + c.utf8Size + byteLength (tail.take (enclosedWidth (marksOf raw) (' ' :: inside))) =
        byteLength ((marksOf raw).1 ++ ' ' :: inside ++ (marksOf raw).2) := by
      rw [← taken, Nat.zero_add]
      rfl
    rw [tokenizeFrom, pieceAt_marks _ (by rw [whole, List.cons_append, List.cons_append]), markedPiece, found]
    dsimp only [echoOf]
    rw [stop, left]
    rfl

/-- What the first closing mark leaves of the expression, and of the text behind. -/
theorem tokenize_cut {text : String} {front : List Char}
    (cut : cutFirst? (marksOf raw).2 (text.toList ++ ' ' :: (marksOf raw).2) = some (front, rest)) :
    tokenize (interpolation raw text) =
      ⟨.echo (String.ofList (trim (' ' :: front))) raw,
          ⟨0, byteLength ((marksOf raw).1 ++ ' ' :: front ++ (marksOf raw).2)⟩⟩ ::
        tokenizeFrom (byteLength ((marksOf raw).1 ++ ' ' :: front ++ (marksOf raw).2)) {} rest := by
  have absent : ' ' ∉ (marksOf raw).2 := by cases raw <;> decide
  have nothing : ¬ (marksOf raw).2 <:+: [] := by cases raw <;> decide
  have split := cutFirst?_eq_append cut
  have spaced := cutFirst?_absent absent nothing (text.toList ++ ' ' :: (marksOf raw).2)
  rw [cut, List.nil_append, split, List.append_assoc] at spaced
  have whole : (marksOf raw).1 ++ ' ' :: (text.toList ++ ' ' :: (marksOf raw).2) =
      (marksOf raw).1 ++ (' ' :: front ++ (marksOf raw).2 ++ rest) := by
    rw [split]
    rfl
  have found : enclosed? (marksOf raw) ((marksOf raw).1 ++ ' ' :: (text.toList ++ ' ' :: (marksOf raw).2)) =
      some (' ' :: front) := by
    refine enclosed?_eq_some.mpr ⟨rest, whole, ?_⟩
    simpa using spaced
  unfold tokenize interpolation
  rw [String.toList_ofList]
  exact tokenizeFrom_marks whole found

end Enclosed

/-- The scan takes an interpolation for a whole one exactly if its closing mark does not stand in the expression. -/
theorem tokenize_interpolation (raw : Bool) (text : String) : tokenize (interpolation raw text) =
      [⟨.echo (Text.trimmed text) raw, ⟨0, byteLength (interpolation raw text).toList⟩⟩] ↔
    ¬ (marksOf raw).2 <:+: text.toList := by
  have filled : (marksOf raw).2 ≠ [] := by cases raw <;> decide
  have absent : ' ' ∉ (marksOf raw).2 := by cases raw <;> decide
  constructor
  · intro single inside
    obtain ⟨⟨front, rest⟩, cut⟩ : ∃ found,
        cutFirst? (marksOf raw).2 (text.toList ++ ' ' :: (marksOf raw).2) = some found := by
      apply Option.ne_none_iff_exists'.mp
      intro none
      exact cutFirst?_eq_none.mp none (inside.trans (List.prefix_append _ _).isInfix)
    rw [tokenize_cut cut] at single
    have split := cutFirst?_eq_append cut
    have place := congrArg (fun lexeme => lexeme.span.stop) (List.cons.inj single).1
    have longer : (interpolation raw text).toList = (marksOf raw).1 ++ ' ' :: front ++ (marksOf raw).2 ++ rest := by
      rw [interpolation, String.toList_ofList, split]
      simp
    obtain rfl : rest = [] := by
      apply eq_nil_of_byteLength
      rw [longer, byteLength_append _ rest] at place
      dsimp only at place
      omega
    have same : front = text.toList ++ [' '] := by
      rw [List.append_nil, List.append_cons] at split
      exact (List.append_cancel_right split).symm
    exact not_infix_of_cutFirst? filled cut (same ▸ inside.trans (List.prefix_append _ _).isInfix)
  · intro kept
    have here : cutFirst? (marksOf raw).2 (marksOf raw).2 = some ([], []) := by cases raw <;> rfl
    have cut := cutFirst?_absent absent kept (marksOf raw).2
    rw [here] at cut
    have blank : ∀ c ∈ [' '], isBlank c = true := List.forall_mem_singleton.mpr (Expr.isBlank_of_isSpace rfl)
    have trimmed : trim (' ' :: (text.toList ++ [' '])) = trim text.toList :=
      (trim_blank_append blank (text.toList ++ [' '])).trans (trim_append_blank text.toList blank)
    rw [tokenize_cut cut, tokenizeFrom, trimmed]
    simp [interpolation, Text.trimmed, Pending.flush]

theorem read_interpolation {raw : Bool} {text : String} (kept : ¬ (marksOf raw).2 <:+: text.toList) :
    read (interpolation raw text) =
      ([.echo ⟨0, byteLength (interpolation raw text).toList⟩ (Text.trimmed text) !raw], []) := by
  apply items_iff_read.mp
  rw [(tokenize_interpolation raw text).mpr kept]
  exact .leaf .echo .nil

end Template

/-- The template prints this text of the variables that it is rendered with, at whatever place and whatever has been
read before. -/
structure Displays (source : String) (shown : Scope → String) : Prop where
  inline : ∀ (engine : Engine) (data : Value) (evaluator : Evaluator),
    (engine.renderInline source data evaluator).1 = .ok (shown (engine.dataScope data))
  nested : ∀ {engine : Engine} (below : Render.Below engine) (scope : Scope) (session : Session engine),
    (Render.source below source scope session).1 = .ok (shown scope)

theorem displays_nodes {source : String} {nodes : List Template.Node} {shown : Scope → String}
    (read : Template.read source = (nodes, [])) (alone : Render.extension? nodes = none)
    (gives : ∀ {engine : Engine} (below : Render.Below engine) scope,
      Render.Gives (Render.nodes below [] nodes scope) (shown scope)) : Displays source shown := by
  have nested {engine : Engine} (below : Render.Below engine) (scope : Scope) :
      Render.Gives (Render.source below source scope) (shown scope) := by
    have whole : (Template.parse "" source).nodes = nodes := congrArg Prod.fst read
    unfold Render.source Render.fragment Render.layout
    rw [whole, alone]
    exact (gives below scope).unwinding
  constructor
  · intro engine data evaluator
    obtain ⟨after, ran, _⟩ := nested (Render.levels engine engine.config.maxDepth) (engine.dataScope data) { evaluator }
    exact congrArg Prod.fst ran
  · intro engine below scope session
    obtain ⟨after, ran, _⟩ := nested below scope session
    exact congrArg Prod.fst ran

/-- Between the marks of an interpolation an expression is taken as a whole exactly if the closing mark does not stand
in it, and then what it evaluates to is printed, escaped or as it is. -/
theorem interpolation_prints_value {text : String} {whole : Expr} (parsed : Expr.parse text = .ok whole) (raw : Bool) :
    (∀ scope evaluator, (Evaluator.evaluate scope text evaluator).1 = whole.eval scope) ∧
    (Template.tokenize (Template.interpolation raw text) =
        [⟨.echo (trimmed text) raw, ⟨0, byteLength (Template.interpolation raw text).toList⟩⟩] ↔
      ¬ (Template.marksOf raw).2 <:+: text.toList) ∧
    (¬ (Template.marksOf raw).2 <:+: text.toList → Displays (Template.interpolation raw text) fun scope =>
      if raw then (whole.eval scope).display else Render.escaped (whole.eval scope)) := by
  have trimmed := Expr.parse_trimmed parsed
  refine ⟨?_, Template.tokenize_interpolation raw text, ?_⟩
  · intro scope evaluator
    rw [Evaluator.evaluate_fst, Scope.value_of_parse trimmed]
  · intro kept
    refine displays_nodes (Template.read_interpolation kept) rfl ?_
    intro engine below scope
    have printed := @Render.Gives.echo engine below scope [] ⟨0, byteLength (Template.interpolation raw text).toList⟩
      (Text.trimmed text) (!raw)
    rw [Scope.value_of_parse (Expr.parse_trimmed trimmed)] at printed
    rw [Render.nodes_single]
    cases raw <;> exact printed

/-- One brace between the quotes closes nothing. -/
theorem braced_literal_is_printed : Displays (Template.interpolation false "'\x7d'") fun _ => "\x7d" := by
  have parsed : Expr.parse "'\x7d'" = .ok (.literal (.string "\x7d")) := Literal.parse_spelling ⟨.single, "\x7d"⟩
  have displays := (interpolation_prints_value parsed false).2.2 (by decide)
  have text : Render.escaped (.string "\x7d") = "\x7d" := by decide
  change Displays _ fun _ => Render.escaped (.string "\x7d") at displays
  rwa [text] at displays

/-- Two braces do, and most of the literal is taken for text. -/
theorem braces_literal_is_cut : Expr.parse "'\x7d\x7d'" = .ok (.literal (.string "\x7d\x7d")) ∧
    Displays (Template.interpolation false "'\x7d\x7d'") fun _ => "' \x7d\x7d" := by
  refine ⟨Literal.parse_spelling ⟨.single, "\x7d\x7d"⟩, ?_⟩
  have tokens : Template.tokenize (Template.interpolation false "'\x7d\x7d'") =
      [⟨.echo "'" false, ⟨0, 6⟩⟩, ⟨.text "' \x7d\x7d", ⟨6, 10⟩⟩] := by decide +kernel
  have read : Template.read (Template.interpolation false "'\x7d\x7d'") =
      ([.echo ⟨0, 6⟩ "'" true, .text ⟨6, 10⟩ "' \x7d\x7d"], []) := by
    apply Template.items_iff_read.mp
    rw [tokens]
    exact .leaf .echo (.text (by rintro _ _ _ ⟨⟩) .nil)
  refine displays_nodes read rfl ?_
  intro engine below scope
  have open_ : Expr.lex "'" = .error ⟨0, 1⟩ := by
    change Expr.lexFrom 0 ['\''] = _
    rw [Expr.lexFrom]
    rfl
  have none : scope.value "'" = .null := by
    unfold Scope.value
    rw [show trimmed "'" = "'" by decide, Expr.parse, open_]
    rfl
  have printed := @Render.Gives.echo engine below scope [] ⟨0, 6⟩ "'" true
  rw [none] at printed
  have text : Render.Gives (Render.node below [] (.text ⟨6, 10⟩ "' \x7d\x7d") scope) "' \x7d\x7d" := .pure _
  exact printed.nodes_cons (text.nodes_cons .nodes_nil)

end Stencil
