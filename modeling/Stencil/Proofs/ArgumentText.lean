import Stencil.Proofs.ExpressionPassage
import Stencil.Proofs.LiteralObjects
import Stencil.Proofs.TextCuts

/-! An argument as a text and as a value. The text is what the value is displayed as, but for arguments that only one
of the two readings takes for what they are: an object literal, and a quoted literal whose line is broken by a
backslash. -/

namespace Stencil.Expr.Quoted

/-- Whether a backslash stands in front of a line feed, which no text literal of an expression may have. -/
def breaksLine : List Char → Bool
  | [] => false
  | '\\' :: c :: rest => c = '\n' || breaksLine rest
  | _ :: rest => breaksLine rest

theorem breaksLine_cons {c : Char} (sign : c ≠ '\\') (text : List Char) : breaksLine (c :: text) = breaksLine text := by
  cases text <;> simp [breaksLine, sign]

variable {quote : Quote} {written : List Char}

/-- What is closed by the quote behind it can stand between quotes, if it breaks no line. -/
theorem between_of_closed (closed : Argument.breaksOff quote.char written = false)
    (whole : breaksLine written = false) :
    ∃ meant, Between quote written meant := by
  fun_induction Argument.breaksOff quote.char written with
  | case1 => exact ⟨[], .nil⟩
  | case2 => cases closed
  | case3 c rest ih =>
    obtain ⟨visible, whole⟩ := Bool.or_eq_false_iff.1 whole
    obtain ⟨meant, between⟩ := ih closed whole
    exact ⟨_, .escape (of_decide_eq_false visible) between⟩
  | case4 c rest notEnd notEscape ih =>
    have sign : c ≠ '\\' := by
      rintro rfl
      cases rest with
      | nil => exact notEnd rfl rfl
      | cons next rest => exact notEscape next rest rfl rfl
    obtain ⟨other, closed⟩ := Bool.or_eq_false_iff.1 closed
    rw [breaksLine_cons sign] at whole
    obtain ⟨meant, between⟩ := ih closed whole
    exact ⟨_, .plain sign (of_decide_eq_false other) between⟩

/-- A broken line ends the scan, so it finds no closing quote. -/
theorem scan_breaksLine (closed : Argument.breaksOff quote.char written = false) (broken : breaksLine written = true)
    (rest : List Char) : (scan quote.char (written ++ rest)).2 = none := by
  fun_induction Argument.breaksOff quote.char written with
  | case1 => cases broken
  | case2 => cases closed
  | case3 c text ih =>
    rw [List.cons_append, List.cons_append, scan]
    split
    · rfl
    next visible => exact ih closed (by simpa [breaksLine, visible] using broken)
  | case4 c text notEnd notEscape ih =>
    have sign : c ≠ '\\' := by
      rintro rfl
      cases text with
      | nil => exact notEnd rfl rfl
      | cons next text => exact notEscape next text rfl rfl
    obtain ⟨other, closed⟩ := Bool.or_eq_false_iff.1 closed
    rw [breaksLine_cons sign] at broken
    rw [List.cons_append, scan_cons sign (of_decide_eq_false other)]
    exact ih closed broken

end Stencil.Expr.Quoted

namespace Stencil.Expr
open Text Quoted

/-- Text whose first character begins no token is no expression. -/
theorem parse_stray {c : Char} {tail : List Char} (visible : isSpace c = false) (stray : (tokenAt c tail).1 = none) :
    (parse (String.ofList (c :: tail))).toOption = none := by
  have lexed : ∃ span, lex (String.ofList (c :: tail)) = .error span := by
    rw [lex, String.toList_ofList, lexFrom, visible, if_neg Bool.false_ne_true]
    rcases here : tokenAt c tail with ⟨token, further⟩
    rw [here] at stray
    cases stray
    exact ⟨_, rfl⟩
  obtain ⟨span, lexed⟩ := lexed
  rw [parse, lexed]
  rfl

theorem tokenAt_brace (tail : List Char) : (tokenAt '\x7b' tail).1 = none := by
  have unmarked : markAt? ('\x7b' :: tail) = none := by
    cases found : markAt? ('\x7b' :: tail) with
    | none => rfl
    | some sign =>
      obtain ⟨rest, split⟩ := mark_of_markAt? found
      cases sign <;> cases split
  rw [tokenAt, if_neg (by decide), if_neg (by decide), if_neg (by decide), unmarked]

theorem tokenAt_broken {quote : Quote} {written : List Char} (closed : Argument.breaksOff quote.char written = false)
    (broken : breaksLine written = true) (rest : List Char) : (tokenAt quote.char (written ++ rest)).1 = none := by
  have quoted : (quote.char = '"' || quote.char = '\'') = true := by cases quote <;> rfl
  have unended := scan_breaksLine closed broken rest
  rw [tokenAt, if_pos quoted]
  rcases scanned : scan quote.char (written ++ rest) with ⟨items, behind⟩
  rw [scanned] at unended
  cases unended
  rfl

end Stencil.Expr

namespace Stencil
open Text Expr.Quoted

/-- A text in quotes, as far as the quotes go: nothing between them closes it. -/
structure Enclosed (text : List Char) (quote : Quote) (written : List Char) : Prop where
  letters : trim text = quote.char :: (written ++ [quote.char])
  closed : Argument.breaksOff quote.char written = false

namespace Argument

theorem stringLiteral?_eq_some {text meant : List Char} :
    stringLiteral? text = some meant ↔ ∃ quote written, Enclosed text quote written ∧ decode written = meant := by
  constructor
  · intro read
    unfold stringLiteral? at read
    split at read
    · cases read
    next c rest letters =>
      split at read
      next holds =>
        simp only [Bool.and_eq_true, Bool.or_eq_true, decide_eq_true_eq, beq_iff_eq, Bool.not_eq_true'] at holds
        obtain ⟨⟨isQuote, last⟩, closed⟩ := holds
        obtain ⟨quote, rfl⟩ : ∃ quote : Quote, quote.char = c := by
          rcases isQuote with rfl | rfl
          · exact ⟨.single, rfl⟩
          · exact ⟨.double, rfl⟩
        refine ⟨quote, rest.dropLast, ⟨?_, closed⟩, Option.some.inj read⟩
        rw [letters, List.dropLast_append_getLast? quote.char last]
      next => cases read
  · rintro ⟨quote, written, enclosed, rfl⟩
    have isQuote : quote.char = '\'' ∨ quote.char = '"' := by cases quote <;> decide
    rw [stringLiteral?, enclosed.letters]
    simp [isQuote, enclosed.closed]

theorem isObject_iff {text : List Char} : isObject text = true ↔ ∃ rest, trim text = '\x7b' :: rest := by
  rw [isObject, beq_iff_eq]
  constructor
  · intro head
    obtain ⟨rest, front⟩ := List.head?_eq_some_iff.1 head
    exact ⟨trimRight rest, by rw [trim, front, trimRight_cons (by decide)]⟩
  · rintro ⟨rest, braced⟩
    rw [trim] at braced
    cases front : trimLeft text with
    | nil => rw [front] at braced; cases braced
    | cons c behind =>
      have visible : isBlank c = false := by
        have here := List.head?_dropWhile_not isBlank text
        rw [trimLeft] at front
        rw [front] at here
        simpa using here
      rw [front, trimRight_cons visible] at braced
      rw [(List.cons.inj braced).1]
      rfl

end Argument

namespace Quotation

theorem parse_letters (quotation : Quotation) :
    Expr.parse (String.ofList quotation.letters) = .ok (.literal (.string quotation.text)) := by
  have taken := Expr.lexFrom_starts (quotation.starts []) 0
  rw [List.append_nil, Expr.lexFrom_nil, Nat.zero_add] at taken
  rw [Expr.parse, Expr.lex, String.toList_ofList, taken]
  rfl

end Quotation

namespace Scope

variable {text : List Char}

/-- As an expression, a text in quotes is what it means, unless it breaks a line. -/
theorem value_enclosed {quote : Quote} {written : List Char} (enclosed : Enclosed text quote written) (scope : Scope) :
    scope.value (String.ofList text) =
      if breaksLine written then .null else .string (String.ofList (decode written)) := by
  rw [value, trimmed, String.toList_ofList, enclosed.letters]
  split
  next broken =>
    have visible : Expr.isSpace quote.char = false := by cases quote <;> rfl
    rw [Expr.parse_stray visible (Expr.tokenAt_broken enclosed.closed broken _)]
    rfl
  next whole =>
    obtain ⟨meant, between⟩ := between_of_closed enclosed.closed (Bool.not_eq_true _ ▸ whole)
    have parsed := Quotation.parse_letters ⟨quote, written, String.ofList meant, by rwa [String.toList_ofList]⟩
    rw [Quotation.letters] at parsed
    rw [parsed, between.decode]
    rfl

/-- An object literal is no expression. -/
theorem value_object (object : Argument.isObject text = true) (scope : Scope) :
    scope.value (String.ofList text) = .null := by
  obtain ⟨rest, braced⟩ := Argument.isObject_iff.1 object
  rw [value, trimmed, String.toList_ofList, braced, Expr.parse_stray (by decide) (Expr.tokenAt_brace rest)]
  rfl

theorem argument_expression {part : String} (plain : Argument.isObject part.toList = false) (scope : Scope) :
    scope.argument part = scope.value part := by
  rw [argument, Argument.read, plain, if_neg Bool.false_ne_true, String.ofList_toList]
  rfl

theorem argument_object {part : String} (object : Argument.isObject part.toList = true) (scope : Scope) :
    ∃ fields, scope.argument part = .object fields := by
  rw [argument, Argument.read, object, if_pos rfl]
  exact ⟨_, rfl⟩

end Scope

namespace Call

/-- The text of a part, given what expressions evaluate to. -/
def textBy (expression : String → Value) (part : String) : String :=
  match Argument.stringLiteral? part.toList with
  | some text => String.ofList text
  | none => (expression part).display

theorem string?_resultBy (call : Call) (index : Nat) (expression : String → Value) :
    (call.string? index).resultBy expression = call.parts[index]?.map (textBy expression) := by
  unfold string? textBy
  cases call.parts[index]? with
  | none => rfl
  | some part =>
    simp only [Option.map_some]
    cases Argument.stringLiteral? part.toList <;> rfl

/-- The argument is a literal in quotes that has a backslash in front of a line feed. -/
def IsBroken (part : String) : Prop := ∃ quote written, Enclosed part.toList quote written ∧ breaksLine written = true

variable {part : String} (scope : Scope)

theorem textBy_object (object : Argument.isObject part.toList = true) : textBy scope.value part = "" := by
  have unquoted : Argument.stringLiteral? part.toList = none := by
    apply Option.eq_none_iff_forall_ne_some.2
    intro meant read
    obtain ⟨quote, written, enclosed, -⟩ := Argument.stringLiteral?_eq_some.1 read
    obtain ⟨rest, braced⟩ := Argument.isObject_iff.1 object
    have same := (List.cons.inj (enclosed.letters.symm.trans braced)).1
    cases quote <;> cases same
  have null := Scope.value_object object scope
  rw [String.ofList_toList] at null
  rw [textBy, unquoted, null]
  rfl

theorem display_object_ne (fields : Fields Value) : (Value.object fields).display ≠ "" := by
  intro same
  have letters := congrArg String.toList same
  simp [Value.display, Json.compact, Json.openBrace] at letters

theorem decode_ne_nil {written : List Char} (filled : written ≠ []) : decode written ≠ [] := by
  fun_cases decode written with
  | case1 => exact absurd rfl filled
  | case2 => exact List.cons_ne_nil _ _
  | case3 => exact List.cons_ne_nil _ _

/-- For a quoted literal that breaks no line both readings give its text; for one that does, the value is null. -/
theorem textBy_enclosed {quote : Quote} {written : List Char} (enclosed : Enclosed part.toList quote written) :
    textBy scope.value part = (scope.value part).display ↔ breaksLine written = false := by
  have read := Argument.stringLiteral?_eq_some.2 ⟨quote, written, enclosed, rfl⟩
  have value := Scope.value_enclosed enclosed scope
  rw [String.ofList_toList] at value
  rw [textBy, read, value]
  dsimp only
  split
  next broken =>
    have filled : decode written ≠ [] := decode_ne_nil (by rintro rfl; cases broken)
    simp [Value.display, String.ofList_eq_empty_iff, filled, broken]
  next whole => simp [Value.display, whole]

theorem textBy_iff : textBy scope.value part = (scope.argument part).display ↔
    Argument.isObject part.toList = false ∧ ¬IsBroken part := by
  cases object : Argument.isObject part.toList with
  | true =>
    obtain ⟨fields, value⟩ := Scope.argument_object object scope
    rw [textBy_object scope object, value]
    simpa using (display_object_ne fields).symm
  | false =>
    rw [Scope.argument_expression object]
    cases read : Argument.stringLiteral? part.toList with
    | none =>
      have whole : ¬IsBroken part := by
        rintro ⟨quote, written, enclosed, -⟩
        rw [Argument.stringLiteral?_eq_some.2 ⟨quote, written, enclosed, rfl⟩] at read
        cases read
      simp [textBy, read, whole]
    | some meant =>
      obtain ⟨quote, written, enclosed, -⟩ := Argument.stringLiteral?_eq_some.1 read
      rw [textBy_enclosed scope enclosed]
      constructor
      · rintro whole
        refine ⟨rfl, ?_⟩
        rintro ⟨quote', written', enclosed', broken⟩
        have same := (List.cons.inj (enclosed.letters.symm.trans enclosed'.letters)).2
        obtain ⟨rfl, -⟩ := List.append_inj' same rfl
        cases whole.symm.trans broken
      · exact fun ⟨_, whole⟩ => Bool.eq_false_iff.2 fun broken => whole ⟨quote, written, enclosed, broken⟩

/-- How the argument at a place reads as a text and as a value. -/
structure TextsAgree (call : Call) (index : Nat) (scope : Scope) : Prop where
  /-- There is a text exactly when there is a value. -/
  present : ∀ evaluator evaluator', ((call.string? index).run (Evaluator.evaluate scope) evaluator).1.isSome =
    ((call.value? index).run (Evaluator.evaluate scope) evaluator').1.isSome
  /-- The text is what the value is displayed as, exactly if the argument neither is written as an object nor is a
  quoted literal with a broken line. -/
  agree {part : String} : call.parts[index]? = some part → ∀ evaluator evaluator',
    ((call.string? index).run (Evaluator.evaluate scope) evaluator).1 =
        ((call.value? index).run (Evaluator.evaluate scope) evaluator').1.map Value.display ↔
      Argument.isObject part.toList = false ∧ ¬IsBroken part

theorem texts_agree (call : Call) (index : Nat) (scope : Scope) : call.TextsAgree index scope where
  present evaluator evaluator' := by
    rw [Query.run_fst, Query.run_fst, string?_resultBy, value?_resultBy, Option.isSome_map, Option.isSome_map]
  agree {part} found evaluator evaluator' := by
    rw [Query.run_fst, Query.run_fst, string?_resultBy, value?_resultBy, found, ← textBy_iff scope]
    exact Option.some_inj

/-- A directive with an object for its argument. -/
def flags : Call := ⟨"up", "\x7b a: true \x7d", {}⟩

theorem argument_flags (scope : Scope) : scope.argument flags.raw = .object [("a", .bool true)] := by
  have object : Argument.isObject flags.raw.toList = true := by decide
  have members : Argument.objectMembers? flags.raw.toList = some [("a".toList, "true".toList)] := by decide
  have value : scope.argument "true" = .bool true := (Item.bool Expr.nestingCap true).value_read scope
  rw [Scope.argument, Argument.read, if_pos object, Argument.readMembers_of members]
  exact congrArg (fun value => Value.object (Fields.ofEntries [("a", value)])) value

/-- The object is displayed, but the text of the argument is empty. -/
theorem object_has_no_text :
    ((flags.string? 0).run (Evaluator.evaluate flags.scope) .empty).1 = some "" ∧
    ((flags.value? 0).run (Evaluator.evaluate flags.scope) .empty).1.map Value.display =
      some "\x7b\"a\":true\x7d" := by
  have parts : flags.parts[0]? = some flags.raw := by decide
  rw [Query.run_fst, Query.run_fst, string?_resultBy, value?_resultBy, parts]
  refine ⟨congrArg some (textBy_object _ (by decide)), ?_⟩
  exact congrArg (fun value => some value.display) (argument_flags flags.scope)

end Call
end Stencil
