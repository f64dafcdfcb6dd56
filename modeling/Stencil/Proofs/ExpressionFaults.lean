import Mathlib.Data.List.Nodup
import Mathlib.Order.Bounds.Basic
import Stencil.Proofs.ExpressionGrammar

/-! Where an expression breaks off and what is said about it. A reading stops in front of the
first token that no expression has at this place. The grammar alone therefore tells the place,
the token and what could have stood there instead. -/

namespace Stencil.Expr
open Text

theorem State.leads_of_run {tokens : List (Located Token)} {before after : State}
    (ran : before.run tokens = (after, none)) : before.Leads (tokens.map Located.value) after := by
  induction tokens generalizing before with
  | nil => exact congrArg some (Prod.mk.inj ran).1
  | cons token tokens ih =>
    unfold State.run at ran
    split at ran
    next next step => exact .cons step (ih ran)
    next => cases ran

/-- What is read as an expression is cut into tokens that stand for it. -/
theorem lexes_of_parse {text : String} {whole : Expr} (parsed : parse text = .ok whole) :
    ∃ tokens, lex text = .ok tokens ∧ Derives 0 (tokens.map Located.value) whole := by
  unfold parse at parsed
  split at parsed
  · cases parsed
  next tokens lexed =>
    split at parsed
    · cases parsed
    · unfold ofTokens at parsed
      split at parsed
      · cases parsed
      next state ran =>
        split at parsed
        next finished =>
          cases parsed
          exact ⟨tokens, lexed, derives_iff.2 ⟨state, State.leads_of_run ran, finished⟩⟩
        next => cases parsed

theorem State.run_stops {tokens : List (Located Token)} {before after : State} {token : Located Token}
    (ran : before.run tokens = (after, some token)) :
    ∃ front back, tokens = front ++ token :: back ∧ before.Leads (front.map Located.value) after ∧
      after.step? token.value = none := by
  induction tokens generalizing before with
  | nil => cases ran
  | cons first tokens ih =>
    unfold State.run at ran
    split at ran
    next next step =>
      obtain ⟨front, back, rfl, leads, stuck⟩ := ih ran
      exact ⟨first :: front, back, rfl, .cons step leads, stuck⟩
    next stuck =>
      cases ran
      exact ⟨[], tokens, rfl, .nil _, stuck⟩

theorem Viable.take {tokens : List (Located Token)} (viable : Viable (tokens.map Located.value)) (count : Nat) :
    Viable ((tokens.take count).map Located.value) := by
  rw [← List.take_append_drop count tokens, List.map_append] at viable
  exact viable.of_append

/-- What is expected could stand behind the tokens. -/
def Continues (tokens : List Token) : Expected → Prop
  | .mark sign => Viable (tokens ++ [.mark sign])
  | .finish => IsExpression tokens

section State
variable {tokens : List Token} {state : State} (leads : State.Leads {} tokens state)
include leads

theorem viable_append_iff (token : Token) : Viable (tokens ++ [token]) ↔ (state.step? token).isSome := by
  rw [viable_iff, Option.isSome_iff_exists]
  refine exists_congr fun next => ?_
  unfold State.Leads at leads ⊢
  rw [List.foldlM_append, leads]
  simp

theorem isExpression_iff_finish : IsExpression tokens ↔ state.finish?.isSome := by
  rw [isExpression_iff]
  constructor
  · rintro ⟨last, reached, finished⟩
    rwa [Option.some.inj (leads.symm.trans reached)]
  · exact fun finished => ⟨state, leads, finished⟩

theorem mem_expectations (expected : Expected) : expected ∈ state.expectations ↔ Continues tokens expected := by
  cases expected with
  | mark sign => simp [State.expectations, State.expected, Continues, viable_append_iff leads, Mark.mem_all]
  | finish => simp [State.expectations, Continues, isExpression_iff_finish leads]

end State

theorem State.expectations_nodup (state : State) : state.expectations.Nodup := by
  have marks : (state.expected.map Expected.mark).Nodup :=
    List.Nodup.map (fun _ _ same => Expected.mark.inj same) (List.Nodup.filter _ (by decide : Mark.all.Nodup))
  unfold State.expectations
  split
  · refine List.nodup_append.2 ⟨marks, by simp, ?_⟩
    rintro _ mark _ finish rfl
    simp_all
  · simpa using marks

/-- The diagnostic names what was found and everything that could have stood behind the tokens
before it. -/
structure Blames (before : List Token) (found : Option Token) (diagnostic : Diagnostic) : Prop where
  message : diagnostic.message = "Unexpected " ++ (found.map Token.describe).getD endName
  problem : ∃ expected, diagnostic.problem = .unexpected found expected ∧ expected.Nodup ∧
    ∀ expectation, expectation ∈ expected ↔ Continues before expectation
  names : ∀ name, name ∈ diagnostic.expected ↔
    ∃ expectation, Continues before expectation ∧ expectation.describe = name

theorem blames_of_leads {tokens : List Token} {state : State} (leads : State.Leads {} tokens state)
    (found : Option Token) (span : Span) : Blames tokens found ⟨span, .unexpected found state.expectations⟩ where
  message := by cases found <;> rfl
  problem := ⟨state.expectations, rfl, state.expectations_nodup, mem_expectations leads⟩
  names name := by simp [Diagnostic.expected, ← mem_expectations leads]

/-- Counted from zero, the first token that goes past every expression. -/
def BreaksAt (tokens : List (Located Token)) (position : Nat) : Prop :=
  IsLeast {count | count < tokens.length ∧ ¬ Viable ((tokens.take (count + 1)).map Located.value)} position

theorem breaksAt_of_stuck {front back : List (Located Token)} {token : Located Token} {state : State}
    (leads : State.Leads {} (front.map Located.value) state) (stuck : state.step? token.value = none) :
    BreaksAt (front ++ token :: back) front.length := by
  refine ⟨⟨by simp, ?_⟩, ?_⟩
  · rw [List.take_length_add_append, List.map_append]
    simp [viable_append_iff leads, stuck]
  · rintro count ⟨-, lost⟩
    by_contra earlier
    have short : count + 1 ≤ front.length := Nat.not_le.1 earlier
    apply lost
    rw [List.take_append_of_le_length short]
    exact (viable_iff.2 ⟨state, leads⟩).take (count + 1)

/-- A text that is cut into tokens and not nested too deeply, but is no expression, is blamed on
the first token that goes past every expression, and on its end if there is no such token. -/
theorem fault_located {text : String} {tokens : List (Located Token)} (lexed : lex text = .ok tokens)
    (shallow : Nesting.excess? {} tokens = none) (broken : ¬ IsExpression (tokens.map Located.value)) :
    ∃ diagnostic, parse text = .error diagnostic ∧
      (∀ position, BreaksAt tokens position → ∃ token, tokens[position]? = some token ∧
        diagnostic.span = token.span ∧
        Blames ((tokens.take position).map Located.value) (some token.value) diagnostic) ∧
      (Viable (tokens.map Located.value) → diagnostic.span = endSpan (byteLength text.toList) tokens ∧
        Blames (tokens.map Located.value) none diagnostic) := by
  have parsed : parse text = ofTokens (byteLength text.toList) tokens := by
    simp only [parse, lexed, shallow]
  rw [parsed, ofTokens]
  cases ran : State.run {} tokens with
  | mk state stop =>
    cases stop with
    | none =>
      have leads := State.leads_of_run ran
      have unfinished : state.finish? = none := by
        simpa using mt (isExpression_iff_finish leads).2 broken
      simp only [unfinished]
      have whole : Viable (tokens.map Located.value) := viable_iff.2 ⟨state, leads⟩
      refine ⟨_, rfl, fun position breaks => ?_, fun _ => ⟨rfl, blames_of_leads leads _ _⟩⟩
      exact absurd (whole.take (position + 1)) breaks.1.2
    | some token =>
      obtain ⟨front, back, rfl, leads, stuck⟩ := State.run_stops ran
      refine ⟨_, rfl, fun position breaks => ?_, fun viable => ?_⟩
      · obtain rfl : position = front.length := IsLeast.unique breaks (breaksAt_of_stuck leads stuck)
        refine ⟨token, by simp, rfl, ?_⟩
        rw [List.take_left' rfl]
        exact blames_of_leads leads _ _
      · rw [List.map_append, List.map_cons, List.append_cons] at viable
        have unstuck := (viable_append_iff leads token.value).1 viable.of_append
        simp [stuck] at unstuck

/-- The tokens of `[a, (b]`. The parenthesis would have to be closed first. -/
def crossedBrackets : List (Located Token) :=
  [⟨.mark .bracketOpen, ⟨0, 1⟩⟩, ⟨.ident "a", ⟨1, 2⟩⟩, ⟨.mark .comma, ⟨2, 3⟩⟩, ⟨.mark .parenOpen, ⟨4, 5⟩⟩,
    ⟨.ident "b", ⟨5, 6⟩⟩, ⟨.mark .bracketClose, ⟨6, 7⟩⟩]

theorem lex_crossedBrackets : lex "[a, (b]" = .ok crossedBrackets := by
  change lexFrom 0 (['['] ++ (['a'] ++ ([','] ++ ' ' :: (['('] ++ (['b'] ++ ([']'] ++ [])))))) = _
  rw [lexFrom_starts ⟨_, _, rfl, rfl, rfl⟩, lexFrom_starts ⟨_, _, rfl, rfl, rfl⟩,
    lexFrom_starts ⟨_, _, rfl, rfl, rfl⟩, lexFrom_space, lexFrom_starts ⟨_, _, rfl, rfl, rfl⟩,
    lexFrom_starts ⟨_, _, rfl, rfl, rfl⟩, lexFrom_starts ⟨_, _, rfl, rfl, rfl⟩, lexFrom_nil]
  rfl

theorem fault_located_crossedBrackets :
    lex "[a, (b]" = .ok crossedBrackets ∧ Nesting.excess? {} crossedBrackets = none ∧
      ¬ IsExpression (crossedBrackets.map Located.value) ∧
      ∃ diagnostic, parse "[a, (b]" = .error diagnostic ∧ diagnostic.span = ⟨6, 7⟩ ∧
        Blames [.mark .bracketOpen, .ident "a", .mark .comma, .mark .parenOpen, .ident "b"]
          (some (.mark .bracketClose)) diagnostic := by
  have stuck : BreaksAt crossedBrackets 5 :=
    @breaksAt_of_stuck (crossedBrackets.take 5) [] ⟨.mark .bracketClose, ⟨6, 7⟩⟩
      ⟨[.group, .items [.variable "a"]], .complete (.variable "b")⟩ rfl rfl
  have broken : ¬ IsExpression (crossedBrackets.map Located.value) :=
    fun whole => stuck.1.2 ⟨[], whole⟩
  have shallow : Nesting.excess? {} crossedBrackets = none := by decide
  obtain ⟨diagnostic, failed, blamed, -⟩ := fault_located lex_crossedBrackets shallow broken
  obtain ⟨token, here, span, blames⟩ := blamed 5 stuck
  cases here
  exact ⟨lex_crossedBrackets, shallow, broken, diagnostic, failed, span, blames⟩

end Stencil.Expr
