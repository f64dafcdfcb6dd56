import Stencil.Proofs.BlockAccount
import Stencil.Proofs.ExpressionFaults
import Stencil.Proofs.TokenTiling

/-! Where problems are reported. The spans come from stray characters, from tokens and from the end of the text, and
from directives of a template. All but one are around some characters: the end of an expression is reported from behind
the last space back to behind the last token. -/

namespace Stencil
open Text

/-- Between characters of the text, but possibly back to front. -/
structure Text.Span.Bounded (text : List Char) (span : Span) : Prop where
  starts : Boundary text span.start
  stops : Boundary text span.stop

theorem Text.Span.Fits.bounded {text : List Char} {span : Span} (fits : span.Fits text) : span.Bounded text :=
  ⟨fits.starts, fits.stops⟩

namespace Expr

theorem Tiling.fits {front behind : List Char} {tokens : List (Located Token)} (tiling : Tiling front behind tokens) :
    ∀ token ∈ tokens, token.span.Fits (front ++ behind) := by
  intro token member
  obtain ⟨before, written, rest, pattern, whole, place, longest, _⟩ := tiling.longest token member
  exact ⟨before, written, rest, whole, longest.nonempty, place⟩

theorem Stuck.fits {text before taken rest : List Char} {span : Span} {c : Char} {tokens : List (Located Token)}
    (stuck : Stuck 0 text span before c taken rest tokens) : span.Fits text := by
  refine ⟨before, c :: taken, rest, stuck.whole, List.cons_ne_nil c taken, ?_⟩
  rw [stuck.place, Nat.zero_add]

theorem Nesting.span_of_excess {nesting : Nesting} {tokens : List (Located Token)} {span : Span}
    (excess : nesting.excess? tokens = some span) : ∃ token ∈ tokens, token.span = span := by
  induction tokens generalizing nesting with
  | nil => cases excess
  | cons token tokens ih =>
    simp only [excess?] at excess
    split at excess
    · exact ⟨token, List.mem_cons_self, Option.some.inj excess⟩
    · obtain ⟨other, member, same⟩ := ih excess
      exact ⟨other, List.mem_cons_of_mem _ member, same⟩

/-- The end of the expression is reported, and behind its last token are spaces. -/
def EndsBehindSpaces (text : List Char) (diagnostic : Diagnostic) : Prop :=
  (∃ expected, diagnostic.problem = .unexpected none expected) ∧
    (∃ c ∈ text, isSpace c = false) ∧ ∃ c ∈ text.getLast?, isSpace c = true

theorem endSpan_bounded {text : List Char} {tokens : List (Located Token)} (cut : Cut [] 0 text tokens) :
    (endSpan (byteLength text) tokens).Bounded text ∧
      ((endSpan (byteLength text) tokens).start ≤ (endSpan (byteLength text) tokens).stop ↔
        ¬ ((∃ c ∈ text, isSpace c = false) ∧ ∃ c ∈ text.getLast?, isSpace c = true)) := by
  have whole : Boundary text (byteLength text) := ⟨text, [], (List.append_nil _).symm, rfl⟩
  rcases cut.last with ⟨rfl, blank⟩ | ⟨front, c, gap, token, rfl, visible, blank, last, stops, _⟩
  · refine ⟨⟨whole, whole⟩, fun _ => ?_, fun _ => Nat.le_refl _⟩
    intro ⟨⟨c, inside, noSpace⟩, _⟩
    rw [blank c inside] at noSpace
    cases noSpace
  · have noSpace := isSpace_of_visible visible
    have place : endSpan (byteLength (front ++ c :: gap)) tokens =
        ⟨byteLength (front ++ c :: gap), byteLength (front ++ [c])⟩ := by
      simp only [endSpan, last, Option.map_some, Option.getD_some, stops, Nat.zero_add]
    rw [place]
    refine ⟨⟨whole, front ++ [c], gap, by simp, rfl⟩, ?_⟩
    cases gap with
    | nil =>
      refine ⟨fun _ => ?_, fun _ => Nat.le_refl _⟩
      intro ⟨_, d, ends, space⟩
      rw [List.getLast?_concat] at ends
      cases ends
      rw [noSpace] at space
      cases space
    | cons d gap =>
      have further := d.utf8Size_pos
      have ends : (d :: gap).getLast (List.cons_ne_nil d gap) ∈ (front ++ c :: d :: gap).getLast? := by
        rw [List.append_cons, List.getLast?_append_of_ne_nil _ (List.cons_ne_nil d gap)]
        exact List.getLast_mem_getLast? _
      constructor
      · intro ordered
        simp only [byteLength_append, byteLength] at ordered
        omega
      · intro none
        exact absurd ⟨⟨c, by simp, noSpace⟩, _, ends, blank _ (List.getLast_mem _)⟩ none

theorem parse_reports {text : String} {diagnostic : Diagnostic} (failed : parse text = .error diagnostic) :
    diagnostic.span.Bounded text.toList ∧
      (diagnostic.span.start ≤ diagnostic.span.stop ↔ ¬ EndsBehindSpaces text.toList diagnostic) := by
  have around (fits : diagnostic.span.Fits text.toList)
      (other : ∀ expected, diagnostic.problem ≠ .unexpected none expected) :
      diagnostic.span.Bounded text.toList ∧
        (diagnostic.span.start ≤ diagnostic.span.stop ↔ ¬ EndsBehindSpaces text.toList diagnostic) :=
    ⟨fits.bounded, fun _ ⟨⟨expected, same⟩, _⟩ => other expected same, fun _ => fits.nonempty.le⟩
  have cut := cut_lexFrom 0 text.toList
  unfold parse lex at failed
  cases read : lexFrom 0 text.toList with
  | error span =>
    rw [read] at cut failed
    obtain ⟨before, c, taken, rest, tokens, stuck⟩ := cut
    cases failed
    exact around stuck.fits fun _ same => nomatch same
  | ok tokens =>
    rw [read] at cut failed
    have fits : ∀ token ∈ tokens, token.span.Fits text.toList := by
      simpa only [List.append_nil] using cut.tiling.fits
    dsimp only at failed
    cases excess : Nesting.excess? {} tokens with
    | some span =>
      rw [excess] at failed
      obtain ⟨token, inside, rfl⟩ := Nesting.span_of_excess excess
      cases failed
      exact around (fits token inside) fun _ same => nomatch same
    | none =>
      rw [excess] at failed
      unfold ofTokens at failed
      cases ran : State.run {} tokens with
      | mk state stopped =>
        rw [ran] at failed
        cases stopped with
        | some token =>
          obtain ⟨front, back, rfl, _, _⟩ := State.run_stops ran
          cases failed
          exact around (fits token (by simp)) fun _ same => nomatch same
        | none =>
          cases finished : state.finish? with
          | some whole =>
            simp only [finished] at failed
            cases failed
          | none =>
            simp only [finished] at failed
            cases failed
            obtain ⟨bounded, ordered⟩ := endSpan_bounded cut
            exact ⟨bounded, ordered.trans (not_congr ⟨fun gap => ⟨⟨_, rfl⟩, gap⟩, fun ends => ends.2⟩)⟩

end Expr

/-- What is reported of a template is around the characters of a directive. -/
theorem Template.read_reports {source : String} {diagnostic : Diagnostic}
    (reported : diagnostic ∈ (Template.read source).2) : diagnostic.span.Fits source.toList := by
  obtain ⟨blocks, dangling, account, reports⟩ := Template.account_of_read source
  have place : diagnostic.span ∈ dangling.map Located.span := by
    rw [Template.spans_of_reports reports]
    exact List.mem_map_of_mem reported
  obtain ⟨lexeme, inside, same⟩ := List.mem_map.mp place
  have tiled := @Template.Tiled.fits [] _ _ (Template.tiled_tokenize source)
  rw [← same]
  exact tiled _ (List.mem_map_of_mem (account.sublist.mem inside))

/-- Whatever is wrong with a text, read as an expression or as a template, the place it is reported for lies between
characters of the text, and runs forward. Backward it runs where an expression breaks off in front of spaces, and only
there. -/
theorem diagnostics_have_ranges (text : String) :
    (∀ diagnostic, Expr.parse text = .error diagnostic → diagnostic.span.Bounded text.toList ∧
      (diagnostic.span.start ≤ diagnostic.span.stop ↔ ¬ Expr.EndsBehindSpaces text.toList diagnostic)) ∧
    ∀ name, ∀ diagnostic ∈ (Template.parse name text).diagnostics,
      diagnostic.span.Bounded text.toList ∧ diagnostic.span.start < diagnostic.span.stop := by
  constructor
  · intro diagnostic failed
    exact Expr.parse_reports failed
  · intro name diagnostic reported
    have fits := Template.read_reports reported
    exact ⟨fits.bounded, fits.nonempty⟩

theorem sum_has_range : ∃ diagnostic, Expr.parse "a +" = .error diagnostic ∧
    diagnostic.span.Bounded "a +".toList ∧ diagnostic.span.start ≤ diagnostic.span.stop := by
  have read : Expr.lex "a +" = .ok [⟨.ident "a", ⟨0, 1⟩⟩, ⟨.mark .plus, ⟨2, 3⟩⟩] := by
    change Expr.lexFrom 0 (['a'] ++ ' ' :: (['+'] ++ [])) = _
    rw [Expr.lexFrom_starts ⟨_, _, rfl, rfl, rfl⟩, Expr.lexFrom_space,
      Expr.lexFrom_starts ⟨_, _, rfl, rfl, rfl⟩, Expr.lexFrom_nil]
    rfl
  have failed : ∃ diagnostic, Expr.parse "a +" = .error diagnostic := by
    simp only [Expr.parse, read]
    exact ⟨_, rfl⟩
  obtain ⟨diagnostic, failed⟩ := failed
  obtain ⟨bounded, ordered⟩ := (diagnostics_have_ranges "a +").1 _ failed
  refine ⟨diagnostic, failed, bounded, ordered.mpr ?_⟩
  rintro ⟨_, _, c, last, space⟩
  cases last
  cases space

/-- With a space behind it, the same is reported from 4 to 3. -/
theorem sum_has_no_range : ∃ expected, Expr.parse "a + " = .error ⟨⟨4, 3⟩, .unexpected none expected⟩ := by
  have read : Expr.lex "a + " = .ok [⟨.ident "a", ⟨0, 1⟩⟩, ⟨.mark .plus, ⟨2, 3⟩⟩] := by
    change Expr.lexFrom 0 (['a'] ++ ' ' :: (['+'] ++ ' ' :: [])) = _
    rw [Expr.lexFrom_starts ⟨_, _, rfl, rfl, rfl⟩, Expr.lexFrom_space, Expr.lexFrom_starts ⟨_, _, rfl, rfl, rfl⟩,
      Expr.lexFrom_space, Expr.lexFrom_nil]
    rfl
  simp only [Expr.parse, read]
  exact ⟨_, rfl⟩

end Stencil
