import Stencil.Expr.Parser
import Stencil.Expr.Nesting
import Stencil.Diagnostic

/-! Reading an expression from text. Stray characters are reported before excessive
nesting, and that before a token out of place. -/

namespace Stencil.Expr
open Text

def State.expectations (state : State) : List Expected :=
  state.expected.map .mark ++ if state.finish?.isSome then [.finish] else []

/-- At the end of the text the span runs back to where the last token ended. -/
def endSpan (length : Nat) (tokens : List (Located Token)) : Span :=
  ⟨length, (tokens.getLast?.map fun token => token.span.stop).getD length⟩

def ofTokens (length : Nat) (tokens : List (Located Token)) : Except Diagnostic Expr :=
  match State.run {} tokens with
  | (state, some token) => .error ⟨token.span, .unexpected (some token.value) state.expectations⟩
  | (state, none) =>
    match state.finish? with
    | some whole => .ok whole
    | none => .error ⟨endSpan length tokens, .unexpected none state.expectations⟩

def parse (text : String) : Except Diagnostic Expr :=
  match lex text with
  | .error span => .error ⟨span, .unrecognised⟩
  | .ok tokens =>
    match Nesting.excess? {} tokens with
    | some span => .error ⟨span, .tooDeep⟩
    | none => ofTokens (byteLength text.toList) tokens

end Stencil.Expr
