import Stencil.Expr.Lexer

/-! The cap on nesting. Open brackets count, and so does an unbroken run of signs that can
be prefix operators; the first token that goes past the cap is the one to blame. -/

namespace Stencil.Expr
open Text

def nestingCap : Nat := 32

structure Nesting where
  brackets : Nat := 0
  run : Nat := 0

namespace Nesting

def depth (nesting : Nesting) : Nat := nesting.brackets + nesting.run

def step (nesting : Nesting) : Token → Nesting
  | .mark .parenOpen | .mark .bracketOpen => ⟨nesting.brackets + 1, 0⟩
  | .mark .parenClose | .mark .bracketClose => ⟨nesting.brackets - 1, 0⟩
  | .mark .bang | .mark .minus => ⟨nesting.brackets, nesting.run + 1⟩
  | _ => ⟨nesting.brackets, 0⟩

def excess? (nesting : Nesting) : List (Located Token) → Option Span
  | [] => none
  | token :: tokens =>
    let next := nesting.step token.value
    if nestingCap < next.depth then some token.span else excess? next tokens

end Nesting
end Stencil.Expr
