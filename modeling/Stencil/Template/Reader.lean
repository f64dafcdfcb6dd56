import Stencil.Diagnostic
import Stencil.Template.Block
import Stencil.Template.Tokenizer

/-! Building the tree of a template. An opener is tried by reading on until its closer. If
there is none, the opener and every closer that belongs to nothing stay in the output as
literal text, each with a diagnostic, and reading goes on right behind them.

Whether an opener is closed depends on the tokens behind it alone. So an opener that was
tried in vain is remembered by its place, the number of tokens behind it, and is not tried
again. -/

namespace Stencil.Template
open Text

/-- The separator or closer that ended a body, and the tokens behind it. -/
structure Ending (bound : Nat) where
  closer : Closer
  args : String
  span : Span
  rest : List Lexeme
  shorter : rest.length < bound

/-- A body as far as it could be read. It has no ending if the tokens ran out. -/
structure Body (bound : Nat) where
  nodes : List Node
  diagnostics : List Diagnostic
  /-- The places of the openers that are known to have no closer. -/
  unclosed : List Nat
  ending : Option (Ending bound)

/-- A closed block and the tokens behind it. -/
structure Block (bound : Nat) where
  node : Node
  diagnostics : List Diagnostic
  rest : List Lexeme
  shorter : rest.length < bound

/-- What came of trying an opener. -/
structure Attempt (bound : Nat) where
  unclosed : List Nat
  block : Option (Block bound)

/-- The branches of a conditional from the one at hand on. -/
structure Branches (bound : Nat) where
  branches : List (String × List Node)
  otherwise : Option (List Node)
  diagnostics : List Diagnostic
  stop : Nat
  rest : List Lexeme
  shorter : rest.length < bound

structure BranchAttempt (bound : Nat) where
  unclosed : List Nat
  found : Option (Branches bound)

def Ending.widen {small large : Nat} (le : small ≤ large) (ending : Ending small) : Ending large :=
  { ending with shorter := Nat.lt_of_lt_of_le ending.shorter le }

/-- The body with one more node, and the diagnostics of it, in front. -/
def Body.prepend {small large : Nat} (body : Body small) (le : small ≤ large) (node : Node)
    (diagnostics : List Diagnostic) : Body large where
  nodes := node.prepend body.nodes
  diagnostics := diagnostics ++ body.diagnostics
  unclosed := body.unclosed
  ending := body.ending.map (Ending.widen le)

def Node.slot? : Node → Option Slot
  | .slot _ body => some body
  | _ => none

/-- The source of the nodes that are not slots, put together. -/
def defaultSlot (source : List Char) (nodes : List Node) : String :=
  String.ofList ((nodes.filter fun node => node.slot?.isNone).flatMap fun node => slice source node.span)

/-- The node of a block that has a single body. -/
def blockNode (source : List Char) (opener : Opener) (args : String) (start stop : Span)
    (nodes : List Node) : Node :=
  let span : Span := ⟨start.start, stop.stop⟩
  match opener with
  | .sectionBlock => .sectionBlock span args nodes
  | .foreach => .foreach span args nodes
  | .counting => .counting span args nodes
  | .slot => .slot span ⟨args, String.ofList (slice source ⟨start.stop, stop.start⟩)⟩
  | .component => .component span args (defaultSlot source nodes) (nodes.filterMap Node.slot?)
  | .conditional => .conditional span [(args, nodes)] none

/-- A directive that is kept as it was written. -/
def literally (source : List Char) (span : Span) : Node := .text span (String.ofList (slice source span))

mutual
/-- Reads nodes up to one of the closers or to the end. -/
def readBody (source : List Char) (stops : List Closer) (tokens : List Lexeme)
    (unclosed : List Nat) : Body tokens.length :=
  match tokens with
  | [] => ⟨[], [], unclosed, none⟩
  | ⟨token, span⟩ :: rest =>
    have le : rest.length ≤ (⟨token, span⟩ :: rest : List Lexeme).length := Nat.le_succ _
    match token with
    | .text text => (readBody source stops rest unclosed).prepend le (.text span text) []
    | .echo expression raw =>
      (readBody source stops rest unclosed).prepend le (.echo span expression !raw) []
    | .directive name args =>
      let text := args.getD ""
      match roleOf name text with
      | .standalone =>
        let node := standaloneNode span name args (String.ofList (slice source span))
        (readBody source stops rest unclosed).prepend le node []
      | .closer closer =>
        if closer ∈ stops then ⟨[], [], unclosed, some ⟨closer, text, span, rest, Nat.lt_succ_self _⟩⟩
        else (readBody source stops rest unclosed).prepend le (literally source span)
          [⟨span, .unopened closer.name⟩]
      | .opener opener =>
        let attempt := readBlock source opener text span rest unclosed
        match attempt.block with
        | some block =>
          have := block.shorter
          (readBody source stops block.rest attempt.unclosed).prepend (by simp; omega)
            block.node block.diagnostics
        | none =>
          (readBody source stops rest attempt.unclosed).prepend le (literally source span)
            [⟨span, .unclosed opener.name⟩]
termination_by (tokens.length, 0)

/-- Tries an opener on the tokens behind it. -/
def readBlock (source : List Char) (opener : Opener) (args : String) (start : Span)
    (tokens : List Lexeme) (unclosed : List Nat) : Attempt tokens.length :=
  if tokens.length ∈ unclosed then ⟨unclosed, none⟩
  else if opener = .conditional then
    let attempt := readBranches source args tokens unclosed
    match attempt.found with
    | none => ⟨tokens.length :: attempt.unclosed, none⟩
    | some found =>
      ⟨attempt.unclosed, some ⟨.conditional ⟨start.start, found.stop⟩ found.branches found.otherwise,
        found.diagnostics, found.rest, found.shorter⟩⟩
  else
    let body := readBody source opener.stops tokens unclosed
    match body.ending with
    | none => ⟨tokens.length :: body.unclosed, none⟩
    | some ending =>
      ⟨body.unclosed, some ⟨blockNode source opener args start ending.span body.nodes,
        body.diagnostics, ending.rest, ending.shorter⟩⟩
termination_by (tokens.length, 2)

/-- Reads the branches of a conditional whose first condition is at hand. -/
def readBranches (source : List Char) (condition : String) (tokens : List Lexeme)
    (unclosed : List Nat) : BranchAttempt tokens.length :=
  let body := readBody source Opener.conditional.stops tokens unclosed
  match body.ending with
  | none => ⟨body.unclosed, none⟩
  | some ending =>
    have := ending.shorter
    if ending.closer = .elseIf then
      let attempt := readBranches source ending.args ending.rest body.unclosed
      ⟨attempt.unclosed, attempt.found.map fun found =>
        { found with
          branches := (condition, body.nodes) :: found.branches
          diagnostics := body.diagnostics ++ found.diagnostics
          shorter := Nat.lt_trans found.shorter ending.shorter }⟩
    else if ending.closer = .otherwise then
      let last := readBody source [.endIf] ending.rest body.unclosed
      ⟨last.unclosed, last.ending.map fun stop =>
        { branches := [(condition, body.nodes)]
          otherwise := some last.nodes
          diagnostics := body.diagnostics ++ last.diagnostics
          stop := stop.span.stop
          rest := stop.rest
          shorter := Nat.lt_trans stop.shorter ending.shorter }⟩
    else
      ⟨body.unclosed, some ⟨[(condition, body.nodes)], none, body.diagnostics, ending.span.stop,
        ending.rest, ending.shorter⟩⟩
termination_by (tokens.length, 1)
end

end Stencil.Template
