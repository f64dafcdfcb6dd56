import Stencil.Template.Reader

/-! A template: its name, its source, the tree read from it and what was wrong with it. -/

namespace Stencil

structure Template where
  /-- Empty for source that is not kept under any name. -/
  name : String
  source : String
  nodes : List Template.Node
  diagnostics : List Diagnostic
deriving Inhabited

namespace Template

def read (source : String) : List Node × List Diagnostic :=
  let tokens := tokenize source
  let body := readBody source.toList [] tokens []
  (body.nodes, body.diagnostics)

def parse (name source : String) : Template :=
  let (nodes, diagnostics) := read source
  { name, source, nodes, diagnostics }

theorem parse_eq (name source : String) : parse name source = ⟨name, source, (read source).1, (read source).2⟩ := rfl

/-- The name for people to read. -/
def title (name : String) : String := if name.isEmpty then "<inline>" else name

end Template
end Stencil
