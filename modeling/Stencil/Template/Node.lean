import Stencil.Text.Blank
import Stencil.Text.Span

/-! The tree of a template. Arguments stay raw text until the node is rendered, and so do
the bodies of slots, which are read again in the component that prints them. -/

namespace Stencil.Template
open Text

structure Slot where
  args : String
  raw : String
deriving DecidableEq, Repr

inductive Node where
  | text (span : Span) (text : String)
  | echo (span : Span) (expression : String) (escape : Bool)
  /-- Names the layout that the template fills. -/
  | extension (span : Span) (args : String)
  | sectionBlock (span : Span) (args : String) (body : List Node)
  /-- A section whose content is an expression. -/
  | sectionInline (span : Span) (args content : String)
  | yield (span : Span) (args : String)
  | conditional (span : Span) (branches : List (String × List Node)) (otherwise : Option (List Node))
  | foreach (span : Span) (args : String) (body : List Node)
  | counting (span : Span) (args : String) (body : List Node)
  | inclusion (span : Span) (args : String)
  /-- The default slot is the text of the body outside its slots. -/
  | component (span : Span) (args defaultSlot : String) (slots : List Slot)
  | slot (span : Span) (slot : Slot)
  /-- Any other directive. The raw text is printed when nothing handles it. -/
  | directive (span : Span) (name : String) (args : Option String) (raw : String)

namespace Node

def span : Node → Span
  | .text span .. | .echo span .. | .extension span .. | .sectionBlock span .. | .sectionInline span ..
  | .yield span .. | .conditional span .. | .foreach span .. | .counting span .. | .inclusion span ..
  | .component span .. | .slot span .. | .directive span .. => span

/-- Whether the node is text of nothing but white space. -/
def isBlank : Node → Bool
  | .text _ value => value.toList.all Text.isBlank
  | _ => false

/-- Puts a node in front of others. Texts that touch in the source become one. -/
def prepend (node : Node) (nodes : List Node) : List Node :=
  match node, nodes with
  | .text first before, .text second after :: rest =>
    if first.stop = second.start then .text ⟨first.start, second.stop⟩ (before ++ after) :: rest
    else .text first before :: .text second after :: rest
  | node, nodes => node :: nodes

end Node
end Stencil.Template
