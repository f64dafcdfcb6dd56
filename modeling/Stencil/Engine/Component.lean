import Stencil.Engine.Error
import Stencil.Scope
import Stencil.Template.Basic
import Stencil.Text.Quote

/-! Components: a template with variables of its own, a program of the host, or another
component under a new name. What a program may do is listed here call by call; it sees the
rendering it takes part in through these calls alone. -/

namespace Stencil

/-- The slot that takes the body of a component call outside its named slots. -/
def defaultSlotName : String := "default"

/-- One use of a component. -/
structure Instance where
  name : String
  props : Fields Value
  /-- The text of each slot, not rendered yet. -/
  slots : Fields String := []

/-- What a component is, without what it does. -/
inductive ComponentKind where
  | fragment (template : String)
  | function
  | adapter (target : String)
deriving DecidableEq, Repr

inductive Program where
  | done (result : Except ComponentError String)
  /-- How many templates and components are being rendered. -/
  | depth (next : Nat → Program)
  /-- The data that every rendering sees. -/
  | globals (next : Scope → Program)
  | template (name : String) (next : Option Template → Program)
  | resolve (name : String) (next : Option (String × ComponentKind) → Program)
  | renderNamed (name : String) (scope : Scope) (next : Except RenderError String → Program)
  | renderSource (source : String) (scope : Scope) (next : Except RenderError String → Program)
  | renderTemplate (template : Template) (scope : Scope) (next : Except RenderError String → Program)
  | renderComponent (name : String) (props : Fields Value) (slots : Fields String)
      (next : Except RenderError String → Program)

inductive Component where
  | fragment (template : Template)
  | function (program : Instance → Program)
  /-- Renders the target with the forwarded props and the same slots. -/
  | adapter (target : String) (forward : Instance → Fields Value)

namespace Component

/-- A component whose template has no name. -/
def ofSource (source : String) : Component := .fragment (Template.parse "" source)

def kind : Component → ComponentKind
  | .fragment template => .fragment template.name
  | .function _ => .function
  | .adapter target _ => .adapter target

end Component

def ComponentKind.describe : ComponentKind → String
  | .fragment template => "Fragment \x7b template: " ++ Text.quoted template ++ " \x7d"
  | .function => "Function(..)"
  | .adapter target => "Adapter \x7b target: " ++ Text.quoted target ++ " \x7d"

end Stencil
