import Stencil.Text.Span

/-! The flat tokens of template source: literal text, interpolations and directives. Which
opener belongs to which closer is decided later. -/

namespace Stencil.Template

inductive Token where
  /-- Literal output, with the escapes for `@` and braces taken out. -/
  | text (text : String)
  /-- An interpolation; a raw one is printed without escaping. -/
  | echo (expression : String) (raw : Bool)
  | directive (name : String) (args : Option String)
deriving DecidableEq, Repr

abbrev Lexeme := Text.Located Token

/-- Words that never take arguments, found even when more letters follow. A word stands
before the words it begins with. -/
def bareKeywords : List String :=
  ["endcomponent", "endforeach", "endsection", "endslot", "endfor", "endif", "else"]

/-- Directives with arguments that are found even in the middle of a word. -/
def builtinNames : List String :=
  ["extends", "section", "yield", "if", "elseif", "foreach", "for", "include", "component", "slot"]

end Stencil.Template
