/-! Escaping for HTML. The five significant characters become entities and every other
character stands for itself, so text that already holds entities is escaped again. -/

namespace Stencil.Html

def entity : Char → List Char
  | '&' => "&amp;".toList
  | '<' => "&lt;".toList
  | '>' => "&gt;".toList
  | '"' => "&quot;".toList
  | '\'' => "&#039;".toList
  | c => [c]

def escape (text : String) : String := String.ofList (text.toList.flatMap entity)

end Stencil.Html
