import Stencil.Text.Search
import Stencil.Expr.Lexer

/-! Template names: segments of letters, digits, underscores and hyphens between dots. -/

namespace Stencil.Template
open Text

def isNameWord (c : Char) : Bool := Expr.isAsciiLetter c || Decimal.isDigit c || c = '_' || c = '-'

def isSegment (segment : List Char) : Bool := !segment.isEmpty && segment.all isNameWord

/-- Whether a reference is a name; any other reference is template source. -/
def isName (reference : String) : Bool := (splitAll '.' reference.toList).all isSegment

end Stencil.Template
