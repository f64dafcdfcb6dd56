import Stencil.Proofs.BareKeywords
import Stencil.Proofs.ReportLines
import Stencil.Proofs.ReportedSpans

/-! Where reports point. A report shows a place of the source: a line with its number, a column of it, and the marks below
some of its characters. It finds the place by reading a span as if it counted characters. So the place is the one of the
token that the span is around exactly if all characters up to the end of the token take a single byte. -/

namespace Stencil.Report
open Text

/-- A place in a source as a report shows it. -/
structure Place where
  /-- The number of the line. -/
  number : Nat
  /-- The characters of the line in front of the marks. -/
  column : Nat
  /-- The line, without the blanks at its end. -/
  text : List Char
  /-- The characters that are marked. -/
  marks : Nat
deriving DecidableEq

namespace Place

/-- The place of a token between what stands before and after it in its source. -/
def between (before token after : List Char) : Place where
  number := lineEnds before + 1
  column := (lastLine before).length
  text := trimRight (lastLine before ++ (token ++ firstLine after))
  marks := token.length

def middle (place : Place) : Nat := place.column + place.marks / 2

/-- The mark below a column and its fill. -/
def mark (place : Place) : Nat → Char × Char := underline place.column (place.column + place.marks) place.middle

end Place

section Marks

/-- How many places of a line of fixed width a text takes. -/
def cells (text : List Char) : Nat := (text.map width).sum

/-- The marks of one column. -/
def cell (text : List Char) (mark : Nat → Char × Char) (column : Nat) : List Char :=
  match columnWidth text column with
  | 0 => []
  | places + 1 => (mark column).1 :: List.replicate places (mark column).2

section Underline
variable {place : Place} {front token rest : List Char} {first count : Nat} {c : Char}

end Underline

end Marks

section Pointed
variable {before token : List Char} {span : Span}

end Pointed

end Stencil.Report

namespace Stencil.Template
open Text

end Stencil.Template

namespace Stencil.Report
open Text

end Stencil.Report
