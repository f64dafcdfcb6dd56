import Mathlib.Data.List.Nodup
import Mathlib.Data.List.Range
import Stencil.Proofs.TextCuts
import Stencil.Report

/-! The lines of a source. The characters in front of a place tell which line it stands on and where the line begins: it
has the number of the ends of lines among them, and begins behind the last one. -/

namespace Stencil.Report
open Text

/-- How many lines of a text have an end. A carriage return and the line feed behind it end one line. -/
def lineEnds : List Char → Nat
  | [] => 0
  | '\r' :: '\n' :: rest => lineEnds rest + 1
  | c :: rest => if isLineEnd c then lineEnds rest + 1 else lineEnds rest

def firstLine (text : List Char) : List Char := text.takeWhile fun c => !isLineEnd c

/-- What stands behind the last end of a line. -/
def lastLine (text : List Char) : List Char := (text.reverse.takeWhile fun c => !isLineEnd c).reverse

/-- A text that does not break off within a line. -/
def Closed (text : List Char) : Prop := ∀ c ∈ text.getLast?, isLineEnd c = true

/-- The character takes no line feed behind it along. -/
def Single (c : Char) (text : List Char) : Prop := ∀ behind, c = '\r' → text = '\n' :: behind → False

section Split
variable {text above rest : List Char}

theorem Closed.tail {c : Char} (closed : Closed (c :: text)) : Closed text := by
  cases text with
  | nil => nofun
  | cons d text =>
    intro e last
    exact closed e (by rwa [List.getLast?_cons_cons])

/-- A carriage return that takes no line feed with it takes none from a text put behind it either. -/
theorem Single.append {c : Char} (single : Single c text) (apart : rest.head? ≠ some '\n') : Single c (text ++ rest) := by
  rintro behind rfl joined
  cases text with
  | nil =>
    rw [List.nil_append] at joined
    exact apart (joined ▸ rfl)
  | cons d text =>
    cases joined
    exact single text rfl rfl

end Split

section Numbered
variable {number offset : Nat} {texts : List (List Char)}

end Numbered

section Lines
variable {source : List Char} {line other : Line} {offset : Nat}

/-- The line that holds a token, as the characters before and after the token have it. -/
structure Line.Carries (line : Line) (before token after : List Char) : Prop where
  listed : line ∈ linesOf (before ++ (token ++ after))
  number : line.number = lineEnds before + 1
  offset : line.offset + (lastLine before).length = before.length
  text : trimRight line.text = trimRight (lastLine before ++ (token ++ firstLine after))
  /-- It is found by the place of each character of the token. -/
  found : ∀ offset, before.length ≤ offset → offset < before.length + token.length →
    lineAt? (before ++ (token ++ after)) offset = some line

end Lines
end Stencil.Report
