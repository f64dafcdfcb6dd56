import Stencil.Template.Basic
import Stencil.Text.Width

/-! Reports of what is wrong with a template: the line it stands on, with a frame around it
and a mark below. Spans are taken as if they counted characters, so where characters of
several bytes come first the mark stands further to the right. -/

namespace Stencil.Report
open Text

structure Line where
  number : Nat
  /-- Characters before the line. -/
  offset : Nat
  /-- The characters of the line with those that end it. -/
  text : List Char
deriving Repr

def isLineEnd (c : Char) : Bool :=
  c = '\n' || c = '\r' || [0x0B, 0x0C, 0x85, 0x2028, 0x2029].contains c.toNat

/-- The lines of a text, each with its end. A carriage return takes a line feed with it. -/
def splitLines : List Char → List (List Char)
  | [] => []
  | '\r' :: '\n' :: rest => ['\r', '\n'] :: splitLines rest
  | c :: rest =>
    if isLineEnd c then [c] :: splitLines rest
    else match splitLines rest with
      | [] => [[c]]
      | line :: lines => (c :: line) :: lines

def numbered (number offset : Nat) : List (List Char) → List Line
  | [] => []
  | text :: texts => ⟨number, offset, text⟩ :: numbered (number + 1) (offset + text.length) texts

/-- The lines of a source; an empty one has a single empty line. -/
def linesOf (source : List Char) : List Line :=
  match splitLines source with
  | [] => [⟨1, 0, []⟩]
  | texts => numbered 1 0 texts

/-- The line that holds a character. The end of the source belongs to the last line. -/
def lineAt? (source : List Char) (offset : Nat) : Option Line :=
  if source.length < offset then none
  else ((linesOf source).filter fun line => line.offset ≤ offset).getLast?

def tabWidth : Nat := 4

/-- How a character of a line is shown, and how many places it takes. -/
def shown (column : Nat) (c : Char) : List Char × Nat :=
  if c = '\t' then
    let width := (column / tabWidth + 1) * tabWidth - column
    (List.replicate width ' ', width)
  else if isBlank c then ([' '], 1)
  else ([c], width c)

def withColumns (text : List Char) : List (Nat × Char) := (List.range text.length).zip text

/-- The places that each column of a line takes; columns past its end take one. -/
def columnWidth (text : List Char) (column : Nat) : Nat :=
  match text[column]? with
  | some c => (shown column c).2
  | none => 1

/-- A row of marks below a line: each column's mark, followed by the fill of wider columns. -/
def markRow (text : List Char) (columns : Nat) (mark : Nat → Char × Char) : List Char :=
  (List.range columns).flatMap fun column =>
    match columnWidth text column with
    | 0 => []
    | places + 1 => (mark column).1 :: List.replicate places (mark column).2

def underline (start stop middle column : Nat) : Char × Char :=
  if column < start || stop ≤ column then (' ', ' ')
  else if column = middle then ('┬', '─')
  else ('─', '─')

def pointer (middle column : Nat) : Char × Char :=
  if column < middle then (' ', ' ') else if column = middle then ('╰', '─') else ('─', '─')

/-- The frame around one line and the marks below it. -/
def frame (title message : String) (line : Line) (span : Span) : String :=
  let text := trimRight line.text
  let start := span.start - line.offset
  let stop := span.stop - line.offset
  let middle := (span.start + span.stop) / 2 - line.offset
  let number := toString line.number
  let margin := String.ofList (List.replicate (number.length + 2) ' ')
  let source := String.ofList ((withColumns text).flatMap fun (column, c) => (shown column c).1)
  let row (mark : Nat → Char × Char) := margin ++ "│ " ++ String.ofList (markRow text (stop + 2) mark)
  margin ++ "╭─[" ++ title ++ ":" ++ number ++ ":" ++ toString (start + 1) ++ "]\n"
    ++ margin ++ "│\n"
    ++ " " ++ number ++ " │ " ++ source ++ "\n"
    ++ row (underline start stop middle) ++ "\n"
    ++ row (pointer middle) ++ " " ++ message ++ "\n"
    ++ String.ofList (List.replicate (number.length + 2) '─') ++ "╯\n"

/-- A span that runs past the source has no frame. -/
def ofDiagnostic (title : String) (source : List Char) (diagnostic : Diagnostic) : String :=
  let span := diagnostic.span
  let framed := match lineAt? source span.start, lineAt? source (max span.start (span.stop - 1)) with
    | some line, some _ => frame title diagnostic.message line span
    | _, _ => ""
  "Error: " ++ diagnostic.message ++ "\n" ++ framed

/-- All that is wrong with a template; nothing when all is well. -/
def ofTemplate (template : Template) : String :=
  String.intercalate "\n"
    (template.diagnostics.map (ofDiagnostic (Template.title template.name) template.source.toList))

end Stencil.Report
