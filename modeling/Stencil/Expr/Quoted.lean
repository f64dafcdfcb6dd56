/-! Text literals. Between the quotes a backslash gives the next character a meaning of its
own: `n`, `t` and `r` stand for line feed, tab and carriage return, any other character
for itself. -/

namespace Stencil.Expr.Quoted

def escaped (c : Char) : Char :=
  if c = 'n' then '\n' else if c = 't' then '\t' else if c = 'r' then '\r' else c

/-- A backslash at the end stands for itself. -/
def decode : List Char → List Char
  | [] => []
  | '\\' :: c :: rest => escaped c :: decode rest
  | c :: rest => c :: decode rest

/-- The text between the first and the last character. -/
def inside (quoted : List Char) : List Char := quoted.tail.dropLast

def unquote (quoted : String) : String := String.ofList (decode (inside quoted.toList))

/-- The items of a literal up to the closing quote, and the text behind that quote. An
item is one character, or a backslash with any character but a line feed. -/
def scan (quote : Char) : List Char → List Char × Option (List Char)
  | [] => ([], none)
  | '\\' :: [] => ([], none)
  | '\\' :: c :: rest =>
    if c = '\n' then ([], none)
    else
      let (items, behind) := scan quote rest
      ('\\' :: c :: items, behind)
  | c :: rest =>
    if c = quote then ([], some rest)
    else
      let (items, behind) := scan quote rest
      (c :: items, behind)

end Stencil.Expr.Quoted
