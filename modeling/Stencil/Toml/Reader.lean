import Stencil.Decimal.Numeral
import Stencil.Json.Reader
import Stencil.Toml.Basic

/-! Reading configuration text. Keys may be bare, quoted or dotted; texts may be basic or
literal, on one line or many; integers may have any of the four bases. A table has a
header of one key at most. What does not fit is refused as a whole. -/

namespace Stencil.Toml
open Text Decimal

def isSpace (c : Char) : Bool := c = ' ' || c = '\t'

def skipSpaces (text : List Char) : List Char := text.dropWhile isSpace

/-- Control characters other than the tab stand nowhere but in line ends. -/
def isControl (c : Char) : Bool := (c.toNat < 32 && c != '\t') || c.toNat = 127

def lineEnd? : List Char → Option (List Char)
  | '\n' :: rest => some rest
  | '\r' :: '\n' :: rest => some rest
  | _ => none

/-- Blanks and a comment at the end of a line. -/
def skipComment? (text : List Char) : Option (List Char) :=
  match skipSpaces text with
  | '#' :: rest =>
    let after := rest.dropWhile fun c => !isControl c
    if after.isEmpty || (lineEnd? after).isSome then some after else none
  | rest => some rest

/-- Ends a line, or the text. -/
def endLine? (text : List Char) : Option (List Char) := do
  let rest ← skipComment? text
  if rest.isEmpty then some [] else lineEnd? rest

/-- Blanks, comments and line ends, which may stand between the items of an array. -/
def skipLines? : Nat → List Char → Option (List Char)
  | 0, _ => none
  | fuel + 1, text => do
    let rest ← skipComment? text
    match lineEnd? rest with
    | some rest => skipLines? fuel rest
    | none => some rest

def hexNumber? (digits : List Char) : Option Nat :=
  digits.foldlM (fun total c => (Json.hexValue? c).map fun value => 16 * total + value) 0

/-- The character of a code that is one. -/
def charOf? (code : Nat) : Option Char := if Nat.isValidChar code then some (Char.ofNat code) else none

/-- A character behind a backslash, and what follows it. -/
def escape? (text : List Char) : Option (Char × List Char) :=
  match text with
  | 'b' :: rest => some (Char.ofNat 8, rest)
  | 't' :: rest => some ('\t', rest)
  | 'n' :: rest => some ('\n', rest)
  | 'f' :: rest => some (Char.ofNat 12, rest)
  | 'r' :: rest => some ('\r', rest)
  | '"' :: rest => some ('"', rest)
  | '\\' :: rest => some ('\\', rest)
  | 'u' :: rest => do
    if rest.length < 4 then none
    else some (← charOf? (← hexNumber? (rest.take 4)), rest.drop 4)
  | 'U' :: rest => do
    if rest.length < 8 then none
    else some (← charOf? (← hexNumber? (rest.take 8)), rest.drop 8)
  | _ => none

/-- A text on one line up to its quote. Only the basic kind has escapes. -/
def lineText? (quote : Char) : Nat → List Char → Option (List Char × List Char)
  | 0, _ => none
  | fuel + 1, text =>
    match text with
    | [] => none
    | c :: rest =>
      if c = quote then some ([], rest)
      else if c = '\\' && quote = '"' then do
        let (meant, rest) ← escape? rest
        let (chars, rest) ← lineText? quote fuel rest
        some (meant :: chars, rest)
      else if isControl c then none
      else do
        let (chars, rest) ← lineText? quote fuel rest
        some (c :: chars, rest)

/-- Behind a backslash at the end of a line, all blanks and line ends are passed over. -/
def continued? (text : List Char) : Option (List Char) :=
  (lineEnd? (skipSpaces text)).map fun rest => rest.dropWhile fun c => isSpace c || c = '\n' || c = '\r'

/-- A text on several lines up to three quotes; two more may stand in front of those. -/
def blockText? (quote : Char) : Nat → List Char → Option (List Char × List Char)
  | 0, _ => none
  | fuel + 1, text =>
    let quotes := text.takeWhile fun c => c = quote
    if 3 ≤ quotes.length then
      if 5 < quotes.length then none
      else some (quotes.drop 3, text.drop quotes.length)
    else match text with
      | [] => none
      | '\r' :: '\n' :: rest => do
        let (chars, rest) ← blockText? quote fuel rest
        some ('\r' :: '\n' :: chars, rest)
      | c :: rest =>
        if c = '\\' && quote = '"' then
          match continued? rest with
          | some rest => blockText? quote fuel rest
          | none => do
            let (meant, rest) ← escape? rest
            let (chars, rest) ← blockText? quote fuel rest
            some (meant :: chars, rest)
        else if isControl c && c != '\n' then none
        else do
          let (chars, rest) ← blockText? quote fuel rest
          some (c :: chars, rest)

/-- A text in quotes; a line end right behind three quotes does not belong to it. -/
def text? (quote : Char) (text : List Char) : Option (List Char × List Char) :=
  match text with
  | a :: b :: rest =>
    if a = quote && b = quote then
      blockText? quote (rest.length + 1) ((lineEnd? rest).getD rest)
    else lineText? quote (text.length + 1) text
  | _ => lineText? quote (text.length + 1) text

def isKeyChar (c : Char) : Bool :=
  isDigit c || ('a' ≤ c && c ≤ 'z') || ('A' ≤ c && c ≤ 'Z') || c = '_' || c = '-'

/-- One part of a key: a bare word or a text on one line. -/
def keyPart? (text : List Char) : Option (String × List Char) :=
  match text with
  | [] => none
  | c :: rest =>
    if c = '"' || c = '\'' then
      (lineText? c (rest.length + 1) rest).map fun (chars, rest) => (String.ofList chars, rest)
    else
      let word := text.takeWhile isKeyChar
      if word.isEmpty then none else some (String.ofList word, text.drop word.length)

/-- A key and the text behind it, with its parts cut at dots. -/
def key? : Nat → List Char → Option (List String × List Char)
  | 0, _ => none
  | fuel + 1, text => do
    let (part, rest) ← keyPart? (skipSpaces text)
    match skipSpaces rest with
    | '.' :: rest =>
      let (parts, rest) ← key? fuel rest
      some (part :: parts, rest)
    | rest => some ([part], rest)

/-- Digits of a base, with single underscores between them. -/
def basedDigits? (isDigit : Char → Bool) : List Char → Option (List Char × List Char)
  | [] => none
  | c :: '_' :: next :: rest =>
    if isDigit c && isDigit next then
      (basedDigits? isDigit (next :: rest)).map fun (digits, rest) => (c :: digits, rest)
    else none
  | c :: next :: rest =>
    if !isDigit c then none
    else if isDigit next then
      (basedDigits? isDigit (next :: rest)).map fun (digits, rest) => (c :: digits, rest)
    else some ([c], next :: rest)
  | [c] => if isDigit c then some ([c], []) else none

def valueOfDigits (base : Nat) (digits : List Char) : Nat :=
  digits.foldl (fun total c => base * total + (Json.hexValue? c).getD 0) 0

def based? (base : Nat) (text : List Char) : Option (Toml × List Char) := do
  let isDigit (c : Char) : Bool := ((Json.hexValue? c).map fun value => decide (value < base)).getD false
  let (digits, rest) ← basedDigits? isDigit text
  let value := valueOfDigits base digits
  if isWord value then some (.integer value, rest) else none

/-- A decimal integer without zeros in front. -/
def decimal? (negative : Bool) (text : List Char) : Option (Toml × List Char) := do
  let (digits, rest) ← basedDigits? isDigit text
  let size : Int := valueOfDigits 10 digits
  let value := if negative then -size else size
  if 1 < digits.length && digits.head? == some '0' then none
  else if isWord value then some (.integer value, rest)
  else none

def scalar? (text : List Char) : Option (Toml × List Char) :=
  match text with
  | '0' :: 'x' :: rest => based? 16 rest
  | '0' :: 'o' :: rest => based? 8 rest
  | '0' :: 'b' :: rest => based? 2 rest
  | '+' :: rest => decimal? false rest
  | '-' :: rest => decimal? true rest
  | _ =>
    match stripPrefix? "true".toList text with
    | some rest => some (.bool true, rest)
    | none =>
      match stripPrefix? "false".toList text with
      | some rest => some (.bool false, rest)
      | none => decimal? false text

mutual
def value? : Nat → List Char → Option (Toml × List Char)
  | 0, _ => none
  | fuel + 1, text =>
    match text with
    | [] => none
    | c :: rest =>
      if c = '"' || c = '\'' then
        (text? c rest).map fun (chars, rest) => (.string (String.ofList chars), rest)
      else if c = '[' then (items? fuel rest).map fun (items, rest) => (.array items, rest)
      else if c = '\x7b' then
        match skipSpaces rest with
        | '\x7d' :: rest => some (.table false [], rest)
        | rest => (members? fuel [] rest).map fun (fields, rest) => (.table false fields, rest)
      else scalar? text

/-- The items of an array, which may end in a comma. -/
def items? : Nat → List Char → Option (List Toml × List Char)
  | 0, _ => none
  | fuel + 1, text => do
    match ← skipLines? (text.length + 1) text with
    | ']' :: rest => some ([], rest)
    | rest =>
      let (item, rest) ← value? fuel rest
      match ← skipLines? (rest.length + 1) rest with
      | ',' :: rest =>
        let (items, rest) ← items? fuel rest
        some (item :: items, rest)
      | ']' :: rest => some ([item], rest)
      | _ => none

/-- The members of a table in braces, all on one line. -/
def members? : Nat → Fields Toml → List Char → Option (Fields Toml × List Char)
  | 0, _, _ => none
  | fuel + 1, fields, text => do
    let (path, rest) ← key? (text.length + 1) text
    match rest with
    | '=' :: rest =>
      let (value, rest) ← value? fuel (skipSpaces rest)
      let fields ← assign? path value fields
      match skipSpaces rest with
      | ',' :: rest => members? fuel fields rest
      | '\x7d' :: rest => some (fields, rest)
      | _ => none
    | _ => none
end

/-- Where the lines of a document go: into the whole, or into the table of a header. -/
structure Sheet where
  whole : Fields Toml := []
  header : Option String := none
  fields : Fields Toml := []

namespace Sheet

/-- Puts the table of the last header where it belongs. -/
def close? (sheet : Sheet) : Option (Fields Toml) :=
  match sheet.header with
  | none => some sheet.whole
  | some name => assign? [name] (.table false sheet.fields) sheet.whole

def add? (sheet : Sheet) (path : List String) (value : Toml) : Option Sheet :=
  match sheet.header with
  | none => (assign? path value sheet.whole).map fun whole => { sheet with whole }
  | some _ => (assign? path value sheet.fields).map fun fields => { sheet with fields }

/-- Starts a table under a name that nothing has used before. -/
def open? (sheet : Sheet) (name : String) : Option Sheet := do
  let whole ← sheet.close?
  if whole.contains name then none else some { whole, header := some name }

end Sheet

/-- The lines of a document. -/
def lines? : Nat → Sheet → List Char → Option (Fields Toml)
  | 0, _, _ => none
  | fuel + 1, sheet, text => do
    match skipSpaces text with
    | [] => sheet.close?
    | '[' :: rest =>
      let (path, rest) ← key? (rest.length + 1) rest
      match path, rest with
      | [name], ']' :: rest =>
        let sheet ← sheet.open? name
        lines? fuel sheet (← endLine? rest)
      | _, _ => none
    | rest =>
      match endLine? rest with
      | some rest => lines? fuel sheet rest
      | none =>
        let (path, rest) ← key? (rest.length + 1) rest
        match rest with
        | '=' :: rest =>
          let (value, rest) ← value? (rest.length + 1) (skipSpaces rest)
          lines? fuel (← sheet.add? path value) (← endLine? rest)
        | _ => none

/-- Reads a whole document; a byte order mark in front is passed over. -/
def read? (document : String) : Option (Fields Toml) :=
  let text := match document.toList with
    | [] => []
    | c :: rest => if c.toNat = 0xFEFF then rest else c :: rest
  lines? (text.length + 1) {} text

end Stencil.Toml
