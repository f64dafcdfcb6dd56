import Stencil.Text.Search

/-! Paths of files as text: names between slashes. No file is looked at here. -/

namespace Stencil.Path
open Text

/-- The path of a name below a folder. A name that begins at the top stands for itself. -/
def join (folder name : List Char) : List Char :=
  if name.head? = some '/' then name
  else if folder.isEmpty || folder.getLast? = some '/' then folder ++ name
  else folder ++ '/' :: name

/-- A name around its last dot. A name with no other dot than one in front has no extension. -/
def cutExtension (name : List Char) : List Char × Option (List Char) :=
  match cutLast? ['.'] name with
  | some (stem, extension) =>
    if stem.isEmpty || name = ['.', '.'] then (name, none) else (stem, some extension)
  | none => (name, none)

/-- Slashes at the end of a path mean nothing, and neither do single dots as names; here the
path and what is left are spelt backwards. -/
def withoutEnd : List Char → List Char
  | '/' :: rest => withoutEnd rest
  | '.' :: '/' :: rest => withoutEnd rest
  | rest => rest

/-- The folder and the last name of a path, if a file can go by that name. -/
def cutName? (path : List Char) : Option (List Char × List Char) :=
  let reversed := withoutEnd path.reverse
  let name := (reversed.takeWhile fun c => c ≠ '/').reverse
  if name = [] || name = ['.'] || name = ['.', '.'] then none
  else some ((reversed.drop name.length).reverse, name)

/-- Gives the last name another extension; an empty one takes away what was there. -/
def withExtension (path extension : List Char) : List Char :=
  match cutName? path with
  | none => path
  | some (folder, name) =>
    let stem := folder ++ (cutExtension name).1
    if extension.isEmpty then stem else stem ++ '.' :: extension

end Stencil.Path
