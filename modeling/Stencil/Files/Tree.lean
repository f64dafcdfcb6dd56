import Stencil.Fields
import Stencil.Files.Basic
import Stencil.Text.Search

/-! Files in memory. A path is followed name by name from the folder that one works in, and
back to the folders around it where a name is two dots. -/

namespace Stencil

inductive FileTree where
  | file (content : ByteArray)
  | folder (entries : List (String × FileTree))
deriving Inhabited

namespace FileTree

/-- Puts a file below a folder, with the folders on the way to it. What stands in the way
is replaced. -/
def insert (path : List String) (content : ByteArray) (entries : Fields FileTree) : Fields FileTree :=
  match path with
  | [] => entries
  | [name] => Fields.insert entries name (.file content)
  | name :: path =>
    let inner := match Fields.find? entries name with
      | some (.folder inner) => inner
      | _ => []
    Fields.insert entries name (.folder (insert path content inner))

def isHidden (name : String) : Bool := name.toList.head? = some '.'

mutual
/-- The names that lead to each file that is not hidden. -/
def files : FileTree → List (List String)
  | .file _ => [[]]
  | .folder entries => filesIn entries

def filesIn : List (String × FileTree) → List (List String)
  | [] => []
  | (name, tree) :: rest =>
    if isHidden name then filesIn rest else tree.files.map (name :: ·) ++ filesIn rest
end

/-- The text of a file. -/
def text : FileTree → Except ReadError String
  | .folder _ => .error .isFolder
  | .file content =>
    match String.fromUTF8? content with
    | some text => .ok text
    | none => .error .notText

/-- A longer name is refused wherever it stands. -/
def greatestName : Nat := 255

/-- Goes one name further from a place, which is known by what is there and the folders
around it. The topmost folder is the one around itself. -/
def step (place : FileTree × List FileTree) (name : String) : Except ReadError (FileTree × List FileTree) :=
  match place with
  | (.file _, _) => .error .notFolder
  | (.folder entries, around) =>
    if name.isEmpty || name = "." then .ok place
    else if name = ".." then
      match around with
      | [] => .ok place
      | outer :: around => .ok (outer, around)
    else if greatestName < name.utf8ByteSize then .error .nameTooLong
    else match Fields.find? entries name with
      | some inner => .ok (inner, .folder entries :: around)
      | none => .error .missing

/-- What is at a path, seen from the folder with those folders around it. -/
def find (working : FileTree) (around : List FileTree) (path : String) : Except ReadError FileTree :=
  if path.isEmpty then .error .missing
  else
    let start := if path.toList.head? = some '/' then (around.getLast?.getD working, []) else (working, around)
    let names := (Text.splitAll '/' path.toList).map String.ofList
    (names.foldlM step start).map Prod.fst

/-- The files as they are seen from a folder. -/
def seenFrom (working : FileTree) (around : List FileTree) : Files where
  read path := (find working around path).bind text
  below? path :=
    match find working around path with
    | .ok (.folder entries) => some (filesIn entries)
    | _ => none

end FileTree
end Stencil
