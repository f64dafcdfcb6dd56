import Stencil.Files.Basic
import Stencil.Files.Path
import Stencil.Template.Name

/-! Templates in a folder. The dots of a template name lead from folder to folder, and an
extension marks the files that are templates. -/

namespace Stencil

structure TemplateFolder where
  root : String
  /-- Without its dot. -/
  extension : String := "tpl"
deriving DecidableEq, Repr

inductive FolderError where
  | missingRoot (root : String)
  | unreadable (name path : String) (cause : ReadError)
deriving DecidableEq, Repr

def FolderError.message : FolderError → String
  | .missingRoot root => "template directory not found: " ++ root
  | .unreadable name path cause =>
    "error reading template " ++ name ++ " from " ++ path ++ ": " ++ cause.message

namespace TemplateFolder

/-- Where the file of a template lies. -/
def path (folder : TemplateFolder) (name : String) : String :=
  let segments := Text.splitAll '.' name.toList
  String.ofList (Path.withExtension (segments.foldl Path.join folder.root.toList) folder.extension.toList)

/-- The template that lies in a file, by the names that lead to it. -/
def name? (folder : TemplateFolder) : List String → Option String
  | [] => none
  | [last] =>
    match Path.cutExtension last.toList with
    | (stem, some extension) =>
      if String.ofList extension = folder.extension then some (String.ofList stem) else none
    | (_, none) => none
  | first :: rest => (folder.name? rest).map fun name => first ++ "." ++ name

/-- The names of all templates, sorted. -/
def names (folder : TemplateFolder) (files : Files) : Except FolderError (List String) :=
  match files.below? folder.root with
  | none => .error (.missingRoot folder.root)
  | some paths => .ok ((paths.filterMap folder.name?).mergeSort fun a b => decide (a ≤ b))

/-- All templates with their sources. -/
def sources (folder : TemplateFolder) (files : Files) : Except FolderError (List (String × String)) := do
  (← folder.names files).mapM fun name =>
    match files.read (folder.path name) with
    | .ok source => .ok (name, source)
    | .error cause => .error (.unreadable name (folder.path name) cause)

/-- The source of one template. What is no template name leads to no file. -/
def load? (folder : TemplateFolder) (files : Files) (name : String) : Option String :=
  if Template.isName name then (files.read (folder.path name)).toOption else none

end TemplateFolder
end Stencil
