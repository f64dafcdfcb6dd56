import Std.Time.DateTime.Timestamp
import Stencil.CommandLine.Run

/-! The command at work: it fetches the files that the arguments name, the input if it is
needed and the time, and prints what comes of them. -/

namespace Stencil.CommandLine

def readError : IO.Error → ReadError
  | .noFileOrDirectory .. => .missing
  | .inappropriateType _ code _ => if code = 21 then .isFolder else .notFolder
  | error => .other (toString error)

def readFile (path : String) : IO (Except ReadError String) := do
  try
    let content ← IO.FS.readBinFile path
    return (String.fromUTF8? content).elim (.error .notText) .ok
  catch error => return .error (readError error)

/-- The files below a folder that are not hidden, but for those that cannot be seen. -/
partial def filesBelow (entries : Array IO.FS.DirEntry) : IO (List (List String)) := do
  let mut found := []
  for entry in entries do
    unless entry.fileName.toList.head? = some '.' do
      try
        match (← entry.path.symlinkMetadata).type with
        | .file => found := found ++ [[entry.fileName]]
        | .dir => found := found ++ (← filesBelow (← entry.path.readDir)).map (entry.fileName :: ·)
        | _ => pure ()
      catch _ => pure ()
  return found

def listFolder (root : String) : IO (Option (List (List String))) := do
  let folder := (← IO.currentDir) / root
  if !root.isEmpty && (← folder.isDir) then return some (← filesBelow (← folder.readDir))
  else return none

/-- Fetches what the command may ask for. Templates are found under their names. -/
def fetch (options : Options) : IO Files := do
  let below ← match options.folder with
    | none => pure none
    | some root => listFolder root
  let sources := match options.folder with
    | none => []
    | some root =>
      let folder : TemplateFolder := { root }
      ((below.getD []).filterMap folder.name?).map folder.path
  let paths := options.config.toList ++ options.data.toList ++ options.template.toList ++ sources
  let texts ← paths.mapM fun path => return (path, ← readFile path)
  return {
    read := fun path => (texts.lookup path).getD (.error .missing)
    below? := fun _ => below }

def now : IO Calendar.Moment := do
  let nanos := (← Std.Time.Timestamp.now).toNanosecondsSinceUnixEpoch.val
  return (Calendar.Moment.ofTimestamp? (nanos.fdiv 1000000000) (nanos.fmod 1000000000).toNat).getD ⟨0, 0, 0⟩

end Stencil.CommandLine

open Stencil Stencil.CommandLine

def main (arguments : List String) : IO UInt32 := do
  let (files, input) ← match Options.read arguments with
    | .error _ => pure ({ read := fun _ => .error .missing, below? := fun _ => none }, "")
    | .ok options =>
      let input ← if options.template.isSome then pure "" else (← IO.getStdin).readToEnd
      pure (← fetch options, input)
  let result := run files input (← now) arguments
  (← IO.getStdout).putStr result.output
  (← IO.getStderr).putStr result.errors
  return result.code.toUInt32
