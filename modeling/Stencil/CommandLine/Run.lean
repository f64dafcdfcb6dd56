import Stencil.CommandLine.Options
import Stencil.Dependencies
import Stencil.Engine.Run
import Stencil.Engine.Settings
import Stencil.Files.Folder
import Stencil.Json.Reader
import Stencil.Report

/-! The command: it renders a template, checks all it has, or lists what a template depends
on. What it prints is decided by the arguments, the files, the input and the time alone. -/

namespace Stencil.CommandLine

/-- What the command leaves behind. -/
structure Result where
  code : Nat := 0
  output : String := ""
  errors : String := ""
deriving DecidableEq, Repr

inductive DataError where
  | unreadable (cause : ReadError)
  | malformed
deriving DecidableEq, Repr

def DataError.message : DataError → String
  | .unreadable cause => cause.message
  | .malformed => "not a JSON document"

inductive Failure where
  | config (path : String) (cause : Config.LoadError)
  | templates (cause : FolderError)
  | data (path : String) (cause : DataError)
  | template (path : String) (cause : ReadError)
  | rendering (cause : Halt)
deriving DecidableEq, Repr

def haltMessage : Halt → String
  | .failed error => error.message
  | .unending => "the rendering does not end"

def Failure.message : Failure → String
  | .config path cause => "Error loading config '" ++ path ++ "': " ++ cause.message
  | .templates cause => "Error loading templates: " ++ cause.message
  | .data path cause => "Error reading data '" ++ path ++ "': " ++ cause.message
  | .template path cause => "Error reading template '" ++ path ++ "': " ++ cause.message
  | .rendering cause => "Error: " ++ haltMessage cause

def readConfig (files : Files) : Option String → Except Failure Config
  | none => .ok {}
  | some path => (Config.load files path).mapError (Failure.config path)

/-- Registers every template of a folder; it is also asked for names that turn up later. -/
def withFolder (files : Files) (engine : Engine) : Option String → Except Failure Engine
  | none => .ok engine
  | some root => do
    let folder : TemplateFolder := { root }
    let sources ← (folder.sources files).mapError Failure.templates
    let engine := sources.foldl (fun engine (name, source) => engine.registerTemplate name source) engine
    return engine.withLoader (folder.load? files)

def readData (files : Files) : Option String → Except Failure Value
  | none => .ok .null
  | some path =>
    match files.read path with
    | .error cause => .error (.data path (.unreadable cause))
    | .ok text =>
      match Json.read? text with
      | some document => .ok (Value.ofJson document)
      | none => .error (.data path .malformed)

/-- The name that a template from the input goes by. -/
def inputName : String := "stdin"

/-- The name of the template to work on. One that the engine knows is taken as it is; else
the file of that path is registered under it. -/
def withTemplate (files : Files) (input : String) (engine : Engine) :
    Option String → Except Failure (Engine × String)
  | none => .ok (engine.registerTemplate inputName input, inputName)
  | some reference =>
    if (engine.template? reference).isSome then .ok (engine, reference)
    else match files.read reference with
      | .ok source => .ok (engine.registerTemplate reference source, reference)
      | .error cause => .error (.template reference cause)

def lines (texts : List String) : String := String.join (texts.map fun text => text ++ "\n")

/-- Reports what is wrong with any registered template. -/
def check (engine : Engine) : Result :=
  let templates := engine.templates.map Prod.snd
  let faulty := templates.filter fun template => !template.diagnostics.isEmpty
  let problems : Nat := faulty.foldl (fun count template => count + template.diagnostics.length) 0
  if problems = 0 then { errors := lines ["No problems found"] }
  else { code := 1, errors := lines (faulty.map Report.ofTemplate ++ [toString problems ++ " problem(s) found"]) }

/-- Prints the components, and warns of every name that leads nowhere. -/
def listDependencies (engine : Engine) (reference : String) : Result :=
  let graph := Dependencies.graph engine reference
  { output := lines graph.components
    errors := lines (graph.missing.map fun name => "warning: unresolved reference '" ++ name ++ "'") }

def perform (files : Files) (input : String) (now : Calendar.Moment) (options : Options) :
    Except Failure Result := do
  let config ← readConfig files options.config
  let engine ← withFolder files (Engine.new config now) options.folder
  let data ← readData files options.data
  let (engine, reference) ← withTemplate files input engine options.template
  if options.check then return check engine
  else if options.dependencies then return listDependencies engine reference
  else match (engine.render reference data .empty).1 with
    | .ok output => return { output }
    | .error cause => .error (.rendering cause)

def run (files : Files) (input : String) (now : Calendar.Moment) (arguments : List String) : Result :=
  match Options.read arguments with
  | .error .help => { output := Usage.help.message }
  | .error usage => { code := 2, errors := usage.message }
  | .ok options =>
    match perform files input now options with
    | .ok result => result
    | .error failure => { code := 1, errors := lines [failure.message] }

end Stencil.CommandLine
