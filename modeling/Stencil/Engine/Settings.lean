import Stencil.Engine.Config
import Stencil.Files.Basic
import Stencil.Toml.Reader

/-! Configuration from a file: a table of limits and conventions and a table of aliases,
either of which may be missing. What is not given keeps its default; what is not known, or
is of the wrong kind, makes the file unusable. -/

namespace Stencil.Config

structure Settings where
  maxDepth : Option Nat := none
  defaultNamespace : Option String := none
  loopFallbackLimit : Option Nat := none
  /-- Whether loops without a limit of their own print anything. -/
  loopFallback : Option Bool := none
  maxLoopIterations : Option Nat := none
  nestedExtends : Option Bool := none

def nat? : Toml → Option Nat
  | .integer (.ofNat value) => some value
  | _ => none

def bool? : Toml → Option Bool
  | .bool value => some value
  | _ => none

def string? : Toml → Option String
  | .string value => some value
  | _ => none

/-- The names of the settings in the order that a list of them goes by. -/
def settingNames : List String :=
  ["max_depth", "default_namespace", "loop_fallback_limit", "loop_fallback", "max_loop_iterations",
   "nested_extends"]

namespace Settings

def set? (settings : Settings) (name : String) (value : Toml) : Option Settings :=
  match name with
  | "max_depth" => (nat? value).map fun value => { settings with maxDepth := some value }
  | "default_namespace" => (string? value).map fun value => { settings with defaultNamespace := some value }
  | "loop_fallback_limit" => (nat? value).map fun value => { settings with loopFallbackLimit := some value }
  | "loop_fallback" => (bool? value).map fun value => { settings with loopFallback := some value }
  | "max_loop_iterations" => (nat? value).map fun value => { settings with maxLoopIterations := some value }
  | "nested_extends" => (bool? value).map fun value => { settings with nestedExtends := some value }
  | _ => none

def setAll? (settings : Settings) : List (String × Toml) → Option Settings
  | [] => some settings
  | (name, value) :: rest => (settings.set? name value).bind fun settings => setAll? settings rest

/-- A table of settings, or a list that gives every one of them. -/
def ofToml? : Toml → Option Settings
  | .table _ fields => setAll? {} fields
  | .array items => if items.length < settingNames.length then none else setAll? {} (settingNames.zip items)
  | _ => none

/-- No fallback at all wins over a limit for it. -/
def apply (settings : Settings) (config : Config) : Config :=
  let fallback := settings.loopFallbackLimit.or config.loopFallback
  { config with
    maxDepth := settings.maxDepth.getD config.maxDepth
    defaultNamespace := settings.defaultNamespace.getD config.defaultNamespace
    loopFallback := if settings.loopFallback = some false then none else fallback
    maxLoopIterations := settings.maxLoopIterations.getD config.maxLoopIterations
    nestedExtends := settings.nestedExtends.getD config.nestedExtends }

end Settings

def aliases? : Toml → Option (Fields String)
  | .table _ fields => fields.mapM fun (short, base) => (string? base).map fun base => (short, base)
  | _ => none

/-- Reads the text of a configuration file. -/
def ofText? (text : String) : Option Config := do
  let document ← Toml.read? text
  if document.names.all fun name => name = "engine" || name = "aliases" then
    let settings ← match document.find? "engine" with
      | some table => Settings.ofToml? table
      | none => some {}
    let aliases ← match document.find? "aliases" with
      | some table => aliases? table
      | none => some []
    some { settings.apply {} with aliases }
  else none

/-- Why there is no configuration to be had from a file. -/
inductive LoadError where
  | unreadable (cause : ReadError)
  | malformed
deriving DecidableEq, Repr

def LoadError.message : LoadError → String
  | .unreadable cause => "Failed to read config file: " ++ cause.message
  | .malformed => "Failed to parse config TOML"

def load (files : Files) (path : String) : Except LoadError Config :=
  match files.read path with
  | .error cause => .error (.unreadable cause)
  | .ok text =>
    match ofText? text with
    | some config => .ok config
    | none => .error .malformed

end Stencil.Config
