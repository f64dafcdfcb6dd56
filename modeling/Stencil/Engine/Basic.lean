import Stencil.Engine.Component
import Stencil.Engine.Config
import Stencil.Engine.Directive

/-! An engine: its templates, components and directives by name, the data that every
rendering sees, its configuration, and a loader for names that are not registered. -/

namespace Stencil

abbrev Loader := String → Option String

structure Engine where
  config : Config := {}
  templates : Fields Template := []
  components : Fields Component := []
  directives : Fields Handler := []
  globals : Scope := {}
  loader : Option Loader := none

namespace Engine

/-- An engine with the directives that every engine knows. -/
def new (config : Config) (now : Calendar.Moment) : Engine :=
  { config, directives := Directive.builtins now }

/-- A template of the same name is replaced. -/
def registerTemplate (engine : Engine) (name source : String) : Engine :=
  { engine with templates := engine.templates.insert name (Template.parse name source) }

def removeTemplate (engine : Engine) (name : String) : Engine :=
  { engine with templates := engine.templates.erase name }

def registerComponent (engine : Engine) (name : String) (component : Component) : Engine :=
  { engine with components := engine.components.insert name component }

def registerDirective (engine : Engine) (name : String) (handler : Handler) : Engine :=
  { engine with directives := engine.directives.insert name handler }

def withLoader (engine : Engine) (loader : Loader) : Engine := { engine with loader := some loader }

/-- Replaces the shared data; anything but an object clears it. -/
def setData (engine : Engine) (data : Value) : Engine := { engine with globals := Scope.ofValue data }

/-- The template that the loader has under a name. -/
def load? (engine : Engine) (name : String) : Option Template :=
  (engine.loader.bind fun loader => loader name).map (Template.parse name)

/-- Registered templates hide those of the loader. -/
def template? (engine : Engine) (name : String) : Option Template :=
  (engine.templates.find? name).or (engine.load? name)

def component? (engine : Engine) (name : String) : Option Component := engine.components.find? name

/-- The engine as shown to developers. -/
def describe (engine : Engine) : String :=
  let quoteAll (names : List String) := String.intercalate ", " (names.map Text.quoted)
  let config := engine.config
  let fallback := match config.loopFallback with
    | some limit => "Some(" ++ toString limit ++ ")"
    | none => "None"
  let aliases := config.aliases.map fun (short, base) => Text.quoted short ++ ": " ++ Text.quoted base
  "Engine \x7b templates: [" ++ quoteAll engine.templates.names
    ++ "], components: \x7b" ++ quoteAll engine.components.names
    ++ "\x7d, directives: [" ++ quoteAll engine.directives.names
    ++ "], config: EngineConfig \x7b max_depth: " ++ toString config.maxDepth
    ++ ", default_namespace: " ++ Text.quoted config.defaultNamespace
    ++ ", loop_fallback_limit: " ++ fallback
    ++ ", max_loop_iterations: " ++ toString config.maxLoopIterations
    ++ ", nested_extends: " ++ (if config.nestedExtends then "true" else "false")
    ++ ", aliases: \x7b" ++ String.intercalate ", " aliases
    ++ "\x7d \x7d, loader: " ++ (if engine.loader.isSome then "true" else "false") ++ " \x7d"

end Engine
end Stencil
