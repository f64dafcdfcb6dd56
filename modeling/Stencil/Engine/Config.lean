import Stencil.Fields
import Stencil.Template.Name
import Stencil.Text.Quote

/-! The limits and naming conventions of an engine. -/

namespace Stencil

structure Config where
  /-- How many templates and components may be rendered inside each other. -/
  maxDepth : Nat := 32
  /-- Where a component is looked for when its name leads nowhere as it stands. -/
  defaultNamespace : String := "components"
  /-- The limit of a counting loop whose own limit is no number; without one it prints nothing. -/
  loopFallback : Option Nat := some 5
  maxLoopIterations : Nat := 10000
  /-- Whether the layout of a layout counts. -/
  nestedExtends : Bool := true
  aliases : Fields String := []
deriving DecidableEq, Repr

/-- What a reference stands for. -/
inductive Expansion where
  | plain
  | expanded (name : String)
  | unknown (short : String)
deriving DecidableEq, Repr

namespace Config

def aliasMark : List Char := [':', ':']

/-- Expands a reference `alias::name`. Only a word can be an alias, and an alias for the
empty prefix stands for nothing. -/
def expand (config : Config) (reference : String) : Expansion :=
  match Text.cutFirst? aliasMark reference.toList with
  | none => .plain
  | some (short, name) =>
    if !Template.isSegment short then .plain
    else
      let short := String.ofList short
      let name := String.ofList name
      match config.aliases.find? short with
      | none => .unknown short
      | some base => .expanded (if base.isEmpty then name else base ++ "." ++ name)

/-- The names under which a component is looked for, in this order. -/
def candidates (config : Config) (name : String) : List String :=
  let base := config.defaultNamespace
  if base.isEmpty || (base ++ ".").isPrefixOf name then [name] else [name, base ++ "." ++ name]

end Config
end Stencil
