import Stencil.Engine.Basic

/-! Which templates and components a template depends on, found without rendering it. Only
names that are quoted literals can be followed. Component names are told in two spellings,
bare and inside the default namespace. -/

namespace Stencil.Dependencies
open Template

inductive ReferenceKind where
  | layout | inclusion | component
deriving DecidableEq, Repr

def ReferenceKind.ofDirective? (name : String) : Option ReferenceKind :=
  if name = "extends" then some .layout
  else if name = "include" then some .inclusion
  else if name = "component" then some .component
  else none

def reference? : Token → Option (ReferenceKind × String)
  | .directive name (some args) => do
    let kind ← ReferenceKind.ofDirective? name
    let first ← (Argument.list args).head?
    let target ← Argument.stringLiteral? first.toList
    some (kind, String.ofList target)
  | _ => none

def references (source : String) : List (ReferenceKind × String) :=
  (tokenize source).filterMap fun lexeme => reference? lexeme.value

/-- A name that is looked up, and what it is looked up as. -/
abbrev Lookup := String × ReferenceKind

structure Edge where
  source : String
  kind : ReferenceKind
  target : String
deriving DecidableEq, Repr

def Edge.lookup (edge : Edge) : Lookup := (edge.target, edge.kind)

structure Graph where
  /-- The templates that were found and searched. -/
  templates : Names := []
  /-- In the order of discovery. -/
  edges : List Edge := []
  components : Names := []
  missing : Names := []
deriving DecidableEq, Repr, Inhabited

/-- What a name leads to. -/
inductive Finding where
  | source (resolved : String) (template : Template)
  /-- A component of the host, in which nothing can be searched. -/
  | closed
  | forward (target : String)
  | missing

def findComponent (engine : Engine) : List String → Finding
  | [] => .missing
  | name :: names =>
    match engine.component? name with
    | some (.fragment template) => .source name template
    | some (.function _) => .closed
    | some (.adapter target _) => .forward target
    | none =>
      match engine.template? name with
      | some template => .source name template
      | none => findComponent engine names

def find (engine : Engine) (name : String) (kind : ReferenceKind) : Finding :=
  if kind = .component then findComponent engine (engine.config.candidates name)
  else match engine.template? name with
    | some template => .source name template
    | none => .missing

/-- A name whose alias is unknown stays as it is and will be missing. -/
def expanded (engine : Engine) (reference : String) : String :=
  match engine.config.expand reference with
  | .expanded name => name
  | _ => reference

/-- A component goes by its name as it stands, and by the same inside the default namespace or
outside of it. -/
def spellings (engine : Engine) (name : String) : List String :=
  let base := engine.config.defaultNamespace
  if base.isEmpty then [name]
  else match Text.stripPrefix? (base ++ ".").toList name.toList with
    | some bare => [name, String.ofList bare]
    | none => [name, base ++ "." ++ name]

def noteComponent (engine : Engine) (components : Names) (name : String) : Names :=
  (spellings engine name).foldl Names.insert components

def edgesOf (engine : Engine) (resolved : String) (template : Template) : List Edge :=
  (references template.source).map fun (kind, name) => ⟨resolved, kind, expanded engine name⟩

/-- A walk along the references: what was found so far and what is still to be looked up. -/
structure Walk where
  graph : Graph := {}
  visited : List Lookup := []
  queue : List Lookup
deriving DecidableEq, Inhabited

namespace Walk

def start (root : String) : Walk := { queue := [(root, .inclusion)] }

/-- Adds the references of a template that has not been searched before. -/
def search (engine : Engine) (walk : Walk) (resolved : String) (template : Template) : Walk :=
  if resolved ∈ walk.graph.templates then walk
  else
    let found := edgesOf engine resolved template
    let uses := (found.filter fun edge => edge.kind = .component).map Edge.target
    { walk with
      graph := { walk.graph with
        templates := walk.graph.templates.insert resolved
        edges := walk.graph.edges ++ found
        components := uses.foldl (noteComponent engine) walk.graph.components }
      queue := walk.queue ++ found.map Edge.lookup }

/-- Looks up one name. Each name is looked up once for each kind of reference. -/
def visit (engine : Engine) (walk : Walk) (lookup : Lookup) : Walk :=
  if lookup ∈ walk.visited then walk
  else
    let walk := { walk with visited := lookup :: walk.visited }
    match find engine lookup.1 lookup.2 with
    | .source resolved template => walk.search engine resolved template
    | .closed => walk
    | .forward target =>
      { walk with
        graph := { walk.graph with components := noteComponent engine walk.graph.components target }
        queue := walk.queue ++ [(target, .component)] }
    | .missing => { walk with graph := { walk.graph with missing := walk.graph.missing.insert lookup.1 } }

/-- Goes on to what is to be looked up next, if anything is. -/
def step? (engine : Engine) (walk : Walk) : Option Walk :=
  match walk.queue with
  | [] => none
  | lookup :: queue => some ({ walk with queue }.visit engine lookup)

/-- Takes steps as long as there is one to take, be it without end. -/
def exhaust (step? : Walk → Option Walk) (walk : Walk) : Walk :=
  match step? walk with
  | none => walk
  | some next => next |>.exhaust step?
partial_fixpoint

def finish (engine : Engine) (walk : Walk) : Walk := walk.exhaust (step? engine)

end Walk

/-- Everything that can be reached from a template. -/
def graph (engine : Engine) (root : String) : Graph := ((Walk.start root).finish engine).graph

end Stencil.Dependencies
