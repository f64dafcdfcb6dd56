import Stencil.Engine.Run
import Stencil.Proofs.EvaluatorRecord
import Stencil.Proofs.TemplateOutline

/-! What a rendering may come upon: which names it asks for, which nodes it goes through and which
texts it reads again. Whatever contains where it starts and everything that leads on from there
contains the whole rendering, so that nothing need be known of what lies outside. -/

namespace Stencil

/-- Two engines with the same components, directives and data. Their templates and their limits may be
different. -/
structure Engine.Sibling (engine other : Engine) : Prop where
  config : other.config = { engine.config with maxDepth := other.config.maxDepth }
  components : other.components = engine.components
  directives : other.directives = engine.directives
  globals : other.globals = engine.globals

namespace Engine.Sibling

variable {engine other : Engine} (sibling : Sibling engine other)
include sibling

theorem expand (reference : String) : other.config.expand reference = engine.config.expand reference := by
  rw [sibling.config]
  rfl

theorem candidates (name : String) : other.config.candidates name = engine.config.candidates name := by
  rw [sibling.config]
  rfl

theorem loopFallback : other.config.loopFallback = engine.config.loopFallback := by rw [sibling.config]

theorem maxLoopIterations : other.config.maxLoopIterations = engine.config.maxLoopIterations := by rw [sibling.config]

theorem nestedExtends : other.config.nestedExtends = engine.config.nestedExtends := by rw [sibling.config]

theorem component? (name : String) : other.component? name = engine.component? name := by
  unfold Engine.component?
  rw [sibling.components]

theorem dataScope (data : Value) : other.dataScope data = engine.dataScope data := by
  unfold Engine.dataScope
  rw [sibling.globals]

theorem hopLimit : Render.hopLimit other = Render.hopLimit engine := by
  unfold Render.hopLimit
  rw [sibling.components]

end Engine.Sibling

namespace Render
open Template

variable {engine other : Engine} {α β : Type}

theorem bind_ok {action : Render engine α} {next : α → Render engine β} {before after : Session engine} {value : α}
    (ran : action before = (.ok value, after)) : (action >>= next) before = next value after := by
  simp only [bind, ExceptT.bind, ExceptT.mk, StateT.bind, ran, ExceptT.bindCont]

theorem bind_error {action : Render engine α} {next : α → Render engine β} {before after : Session engine}
    {halt : Halt} (ran : action before = (.error halt, after)) :
    (action >>= next) before = (.error halt, after) := by
  simp only [bind, ExceptT.bind, ExceptT.mk, StateT.bind, ran, ExceptT.bindCont]
  rfl

theorem enter_room (name : String) {session : Session engine} (room : session.stack.length < engine.config.maxDepth) :
    enter name session = (.ok (), { session with
      stack := Template.title name :: session.stack
      log := .entered session.stack name :: session.log }) :=
  if_neg (Nat.not_le.2 room)

theorem enter_full (name : String) {session : Session engine} (full : session.stack.length = engine.config.maxDepth) :
    enter name session =
      (.error (.failed (.recursionLimit engine.config.maxDepth (session.stack.reverse ++ [name]))), { session with
        log := .refused session.stack name
          (.recursionLimit engine.config.maxDepth (session.stack.reverse ++ [name])) :: session.log }) :=
  if_pos (Nat.le_of_eq full.symm)

theorem template?_kept (name : String) (session : Session engine) :
    (template? name session).2.stack = session.stack ∧ (template? name session).2.log = session.log := by
  unfold template?
  split
  · exact ⟨rfl, rfl⟩
  · split
    · exact ⟨rfl, rfl⟩
    · split
      · exact ⟨rfl, rfl⟩
      · exact ⟨rfl, rfl⟩

theorem template?_evaluator (name : String) (session : Session engine) :
    (template? name session).2.evaluator = session.evaluator := by
  unfold template?
  split
  · rfl
  · split
    · rfl
    · split
      · rfl
      · rfl

/-- What is fetched once is what the engine has under the name at any time. -/
theorem template?_fst (name : String) (session : Session engine) :
    (template? name session).1 = .ok (engine.template? name) := by
  unfold template? Engine.template?
  split
  next found =>
    rw [found]
    rfl
  next missing =>
    rw [missing, Option.none_or]
    split
    next template kept =>
      obtain ⟨newer, older, same, _⟩ := List.lookup_eq_some_iff.1 kept
      have inside : (name, template) ∈ session.loaded := by
        rw [same]
        exact List.mem_append_right _ List.mem_cons_self
      rw [session.genuine _ inside]
    next =>
      split
      next absent => exact congrArg Except.ok absent.symm
      next template found => exact congrArg Except.ok found.symm

theorem onStack_apply (action : Below engine → Render engine α) (session : Session engine) :
    onStack action session = action (levels engine (engine.config.maxDepth - session.stack.length)) session :=
  rfl

def Returns (action : Render engine α) (value : α) : Prop :=
  ∃ session, (action session).1 = .ok value

theorem Returns.of_pure {value other : α} (returns : Returns (pure value : Render engine α) other) :
    value = other := by
  obtain ⟨session, same⟩ := returns
  cases same
  rfl

theorem Returns.of_bind {action : Render engine α} {next : α → Render engine β} {result : β}
    (returns : Returns (action >>= next) result) : ∃ value, Returns action value ∧ Returns (next value) result := by
  obtain ⟨session, same⟩ := returns
  rcases ran : action session with ⟨halt | value, after⟩
  · rw [bind_error ran] at same
    cases same
  · rw [bind_ok ran] at same
    exact ⟨value, ⟨session, by rw [ran]⟩, after, same⟩

theorem Returns.template? {name : String} {found : Option Template}
    (returns : Returns (Render.template? name : Render engine _) found) : engine.template? name = found := by
  obtain ⟨session, same⟩ := returns
  rw [template?_fst] at same
  cases same
  rfl

theorem mem_of_extension? {nodes : List Node} {args : String} (found : extension? nodes = some args) :
    ∃ span, .extension span args ∈ nodes := by
  obtain ⟨node, mem, same⟩ := List.exists_of_findSome?_eq_some found
  split at same
  next span args =>
    cases same
    exact ⟨span, mem⟩
  next => cases same

/-- The name that a first argument gives. -/
def Names (engine : Engine) (args name : String) : Prop :=
  ∃ scope, Returns (nameArgument scope ((Argument.list args).headD "") : Render engine String) name

/-- What a reference stands for once its alias is expanded. -/
def Stands (engine : Engine) (reference name : String) : Prop :=
  Returns (resolveName reference : Render engine String) name

/-- A component that a rendering can come upon. -/
def Known (engine : Engine) (definition : Component) : Prop :=
  (∃ name, engine.component? name = some definition) ∨ ∃ body, definition = .fragment body

theorem known_of_firstComponent? {names : List String} {name : String} {definition : Component}
    (returns : Returns (firstComponent? names : Render engine _) (some (name, definition))) :
    Known engine definition := by
  induction names with
  | nil => cases returns.of_pure
  | cons candidate names ih =>
    unfold firstComponent? at returns
    split at returns
    next component found =>
      cases returns.of_pure
      exact .inl ⟨name, found⟩
    next =>
      obtain ⟨template, _, later⟩ := returns.of_bind
      cases template with
      | some template =>
        cases later.of_pure
        exact .inr ⟨template, rfl⟩
      | none => exact ih later

theorem known_of_component? {reference name : String} {definition : Component}
    (returns : Returns (component? reference : Render engine _) (some (name, definition))) :
    Known engine definition := by
  unfold component? at returns
  split at returns
  · exact known_of_firstComponent? returns
  · exact known_of_firstComponent? returns
  · cases returns.of_pure

/-- The texts are those given before and those of the slots. -/
theorem Returns.slotTexts {scope : Scope} {slots : List Slot} {texts result : Fields String}
    (returns : Returns (Render.slotTexts scope texts slots : Render engine _) result) :
    ∀ entry ∈ result, entry ∈ texts ∨ ∃ slot ∈ slots, entry.2 = slot.raw := by
  induction slots generalizing texts with
  | nil =>
    cases returns.of_pure
    exact fun entry mem => .inl mem
  | cons slot slots ih =>
    obtain ⟨name, _, later⟩ := returns.of_bind
    intro entry mem
    rcases ih later entry mem with before | ⟨other, there, same⟩
    · rcases Fields.mem_insert before with rfl | before
      · exact .inr ⟨slot, List.mem_cons_self, rfl⟩
      · exact .inl before
    · exact .inr ⟨other, List.mem_cons_of_mem _ there, same⟩

/-- What a rendering may come upon. -/
structure Realm where
  /-- The names that templates are asked for by. -/
  asked : String → Prop
  node : Node → Prop
  /-- The references that components are looked for by. -/
  reference : String → Prop
  definition : Component → Prop
  /-- The texts that are read again. -/
  text : String → Prop

namespace Realm

variable (realm : Realm)

/-- The template of a name, if there is any, belongs to the realm. -/
def Opens (engine : Engine) (name : String) : Prop :=
  realm.asked name ∧ ∀ template, engine.template? name = some template → ∀ node ∈ template.nodes, realm.node node

/-- Nothing lies outside. -/
structure Boundless : Prop where
  asked : ∀ name, realm.asked name
  node : ∀ node, realm.node node
  reference : ∀ name, realm.reference name
  text : ∀ text, realm.text text

/-- Nothing leads out of the realm. A program of the host may lead anywhere. -/
structure Closed (engine : Engine) : Prop where
  children : ∀ {outer}, realm.node outer → ∀ inner ∈ outer.children, realm.node inner
  inclusion : ∀ {span args}, realm.node (.inclusion span args) → ∀ {reference name}, Names engine args reference →
    Stands engine reference name → realm.Opens engine name
  extension : ∀ {span args}, realm.node (.extension span args) → ∀ {reference name}, Names engine args reference →
    Stands engine reference name → realm.Opens engine name
  call : ∀ {span args defaultSlot slots}, realm.node (.component span args defaultSlot slots) →
    (∀ {name}, Names engine args name → realm.reference name) ∧ realm.text defaultSlot ∧
      ∀ slot ∈ slots, realm.text slot.raw
  candidates : ∀ {reference name}, realm.reference reference → Stands engine reference name →
    ∀ candidate ∈ engine.config.candidates name, realm.asked candidate
  known : ∀ {component}, realm.definition component → Known engine component
  found : ∀ {reference resolved component}, realm.reference reference →
    Returns (component? reference : Render engine _) (some (resolved, component)) → realm.definition component
  fragment : ∀ {body}, realm.definition (.fragment body) → ∀ node ∈ body.nodes, realm.node node
  adapter : ∀ {target forward}, realm.definition (.adapter target forward) → realm.reference target
  host : ∀ {run}, realm.definition (.function run) → realm.Boundless
  text : ∀ {text}, realm.text text → ∀ node ∈ (read text).1, realm.node node

/-- Everything, though of the components only those that the engine knows. -/
def all (engine : Engine) : Realm where
  asked _ := True
  node _ := True
  reference _ := True
  definition := Known engine
  text _ := True

variable {realm} {engine : Engine}

theorem Boundless.opens (boundless : realm.Boundless) (name : String) : realm.Opens engine name :=
  ⟨boundless.asked name, fun _ _ node _ => boundless.node node⟩

theorem boundless_all (engine : Engine) : (all engine).Boundless where
  asked _ := trivial
  node _ := trivial
  reference _ := trivial
  text _ := trivial

theorem closed_all (engine : Engine) : (all engine).Closed engine where
  children _ _ _ := trivial
  inclusion _ _ _ _ _ := (boundless_all engine).opens _
  extension _ _ _ _ _ := (boundless_all engine).opens _
  call _ := ⟨fun _ => trivial, trivial, fun _ _ => trivial⟩
  candidates _ _ _ _ := trivial
  known known := known
  found _ returns := known_of_component? returns
  fragment _ _ _ := trivial
  adapter _ := trivial
  host _ := boundless_all engine
  text _ _ _ := trivial

end Realm
end Render
end Stencil
