import Stencil.Proofs.ComponentContainment

/-! Nodes rendered one behind the other. Whatever has been rendered in a session, the stack is afterwards as it
was, and nothing else of the session is seen by what comes later: not the templates fetched, not the expressions
read, and no binding, section or slot of what came before. So a list of nodes prints what its parts print. -/

namespace Stencil.Render
open Template

variable {engine other : Engine} {realm : Realm} {α β : Type}

/-- Of a session that has no room for another name, the actions see the stack alone and leave it as it is. -/
def Confined (first second : Render engine α) : Prop :=
  ∀ before before', engine.config.maxDepth ≤ before.stack.length → before'.stack = before.stack →
    (second before').1 = (first before).1 ∧ (first before).2.stack = before.stack ∧
      (second before').2.stack = before.stack

namespace Confined

variable {first second : Render engine α}

theorem silent (same : ∀ before before', (second before').1 = (first before).1)
    (kept : ∀ before, (first before).2.stack = before.stack)
    (kept' : ∀ before, (second before).2.stack = before.stack) : Confined first second :=
  fun before before' _ level => ⟨same before before', kept before, (kept' before').trans level⟩

theorem pure (value : α) : Confined (Pure.pure value : Render engine α) (Pure.pure value) :=
  silent (fun _ _ => rfl) (fun _ => rfl) fun _ => rfl

theorem bind {next next' : α → Render engine β} (confined : Confined first second)
    (rest : ∀ value, Returns first value → Confined (next value) (next' value)) :
    Confined (first >>= next) (second >>= next') := by
  intro before before' full level
  obtain ⟨same, kept, kept'⟩ := confined before before' full level
  rcases ran : first before with ⟨halt | value, after⟩ <;> rcases ran' : second before' with ⟨result', after'⟩ <;>
    rw [ran] at same kept <;> rw [ran'] at same kept' <;> cases same
  · rw [bind_error ran, bind_error ran']
    exact ⟨rfl, kept, kept'⟩
  · rw [bind_ok ran, bind_ok ran']
    rw [← kept] at full kept' ⊢
    exact rest value ⟨before, by rw [ran]⟩ after after' full kept'

/-- Nothing is asked of what would be rendered one level deeper. -/
theorem enter (name : String) (next next' : Render engine α) :
    Confined (Render.enter name >>= fun _ => next) (Render.enter name >>= fun _ => next') := by
  intro before before' full level
  have refused (session : Session engine) (full : engine.config.maxDepth ≤ session.stack.length) :
      Render.enter name session = (.error (.failed (.recursionLimit engine.config.maxDepth
        (session.stack.reverse ++ [name]))), _) := if_pos full
  rw [bind_error (refused before full), bind_error (refused before' (level ▸ full)), level]
  exact ⟨rfl, rfl, rfl⟩

theorem unwinding (confined : Confined first second) : Confined (Render.unwinding first) (Render.unwinding second) := by
  intro before before' full level
  obtain ⟨same, kept, kept'⟩ := confined before before' full level
  refine ⟨same, ?_, ?_⟩
  · change (first before).2.stack.drop _ = before.stack
    rw [kept, Nat.sub_self, List.drop_zero]
  · change (second before').2.stack.drop _ = before.stack
    rw [kept', level, Nat.sub_self, List.drop_zero]

theorem reported {first second : Render engine String} (confined : Confined first second) :
    Confined (Render.reported first) (Render.reported second) := by
  intro before before' full level
  obtain ⟨same, kept, kept'⟩ := confined before before' full level
  rw [reported_apply, reported_apply, same]
  exact ⟨rfl, kept, kept'⟩

theorem outcome (name : String) (result : Except ComponentError String) :
    Confined (Render.outcome name result : Render engine String) (Render.outcome name result) := by
  unfold Render.outcome
  split <;> exact silent (fun _ _ => rfl) (fun _ => rfl) fun _ => rfl

end Confined

/-- The rules of a session without room. They hold where no level is left. -/
def confinedRules (engine : Engine) : Rules engine engine (.all engine) where
  sibling := (Engine.Kin.refl engine).toSibling
  closed := Realm.closed_all engine
  Steady left first second := left = 0 → Confined first second
  Climbing left first second := left = 0 → Confined first second
  Reporting left first second := left = 0 → Confined first second
  pure _ value _ := .pure value
  bind steady rest last := (steady last).bind fun value returns => rest value returns last
  andClimb steady rest last := (steady last).bind fun value returns => rest value returns last
  climbing steady := steady
  evaluating _ _ settled _ := .silent (fun before before' => congrArg Except.ok (settled.same _ _)) (fun _ => rfl) fun _ => rfl
  template? _ name _ _ := .silent (fun _ _ => by rw [template?_fst, template?_fst])
    (fun session => (template?_kept name session).1) fun session => (template?_kept name session).1
  fail _ _ _ _ := .silent (fun _ _ => rfl) (fun _ => rfl) fun _ => rfl
  entering name _ _ _ _ := .enter name _ _
  within name _ _ _ _ := .enter name _ _
  unwinding climbing last := (climbing last).unwinding
  reported steady last := (steady last).reported
  outcome _ name _ _ _ _ := (Confined.enter _ _ _).bind fun result _ => .outcome name result

/-- What can be rendered in a session: nodes, or whatever a host can ask for. -/
inductive Deed where
  | nodes (sections : Sections) (body : List Node) (scope : Scope)
  | asked (operation : Operation)

namespace Deed

def on (below : Below engine) : Deed → Render engine String
  | .nodes sections body scope => Render.nodes below sections body scope
  | .asked operation => operation.on below

def run (deed : Deed) : Render engine String := onStack fun below => deed.on below

/-- A session after some renderings, whether they failed or not. -/
def after (deeds : List Deed) (before : Session engine) : Session engine :=
  deeds.foldl (fun session deed => (deed.run session).2) before

theorem steady {rules : Rules engine other realm} (boundless : realm.Boundless) {left : Nat} {first : Below engine}
    {second : Below other} (below : rules.Below left first second) (deed : Deed) :
    rules.Steady left (deed.on first) (deed.on second) := by
  cases deed with
  | nodes sections body scope => exact Rules.nodes below sections body (fun node _ => boundless.node node) scope
  | asked operation =>
    cases operation with
    | named reference scope => exact Rules.named below (fun _ => boundless.opens _) scope
    | source text scope => exact Rules.source below (boundless.text text) scope
    | template template scope => exact Rules.entered below (fun node _ => boundless.node node) scope
    | fragment template scope => exact Rules.fragment below (fun node _ => boundless.node node) scope
    | component name props slots =>
      exact Rules.component below (boundless.reference name) props fun slot _ => boundless.text slot.2

/-- Two sessions with the same stack are the same to whatever is rendered in them. -/
theorem on_alike (deed : Deed) {before before' : Session engine} (level : before'.stack = before.stack) :
    let below := levels engine (engine.config.maxDepth - before.stack.length)
    (deed.on below before').1 = (deed.on below before).1 ∧ (deed.on below before).2.stack = before.stack := by
  have boundless := Realm.boundless_all engine
  by_cases fits : before.stack.length ≤ engine.config.maxDepth
  · have room := Nat.add_sub_of_le fits
    have steady := deed.steady boundless (levels_agree (.refl engine) (engine.config.maxDepth - before.stack.length))
    exact ⟨(steady.2 before before' level room).1, steady.1.restores before room⟩
  · have full := Nat.le_of_not_le fits
    have below : (confinedRules engine).Below 0 (levels engine 0) (levels engine 0) := ⟨nofun, nofun⟩
    rw [Nat.sub_eq_zero_of_le full]
    obtain ⟨same, kept, _⟩ := deed.steady boundless below rfl before before' full level
    exact ⟨same, kept⟩

theorem run_alike (deed : Deed) {before before' : Session engine} (level : before'.stack = before.stack) :
    (deed.run before').1 = (deed.run before).1 ∧ (deed.run before).2.stack = before.stack := by
  unfold run
  rw [onStack_apply, onStack_apply, level]
  exact deed.on_alike level

theorem stack_after (deeds : List Deed) (before : Session engine) : (after deeds before).stack = before.stack := by
  induction deeds generalizing before with
  | nil => rfl
  | cons deed deeds ih => exact (ih _).trans (deed.run_alike rfl).2

end Deed

theorem nodes_append (below : Below engine) (sections : Sections) (front back : List Node) (scope : Scope) :
    nodes below sections (front ++ back) scope = do
      let ahead ← nodes below sections front scope
      let behind ← nodes below sections back scope
      return ahead ++ behind := by
  induction front with
  | nil =>
    change _ = nodes below sections back scope >>= fun behind => pure ("" ++ behind)
    simp only [String.empty_append]
    exact (bind_pure _).symm
  | cons first rest ih =>
    rw [List.cons_append, nodes, nodes, ih]
    simp only [bind_assoc, pure_bind, String.append_assoc]

theorem nodes_single (below : Below engine) (sections : Sections) (only : Node) (scope : Scope) :
    nodes below sections [only] scope = node below sections only scope := by
  simp only [nodes, pure_bind, String.append_empty, bind_pure]

theorem bind_fst {action : Render engine α} {next : α → Render engine β} {session : Session engine}
    {rest : α → Except Halt β} (onward : ∀ value, (action session).1 = .ok value →
      (next value (action session).2).1 = rest value) : ((action >>= next) session).1 = (action session).1 >>= rest := by
  rcases ran : action session with ⟨halt | value, after⟩
  · rw [bind_error ran]
    rfl
  · rw [ran] at onward
    rw [bind_ok ran]
    exact onward value rfl

section Printing
variable (sections : Sections) (scope : Scope) (before : Session engine)

theorem printing_append (front back : List Node) : (printing sections (front ++ back) scope before).1 = do
    let ahead ← (printing sections front scope before).1
    let behind ← (printing sections back scope before).1
    return ahead ++ behind := by
  have kept := ((Deed.nodes sections front scope).run_alike (rfl : before.stack = before.stack)).2
  have alike := ((Deed.nodes sections back scope).on_alike kept).1
  unfold printing
  rw [onStack_apply, onStack_apply, onStack_apply, nodes_append]
  refine bind_fst fun ahead _ => ?_
  refine (bind_fst fun behind _ => ?_).trans (congrArg (· >>= _) alike)
  rfl

theorem printing_nodewise (body : List Node) : (printing sections body scope before).1 =
    String.join <$> body.mapM fun node => (printing sections [node] scope before).1 := by
  induction body with
  | nil => rfl
  | cons first rest ih =>
    rw [← List.singleton_append, printing_append, ih, List.singleton_append, List.mapM_cons]
    simp only [map_eq_pure_bind, bind_assoc, pure_bind, String.join_cons]

end Printing

/-- A component prints what comes of its own name, props and slots. -/
theorem component_alone (sections : Sections) (span : Text.Span) (args defaultSlot : String) (slots : List Slot)
    (scope : Scope) (before : Session engine) :
    (printing sections [.component span args defaultSlot slots] scope before).1 =
      engine.resolved (useIn scope args defaultSlot slots).name >>= fun _ =>
        ((useIn scope args defaultSlot slots).operation.run before).1 := by
  obtain ⟨after, kept, called⟩ := call_apply scope args defaultSlot slots before
  generalize useIn scope args defaultSlot slots = use at called ⊢
  have alike : (use.on _ after).1 = (use.on _ before).1 := ((Deed.asked use.operation).on_alike kept).1
  have resolved := resolveName_run use.name after
  unfold printing Operation.run
  rw [onStack_apply, onStack_apply, nodes_single, node, called]
  cases expanded : engine.resolved use.name with
  | error halt => rw [bind_error (resolved.trans (by rw [expanded]))]; rfl
  | ok name =>
    rw [bind_ok (resolved.trans (by rw [expanded]))]
    exact alike

/-- What is rendered in a session one behind the other does not meet. -/
structure Composes (before : Session engine) : Prop where
  /-- Of two lists of nodes each prints what it prints alone, and the first failure is that of both. -/
  appended : ∀ sections front back scope, (printing sections (front ++ back) scope before).1 = do
    let ahead ← (printing sections front scope before).1
    let behind ← (printing sections back scope before).1
    return ahead ++ behind
  /-- So what a list prints is told from its nodes, each rendered by itself. -/
  nodewise : ∀ sections body scope, (printing sections body scope before).1 =
    String.join <$> body.mapM fun node => (printing sections [node] scope before).1
  /-- A component among them is given its own name, props and slots, and no more. -/
  component : ∀ sections span args defaultSlot slots scope,
    (printing sections [.component span args defaultSlot slots] scope before).1 =
      engine.resolved (useIn scope args defaultSlot slots).name >>= fun _ =>
        ((useIn scope args defaultSlot slots).operation.run before).1
  /-- Whatever has been rendered, in any scope and with any sections, and whether it failed or not, the rest is
  rendered as if that had not been there, and on the same stack. -/
  forgotten : ∀ (earlier : List Deed) (later : Deed),
    (later.run (Deed.after earlier before)).1 = (later.run before).1 ∧ (Deed.after earlier before).stack = before.stack

/-- This holds of every session, with room on its stack or without. -/
theorem nodes_compose (before : Session engine) : Composes before where
  appended sections front back scope := printing_append sections scope before front back
  nodewise sections body scope := printing_nodewise sections scope before body
  component sections span args defaultSlot slots scope := component_alone sections span args defaultSlot slots scope before
  forgotten earlier later :=
    have kept := Deed.stack_after earlier before
    ⟨(later.run_alike kept).1, kept⟩

end Stencil.Render
