import Mathlib.Data.List.Perm.Subperm
import Stencil.Proofs.RenderLimit

/-! What a rendering gives depends on what is on the stack and on nothing else that went
before: neither on the templates fetched from the loader nor on the expressions read. It
gives a text or a failure, unless adapters go round in a circle. Both are statements about
whole renderings that need the stack to end as it began, so the rules here extend those of
the stack. -/

namespace Stencil.Engine

/-- The first of the names that a component or template is known under. -/
def firstComponent? (engine : Engine) : List String → Option (String × Component)
  | [] => none
  | name :: names =>
    match engine.component? name with
    | some component => some (name, component)
    | none =>
      match engine.template? name with
      | some template => some (name, .fragment template)
      | none => firstComponent? engine names

/-- The component that a reference leads to, and the name it is found under. -/
def reached? (engine : Engine) (reference : String) : Option (String × Component) :=
  match engine.config.expand reference with
  | .plain => engine.firstComponent? (engine.config.candidates reference)
  | .expanded name => engine.firstComponent? (engine.config.candidates name)
  | .unknown _ => none

/-- The first name is that of an adapter, and its target is found under the second. -/
def Forwards (engine : Engine) (first second : String) : Prop :=
  ∃ target forward, engine.component? first = some (.adapter target forward) ∧
    ∃ component, engine.reached? target = some (second, component)

/-- Some adapter passes on, directly or through others, to itself. -/
def Circular (engine : Engine) : Prop := ∃ name, Relation.TransGen engine.Forwards name name

theorem firstComponent?_known {engine : Engine} {names : List String} {name : String} {component : Component}
    (found : engine.firstComponent? names = some (name, component)) :
    engine.component? name = some component ∨ engine.component? name = none ∧ ∃ body, component = .fragment body := by
  induction names with
  | nil => cases found
  | cons candidate names ih =>
    unfold firstComponent? at found
    split at found
    next registered =>
      cases found
      exact .inl registered
    next missing =>
      split at found
      next template _ =>
        cases found
        exact .inr ⟨missing, template, rfl⟩
      next => exact ih found

theorem reached?_known {engine : Engine} {reference name : String} {component : Component}
    (found : engine.reached? reference = some (name, component)) :
    engine.component? name = some component ∨ engine.component? name = none ∧ ∃ body, component = .fragment body := by
  unfold reached? at found
  split at found
  · exact firstComponent?_known found
  · exact firstComponent?_known found
  · cases found

/-- Not even their limits tell the two engines apart. -/
structure Twin (engine other : Engine) : Prop extends Kin engine other where
  maxDepth : other.config.maxDepth = engine.config.maxDepth

theorem Twin.refl (engine : Engine) : Twin engine engine := ⟨.refl engine, rfl⟩

/-- Only a rendering that leaves the realm tells the two engines apart. -/
structure Alike (engine other : Engine) (realm : Render.Realm) : Prop extends Sibling engine other where
  maxDepth : other.config.maxDepth = engine.config.maxDepth
  template? : ∀ name, realm.asked name → other.template? name = engine.template? name

theorem Twin.alike {engine other : Engine} (twin : engine.Twin other) (realm : Render.Realm) :
    engine.Alike other realm :=
  { twin with template? := fun name _ => twin.template? name }

end Stencil.Engine

namespace Stencil.Render
open Template

variable {engine other : Engine} {realm : Realm} {α β : Type}

theorem firstComponent?_fst (names : List String) (session : Session engine) :
    (firstComponent? names session).1 = .ok (engine.firstComponent? names) := by
  induction names generalizing session with
  | nil => rfl
  | cons name names ih =>
    unfold firstComponent? Engine.firstComponent?
    cases engine.component? name with
    | some component => rfl
    | none =>
      have fetched := template?_fst name session
      rcases ran : template? name session with ⟨result, after⟩
      rw [ran] at fetched
      cases fetched
      dsimp only
      rw [bind_ok ran]
      cases engine.template? name with
      | some template => rfl
      | none => exact ih after

theorem component?_fst (reference : String) (session : Session engine) :
    (component? reference session).1 = .ok (engine.reached? reference) := by
  unfold component? Engine.reached?
  cases engine.config.expand reference with
  | plain => exact firstComponent?_fst _ session
  | expanded name => exact firstComponent?_fst _ session
  | unknown short => rfl

theorem Returns.component? {reference : String} {found : Option (String × Component)}
    (returns : Returns (Render.component? reference : Render engine _) found) :
    found = engine.reached? reference := by
  obtain ⟨session, same⟩ := returns
  rw [component?_fst] at same
  cases same
  rfl

/-- What two actions leave of their sessions when they go the same way. -/
structure Abreast (before after : Session engine) (before' after' : Session other) : Prop where
  stack : after'.stack = after.stack
  read : ∃ texts, after.evaluator = before.evaluator.reading texts ∧
    after'.evaluator = before'.evaluator.reading texts

/-- Beside a session with the same stack, the second action gives what the first one gives,
leaves the same stack and has read the same texts. Only a circle of adapters can keep the
first from an end. -/
def Agree (left : Nat) (first : Render engine α) (second : Render other α) : Prop :=
  ∀ before before', before'.stack = before.stack → before.stack.length + left = engine.config.maxDepth →
    (second before').1 = (first before).1 ∧ Abreast before (first before).2 before' (second before').2 ∧
      ((first before).1 = .error .unending → engine.Circular)

theorem Abreast.trans {before middle after : Session engine} {before' middle' after' : Session other}
    (abreast : Abreast before middle before' middle') (further : Abreast middle after middle' after') :
    Abreast before after before' after' := by
  obtain ⟨texts, read, read'⟩ := abreast.read
  obtain ⟨later, readLater, readLater'⟩ := further.read
  refine ⟨further.stack, texts ++ later, ?_, ?_⟩
  · rw [readLater, read, Evaluator.reading_append]
  · rw [readLater', read', Evaluator.reading_append]

namespace Agree

variable {left : Nat} {first : Render engine α} {second : Render other α}

theorem silent (same : ∀ session session', (second session').1 = (first session).1)
    (ends : ∀ session, (first session).1 ≠ .error .unending)
    (kept : ∀ session, (first session).2.stack = session.stack ∧ (first session).2.evaluator = session.evaluator)
    (kept' : ∀ session, (second session).2.stack = session.stack ∧ (second session).2.evaluator = session.evaluator) :
    Agree left first second := by
  intro before before' level _
  refine ⟨same before before', ⟨?_, [], (kept before).2, (kept' before').2⟩, fun unending => absurd unending (ends before)⟩
  rw [(kept before).1, (kept' before').1, level]

theorem evaluating {action : StateM Evaluator α} (settled : Settled action) :
    Agree left (Render.evaluating action : Render engine α) (Render.evaluating action : Render other α) := by
  intro before before' level _
  obtain ⟨value, texts, given⟩ := settled
  refine ⟨?_, ⟨level, texts, ?_, ?_⟩, nofun⟩
  · change Except.ok (action before'.evaluator).1 = Except.ok (action before.evaluator).1
    rw [given, given]
  · exact congrArg Prod.snd (given before.evaluator)
  · exact congrArg Prod.snd (given before'.evaluator)

theorem bind {next : α → Render engine β} {next' : α → Render other β}
    (restored : ∀ before, before.stack.length + left = engine.config.maxDepth →
      (first before).2.stack = before.stack)
    (agree : Agree left first second) (rest : ∀ value, Returns first value → Agree left (next value) (next' value)) :
    Agree left (first >>= next) (second >>= next') := by
  intro before before' same level
  have kept := restored before level
  obtain ⟨sameResult, abreast, ends⟩ := agree before before' same level
  rcases ran : first before with ⟨halt | value, after⟩ <;> rcases ran' : second before' with ⟨result', after'⟩ <;>
    rw [ran] at kept sameResult abreast ends <;> rw [ran'] at sameResult abreast <;> cases sameResult
  · rw [bind_error ran, bind_error ran']
    exact ⟨rfl, abreast, fun unending => by cases unending; exact ends rfl⟩
  · rw [bind_ok ran, bind_ok ran']
    rw [← kept] at level
    obtain ⟨sameLater, further, endsLater⟩ := rest value ⟨before, by rw [ran]⟩ after after' abreast.stack level
    exact ⟨sameLater, abreast.trans further, endsLater⟩

theorem enter (alike : engine.Alike other realm) (name : String) (rest : ∀ fewer, left = fewer + 1 → Agree fewer first second) :
    Agree left (Render.enter name >>= fun _ => first) (Render.enter name >>= fun _ => second) := by
  intro before before' same level
  cases left with
  | zero =>
    have level' : before'.stack.length = other.config.maxDepth := by
      rw [same, alike.maxDepth]
      exact level
    rw [bind_error (enter_full name level), bind_error (enter_full name level'), same, alike.maxDepth]
    exact ⟨rfl, ⟨rfl, [], rfl, rfl⟩, nofun⟩
  | succ fewer =>
    have room : before.stack.length < engine.config.maxDepth := by omega
    have room' : before'.stack.length < other.config.maxDepth := by
      rw [same, alike.maxDepth]
      exact room
    rw [bind_ok (enter_room name room), bind_ok (enter_room name room')]
    obtain ⟨sameResult, abreast, ends⟩ := rest fewer rfl
      { before with stack := Template.title name :: before.stack, log := .entered before.stack name :: before.log }
      { before' with stack := Template.title name :: before'.stack, log := .entered before'.stack name :: before'.log }
      (congrArg (_ :: ·) same) (by rw [List.length_cons]; omega)
    exact ⟨sameResult, ⟨abreast.stack, abreast.read⟩, ends⟩

theorem restoring (restore : List String → List String → List String) (agree : Agree left first second) :
    Agree left (fun session => Render.restoring (restore session.stack) first session)
      fun session => Render.restoring (restore session.stack) second session := by
  intro before before' same level
  obtain ⟨sameResult, abreast, ends⟩ := agree before before' same level
  refine ⟨sameResult, ⟨?_, abreast.read⟩, ends⟩
  change restore before'.stack _ = restore before.stack _
  rw [same, abreast.stack]

theorem within (alike : engine.Alike other realm) (name : String)
    (rest : ∀ fewer, left = fewer + 1 → Agree fewer first second) :
    Agree left (Render.within name first) (Render.within name second) :=
  enter alike name fun fewer same => restoring (fun _ => List.tail) (rest fewer same)

theorem unwinding (agree : Agree left first second) :
    Agree left (Render.unwinding first) (Render.unwinding second) :=
  restoring (fun before after => after.drop (after.length - before.length)) agree

theorem caught (agree : Agree left first second) : Agree left (Render.caught first) (Render.caught second) := by
  intro before before' same level
  obtain ⟨sameResult, abreast, ends⟩ := agree before before' same level
  unfold Render.caught
  rcases ran : first before with ⟨(error | _) | value, after⟩ <;> rcases ran' : second before' with ⟨result', after'⟩ <;>
    rw [ran] at sameResult abreast ends <;> rw [ran'] at sameResult abreast <;> cases sameResult
  · exact ⟨rfl, abreast, nofun⟩
  · exact ⟨rfl, abreast, fun _ => ends rfl⟩
  · exact ⟨rfl, abreast, nofun⟩

theorem reported {first : Render engine String} {second : Render other String}
    (agree : Agree left first second) : Agree left (Render.reported first) (Render.reported second) := by
  intro before before' same level
  obtain ⟨sameResult, abreast, ends⟩ := agree before before' same level
  rw [reported_apply, reported_apply, sameResult]
  refine ⟨rfl, abreast, fun unending => ends ?_⟩
  cases result : (first before).1 with
  | ok text =>
    rw [result] at unending
    cases unending
  | error halt =>
    rw [result] at unending
    cases halt with
    | failed error => cases unending
    | unending => rfl

end Agree

theorem Orderly.restores {left : Nat} {met : RenderError → Prop} {gives : Except Halt α → RenderError → Prop}
    {action : Render engine α} (orderly : Orderly left Restored met gives action) (before : Session engine)
    (level : before.stack.length + left = engine.config.maxDepth) : (action before).2.stack = before.stack := by
  obtain ⟨_, _, _, restored, _⟩ := orderly before level
  exact restored

/-- The rules of the stack, and that results agree. -/
def alikeRules (alike : engine.Alike other realm) (closed : realm.Closed engine) : Rules engine other realm where
  sibling := alike.toSibling
  closed := closed
  Steady left first second := (stackRules alike.toSibling closed).Steady left first second ∧ Agree left first second
  Climbing left first second := (stackRules alike.toSibling closed).Climbing left first second ∧ Agree left first second
  Reporting left first second :=
    (stackRules alike.toSibling closed).Reporting left first second ∧ Agree left first second
  pure left value := ⟨(stackRules alike.toSibling closed).pure left value,
    .silent (fun _ _ => rfl) (fun _ => nofun) (fun _ => ⟨rfl, rfl⟩) fun _ => ⟨rfl, rfl⟩⟩
  bind steady rest :=
    ⟨(stackRules alike.toSibling closed).bind steady.1 fun value returns => (rest value returns).1,
      .bind steady.1.restores steady.2 fun value returns => (rest value returns).2⟩
  andClimb steady rest :=
    ⟨(stackRules alike.toSibling closed).andClimb steady.1 fun value returns => (rest value returns).1,
      .bind steady.1.restores steady.2 fun value returns => (rest value returns).2⟩
  climbing steady := ⟨(stackRules alike.toSibling closed).climbing steady.1, steady.2⟩
  evaluating left _ settled :=
    ⟨(stackRules alike.toSibling closed).evaluating left settled, .evaluating settled⟩
  template? left name asked := by
    refine ⟨(stackRules alike.toSibling closed).template? left asked, Agree.silent ?_ ?_
      (fun session => ⟨(template?_kept name session).1, template?_evaluator name session⟩)
      fun session => ⟨(template?_kept name session).1, template?_evaluator name session⟩⟩
    · intro session session'
      rw [template?_fst, template?_fst, alike.template? name asked]
    · intro session impossible
      rw [template?_fst] at impossible
      cases impossible
  fail left error other := ⟨(stackRules alike.toSibling closed).fail left other,
    .silent (fun _ _ => rfl) (fun _ => nofun) (fun _ => ⟨rfl, rfl⟩) fun _ => ⟨rfl, rfl⟩⟩
  entering name _ _ climbing :=
    ⟨(stackRules alike.toSibling closed).entering name fun fewer same => (climbing fewer same).1,
      .enter alike name fun fewer same => (climbing fewer same).2⟩
  within name _ _ steady :=
    ⟨(stackRules alike.toSibling closed).within name fun fewer same => (steady fewer same).1,
      .within alike name fun fewer same => (steady fewer same).2⟩
  unwinding climbing := ⟨(stackRules alike.toSibling closed).unwinding climbing.1, climbing.2.unwinding⟩
  reported steady := ⟨(stackRules alike.toSibling closed).reported steady.1, steady.2.reported⟩
  outcome resolved name _ _ reporting := by
    refine ⟨(stackRules alike.toSibling closed).outcome resolved name fun fewer same => (reporting fewer same).1, ?_⟩
    apply Agree.bind (Orderly.within resolved (fun _ _ => Reported.halt) fun fewer same =>
      (reporting fewer same).1).restores (.within alike resolved fun fewer same => (reporting fewer same).2)
    intro result _
    unfold outcome
    split <;>
      exact .silent (fun _ _ => rfl) (fun _ => nofun) (fun _ => ⟨rfl, rfl⟩) fun _ => ⟨rfl, rfl⟩

/-- Two engines that no rendering tells apart. -/
abbrev twinRules (twin : engine.Twin other) : Rules engine other (.all engine) :=
  alikeRules (twin.alike (.all engine)) (Realm.closed_all engine)

/-- One engine beside itself. -/
abbrev resultRules (engine : Engine) : Rules engine engine (.all engine) := twinRules (.refl engine)

section Host
variable {alike : engine.Alike other realm} {closed : realm.Closed engine} {left : Nat} {first : Below engine}
  {second : Below other}

theorem Agree.called {action : Render engine String} {action' : Render other String}
    {next : Except RenderError String → Render engine (Except ComponentError String)}
    {next' : Except RenderError String → Render other (Except ComponentError String)}
    (steady : (alikeRules alike closed).Steady left action action')
    (rest : ∀ result, Agree left (next result) (next' result)) :
    Agree left (Render.caught action >>= next) (Render.caught action' >>= next') :=
  .bind (Orderly.caught steady.1).restores steady.2.caught fun result _ => rest result

theorem program_agrees (below : (alikeRules alike closed).Below left first second) (boundless : realm.Boundless)
    (calls : Program) : Agree left (program first calls) (program second calls) := by
  induction calls with
  | done result => exact .silent (fun _ _ => rfl) (fun _ => nofun) (fun _ => ⟨rfl, rfl⟩) fun _ => ⟨rfl, rfl⟩
  | depth next ih =>
    intro before before' same level
    have counted : (depth : Render engine Nat) before = (.ok before.stack.length, before) := rfl
    have counted' : (depth : Render other Nat) before' =
        (.ok before'.stack.length, before') := rfl
    rw [program, program, bind_ok counted, bind_ok counted', same]
    exact ih before.stack.length before before' same level
  | globals next ih =>
    rw [program, program, alike.globals]
    exact ih engine.globals
  | template name next ih =>
    obtain ⟨orderly, agree⟩ := (alikeRules alike closed).template? left (boundless.asked name)
    exact .bind orderly.restores agree fun found _ => ih found
  | resolve name next ih =>
    obtain ⟨orderly, agree⟩ := (alikeRules alike closed).component? (boundless.reference name)
    exact .bind orderly.restores agree fun found _ => ih _
  | renderNamed name scope next ih =>
    exact .called (Rules.named below (fun _ => boundless.opens _) scope) ih
  | renderSource text scope next ih => exact .called (Rules.source below (boundless.text text) scope) ih
  | renderTemplate template scope next ih =>
    exact .called (Rules.entered below (fun node _ => boundless.node node) scope) ih
  | renderComponent name props slots next ih =>
    exact .called (Rules.component below (boundless.reference name) props fun slot _ => boundless.text slot.2) ih

/-- Adapters pass on to each other along the trail, the latest in front. No name comes up
twice on it unless they go round in a circle, so it is no longer than there are components. -/
theorem trail_short {name : String} {trail : List String}
    (registered : ∀ passed ∈ trail, passed ∈ engine.components.names)
    (forwards : (name :: trail).Pairwise fun later sooner => Relation.TransGen engine.Forwards sooner later)
    (straight : ¬ engine.Circular) : trail.length ≤ engine.components.length := by
  have distinct : trail.Nodup := by
    apply (List.pairwise_cons.1 forwards).2.imp
    rintro later sooner passes rfl
    exact straight ⟨later, passes⟩
  have := (List.subperm_of_subset distinct registered).length_le
  rwa [Fields.names, List.length_map] at this

theorem definition_agrees (below : (alikeRules alike closed).Below left first second) (hops : Nat) (name : String)
    (component : Component) (known : engine.component? name = some component ∨ ∃ body, component = .fragment body)
    (within : realm.definition component) (trail : List String)
    (registered : ∀ passed ∈ trail, passed ∈ engine.components.names)
    (forwards : (name :: trail).Pairwise fun later sooner => Relation.TransGen engine.Forwards sooner later)
    (count : hops + trail.length = hopLimit engine) (use : Instance) (texts : ∀ slot ∈ use.slots, realm.text slot.2) :
    Agree left (definition first hops component use) (definition second hops component use) := by
  -- Each hop moves a name to the trail, so when none is left the trail is too long for distinct names.
  induction hops generalizing name component trail use with
  | zero =>
    cases component with
    | fragment body => exact (Rules.fragmentDefinition below within 0 0 texts).2
    | function run => exact program_agrees below (closed.host within) (run use)
    | adapter target forward =>
      intro before before' same _
      refine ⟨rfl, ⟨same, [], rfl, rfl⟩, fun _ => ?_⟩
      by_contra straight
      have := trail_short registered forwards straight
      unfold hopLimit at count
      omega
  | succ hops ih =>
    cases component with
    | fragment body => exact (Rules.fragmentDefinition below within _ _ texts).2
    | function run => exact program_agrees below (closed.host within) (run use)
    | adapter target forward =>
      have reference := closed.adapter within
      have steady : (alikeRules alike closed).Steady left (component? target) (component? target) :=
        (alikeRules alike closed).component? reference
      apply Agree.bind steady.1.restores steady.2
      intro found returns
      match found with
      | none => exact .silent (fun _ _ => rfl) (fun _ => nofun) (fun _ => ⟨rfl, rfl⟩) fun _ => ⟨rfl, rfl⟩
      | some (resolved, inner) =>
        have reached := returns.component?.symm
        have adapter : engine.component? name = some (.adapter target forward) := known.resolve_right nofun
        have passes : engine.Forwards name resolved := ⟨target, forward, adapter, inner, reached⟩
        apply ih resolved inner ((Engine.reached?_known reached).imp_right And.right) (closed.found reference returns)
          (name :: trail)
        · exact List.forall_mem_cons.2 ⟨Fields.mem_names_of_find? adapter, registered⟩
        · refine List.pairwise_cons.2 ⟨List.forall_mem_cons.2 ⟨.single passes, fun sooner inside => ?_⟩, forwards⟩
          exact ((List.pairwise_cons.1 forwards).1 sooner inside).tail passes
        · rw [List.length_cons]
          omega
        · exact texts

theorem Agree.stackBelow (below : (alikeRules alike closed).Below left first second) :
    (stackRules alike.toSibling closed).Below left first second where
  layout fewer same followed sections template within scope :=
    (below.layout fewer same followed sections template within scope).1
  component fewer same definition within use texts := (below.component fewer same definition within use texts).1

/-- A component needs no name to be rendered, and a template that is one has none that leads on. -/
theorem known_agrees (below : (alikeRules alike closed).Below left first second) {component : Component}
    (within : realm.definition component) {use : Instance} (texts : ∀ slot ∈ use.slots, realm.text slot.2) :
    Agree left (definition first (hopLimit engine) component use) (definition second (hopLimit engine) component use) := by
  obtain ⟨name, found⟩ : ∃ name, engine.component? name = some component ∨ ∃ body, component = .fragment body := by
    rcases closed.known within with ⟨name, found⟩ | body
    · exact ⟨name, .inl found⟩
    · exact ⟨"", .inr body⟩
  exact definition_agrees below _ name component found within [] (List.forall_mem_nil _) (List.pairwise_singleton _ _)
    (Nat.add_zero _) use texts

theorem levels_alike (alike : engine.Alike other realm) (closed : realm.Closed engine) (left : Nat) :
    (alikeRules alike closed).Below left (levels engine left) (levels other left) := by
  rw [← Nat.zero_add left]
  have gap := Rules.levels (alikeRules alike closed) 0 (fun below component within use texts => by
    rw [alike.hopLimit]
    exact ⟨definition_orderly (Agree.stackBelow below) _ within texts, known_agrees below within texts⟩) left
  rwa [Nat.zero_add] at gap ⊢

theorem levels_agree (twin : engine.Twin other) (left : Nat) :
    (twinRules twin).Below left (levels engine left) (levels other left) :=
  levels_alike _ _ left

end Host

theorem onStack_alike (alike : engine.Alike other realm) (closed : realm.Closed engine)
    {action : Below engine → Render engine α} {action' : Below other → Render other α}
    (steady : ∀ {left first second}, (alikeRules alike closed).Below left first second →
      (alikeRules alike closed).Steady left (action first) (action' second)) (left : Nat) :
    (alikeRules alike closed).Steady left (onStack action) (onStack action') := by
  have ⟨orderly, agree⟩ := steady (levels_alike alike closed left)
  constructor
  · intro before level
    have room : engine.config.maxDepth - before.stack.length = left := by omega
    rw [onStack_apply, room]
    exact orderly before level
  · intro before before' same level
    have room : engine.config.maxDepth - before.stack.length = left := by omega
    have room' : other.config.maxDepth - before.stack.length = left := by
      rw [alike.maxDepth]
      exact room
    rw [onStack_apply, onStack_apply, same, room, room']
    exact agree before before' same level

end Stencil.Render
