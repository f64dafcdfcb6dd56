import Stencil.Proofs.RenderStack

/-! The limit of the stack only cuts renderings off. Of two renderings of the same thing, one
with a lower limit than the other, the first either reports its limit or goes the same way
as the second. Components could tell the difference if they counted levels or caught
failures, so the registered ones have to be templates. -/

namespace Stencil.Render
open Template

variable {engine : Engine} {limit : Nat} {α β : Type}

def Exceeds (engine : Engine) (error : RenderError) : Prop :=
  ∃ chain, error = .recursionLimit engine.config.maxDepth chain

/-- The first of two results and where it left its session, and the second one. What the
first refused, it gives. -/
structure Matching (settles : List String → List String → Prop) (gives : Except Halt α → RenderError → Prop)
    (before : Session engine) (first : Except Halt α × Session engine)
    (second : Except Halt α × Session (engine.limited limit)) : Prop where
  settled : settles before.stack first.2.stack
  refusals : ∃ events, first.2.log = events ++ before.log ∧
    ∀ stack name error, .refused stack name error ∈ events → Exceeds engine error ∧ gives first.1 error
  agrees : (∃ error, Exceeds engine error ∧ gives first.1 error) ∨
    first.1 = second.1 ∧ second.2.stack = first.2.stack

/-- The first action has that many levels left, and the second one at least as many. -/
def Matched (left : Nat) (settles : List String → List String → Prop) (gives : Except Halt α → RenderError → Prop)
    (first : Render engine α) (second : Render (engine.limited limit) α) : Prop :=
  ∀ before before', before'.stack = before.stack → before.stack.length + left = engine.config.maxDepth →
    Matching settles gives before (first before) (second before')

namespace Matched

variable {left : Nat} {settles : List String → List String → Prop} {gives : Except Halt α → RenderError → Prop}
  {first : Render engine α} {second : Render (engine.limited limit) α}

theorem silent (refl : ∀ stack, settles stack stack)
    (log : ∀ session, (first session).2.log = session.log)
    (stack : ∀ session, (first session).2.stack = session.stack)
    (stack' : ∀ session, (second session).2.stack = session.stack)
    (same : ∀ session session', (first session).1 = (second session').1) :
    Matched left settles gives first second := by
  intro before before' level _
  refine ⟨?_, ⟨[], log before, nofun⟩, .inr ⟨same before before', ?_⟩⟩
  · rw [stack before]
    exact refl _
  · rw [stack before, stack' before', level]

theorem weaken {settles' : List String → List String → Prop} (matched : Matched left settles gives first second)
    (settling : ∀ before after, settles before after → settles' before after) :
    Matched left settles' gives first second := by
  intro before before' same level
  obtain ⟨settled, refusals, agrees⟩ := matched before before' same level
  exact ⟨settling _ _ settled, refusals, agrees⟩

/-- A limit given by the first action has to come through what follows. -/
theorem bind {gives' : Except Halt β → RenderError → Prop} {next : α → Render engine β}
    {next' : α → Render (engine.limited limit) β} (refl : ∀ stack, settles stack stack)
    (through : ∀ before error, Exceeds engine error → gives (first before).1 error →
      gives' ((first >>= next) before).1 error)
    (matched : Matched left Restored gives first second)
    (rest : ∀ value, Returns first value → Matched left settles gives' (next value) (next' value)) :
    Matched left settles gives' (first >>= next) (second >>= next') := by
  intro before before' same level
  obtain ⟨restored, ⟨events, log, refusals⟩, agrees⟩ := matched before before' same level
  have passed := through before
  rcases ran : first before with ⟨halt | value, after⟩
  · rw [bind_error ran] at passed ⊢
    rw [ran] at restored log refusals agrees passed
    refine ⟨?_, ⟨events, log, fun stack name error inside => ?_⟩, ?_⟩
    · rw [restored]
      exact refl _
    · obtain ⟨exceeds, given⟩ := refusals stack name error inside
      exact ⟨exceeds, passed error exceeds given⟩
    · rcases agrees with ⟨error, exceeds, given⟩ | ⟨sameResult, sameStack⟩
      · exact .inl ⟨error, exceeds, passed error exceeds given⟩
      · rcases ran' : second before' with ⟨result, after'⟩
        rw [ran'] at sameResult sameStack
        cases sameResult
        rw [bind_error ran']
        exact .inr ⟨rfl, sameStack⟩
  · rw [bind_ok ran] at passed ⊢
    rw [ran] at restored log refusals agrees passed
    rw [← restored] at level
    have later := rest value ⟨before, by rw [ran]⟩ after
    -- What the first one does is the same beside any second session, and there may be no right one.
    obtain ⟨settled, ⟨events', log', refusals'⟩, _⟩ := later { stack := after.stack } rfl level
    refine ⟨?_, ⟨events' ++ events, ?_, fun stack name error inside => ?_⟩, ?_⟩
    · rwa [restored] at settled
    · rw [log', log, List.append_assoc]
    · rcases List.mem_append.1 inside with inside | inside
      · exact refusals' stack name error inside
      · obtain ⟨exceeds, given⟩ := refusals stack name error inside
        exact ⟨exceeds, passed error exceeds given⟩
    · rcases agrees with ⟨error, exceeds, given⟩ | ⟨sameResult, sameStack⟩
      · exact .inl ⟨error, exceeds, passed error exceeds given⟩
      · rcases ran' : second before' with ⟨result, after'⟩
        rw [ran'] at sameResult sameStack
        cases sameResult
        rw [bind_ok ran']
        exact (later after' sameStack level).agrees

theorem andThen {gives' : Except Halt β → RenderError → Prop} {next : α → Render engine β}
    {next' : α → Render (engine.limited limit) β} (refl : ∀ stack, settles stack stack)
    (thrown : ∀ error, gives' (.error (.failed error)) error) (matched : Matched left Restored Thrown first second)
    (rest : ∀ value, Returns first value → Matched left settles gives' (next value) (next' value)) :
    Matched left settles gives' (first >>= next) (second >>= next') := by
  apply bind refl _ matched rest
  intro before error _ given
  rcases ran : first before with ⟨result, after⟩
  rw [ran] at given
  cases given
  rw [bind_error ran]
  exact thrown error

theorem enter {inner : List String → List String → Prop} (fits : engine.config.maxDepth ≤ limit) (name : String)
    (refl : ∀ stack, settles stack stack)
    (settling : ∀ stack after, inner (Template.title name :: stack) after → settles stack after)
    (thrown : ∀ error, gives (.error (.failed error)) error)
    (rest : ∀ fewer, left = fewer + 1 → Matched fewer inner gives first second) :
    Matched left settles gives (Render.enter name >>= fun _ => first) (Render.enter name >>= fun _ => second) := by
  intro before before' same level
  cases left with
  | zero =>
    rw [bind_error (enter_full name level)]
    refine ⟨refl _, ⟨[_], rfl, fun stack name error inside => ?_⟩, .inl ⟨_, ⟨_, rfl⟩, thrown _⟩⟩
    cases List.mem_singleton.1 inside
    exact ⟨⟨_, rfl⟩, thrown _⟩
  | succ fewer =>
    have room : before.stack.length < engine.config.maxDepth := by omega
    have room' : before'.stack.length < (engine.limited limit).config.maxDepth := by
      rw [same]
      exact Nat.lt_of_lt_of_le room fits
    rw [bind_ok (enter_room name room), bind_ok (enter_room name room')]
    obtain ⟨settled, ⟨events, log, refusals⟩, agrees⟩ := rest fewer rfl
      { before with stack := Template.title name :: before.stack, log := .entered before.stack name :: before.log }
      { before' with stack := Template.title name :: before'.stack, log := .entered before'.stack name :: before'.log }
      (congrArg (_ :: ·) same) (by rw [List.length_cons]; omega)
    refine ⟨settling _ _ settled, ⟨events ++ [.entered before.stack name], ?_, fun stack name error inside => ?_⟩,
      agrees⟩
    · rw [log, List.append_assoc]
      rfl
    · rcases List.mem_append.1 inside with inside | impossible
      · exact refusals stack name error inside
      · cases List.mem_singleton.1 impossible

theorem restoring {inner : List String → List String → Prop} (restore : List String → List String → List String)
    (settling : ∀ before after, inner before after → settles before (restore before after))
    (matched : Matched left inner gives first second) :
    Matched left settles gives (fun session => Render.restoring (restore session.stack) first session)
      fun session => Render.restoring (restore session.stack) second session := by
  intro before before' same level
  obtain ⟨settled, ⟨events, log, refusals⟩, agrees⟩ := matched before before' same level
  refine ⟨settling _ _ settled, ⟨.left _ :: events, congrArg (_ :: ·) log, fun stack name error inside => ?_⟩, ?_⟩
  · cases inside with
    | tail _ inside => exact refusals stack name error inside
  · rcases agrees with given | ⟨sameResult, sameStack⟩
    · exact .inl given
    · refine .inr ⟨sameResult, ?_⟩
      change restore before'.stack _ = restore before.stack _
      rw [same, sameStack]

theorem within (fits : engine.config.maxDepth ≤ limit) (name : String)
    (thrown : ∀ error, gives (.error (.failed error)) error)
    (rest : ∀ fewer, left = fewer + 1 → Matched fewer Restored gives first second) :
    Matched left Restored gives (Render.within name first) (Render.within name second) := by
  have popping : ∀ fewer, left = fewer + 1 → Matched fewer (fun before after => after = before.tail) gives
      (Render.restoring List.tail first) (Render.restoring List.tail second) := fun fewer same =>
    restoring (fun _ => List.tail) (fun _ _ => congrArg List.tail) (rest fewer same)
  exact enter fits name Restored.refl (fun _ _ popped => popped) thrown popping

theorem unwinding (matched : Matched left Topped gives first second) :
    Matched left Restored gives (Render.unwinding first) (Render.unwinding second) := by
  apply restoring (fun before after => after.drop (after.length - before.length)) _ matched
  rintro before _ ⟨above, rfl⟩
  exact unwound above before

end Matched

/-- What a component makes of the result of its template. -/
def handed : Except Halt String → Except Halt (Except ComponentError String)
  | .ok text => .ok (.ok text)
  | .error (.failed error) => .ok (.error (.render error))
  | .error .unending => .error .unending

theorem reported_apply (action : Render engine String) (session : Session engine) :
    reported action session = (handed (action session).1, (action session).2) := by
  unfold reported
  rcases ran : action session with ⟨(error | _) | text, after⟩
  · have failed : caught action session = (.ok (.error error), after) := by
      unfold caught
      rw [ran]
    rw [bind_ok failed]
    rfl
  · have failed : caught action session = (.error .unending, after) := by
      unfold caught
      rw [ran]
    rw [bind_error failed]
    rfl
  · have returned : caught action session = (.ok (.ok text), after) := by
      unfold caught
      rw [ran]
    rw [bind_ok returned]
    rfl

namespace Matched

variable {left : Nat}

theorem reported {first : Render engine String} {second : Render (engine.limited limit) String}
    (matched : Matched left Restored Thrown first second) :
    Matched left Restored Reported (Render.reported first) (Render.reported second) := by
  intro before before' same level
  obtain ⟨restored, ⟨events, log, refusals⟩, agrees⟩ := matched before before' same level
  have passed : ∀ error, Thrown (first before).1 error → Reported (handed (first before).1) error := by
    intro error thrown
    rw [thrown]
    exact .inr rfl
  rw [reported_apply, reported_apply]
  refine ⟨restored, ⟨events, log, fun stack name error inside => ?_⟩, ?_⟩
  · obtain ⟨exceeds, thrown⟩ := refusals stack name error inside
    exact ⟨exceeds, passed error thrown⟩
  · rcases agrees with ⟨error, exceeds, thrown⟩ | ⟨sameResult, sameStack⟩
    · exact .inl ⟨error, exceeds, passed error thrown⟩
    · exact .inr ⟨congrArg handed sameResult, sameStack⟩

theorem outcome {first : Render engine (Except ComponentError String)}
    {second : Render (engine.limited limit) (Except ComponentError String)} (name : String)
    (matched : Matched left Restored Reported first second) :
    Matched left Restored Thrown (first >>= Render.outcome name) (second >>= Render.outcome name) := by
  apply bind Restored.refl _ matched
  · intro value _
    unfold Render.outcome
    split <;>
      exact silent Restored.refl (fun _ => rfl) (fun _ => rfl) (fun _ => rfl) fun _ _ => rfl
  · rintro before _ ⟨chain, rfl⟩ given
    rcases ran : first before with ⟨result, after⟩
    rw [ran] at given
    rcases given with thrown | same
    · cases thrown
      rw [bind_error ran]
      rfl
    · cases same
      rw [bind_ok ran]
      rfl

end Matched

def limitRules (engine : Engine) {limit : Nat} (fits : engine.config.maxDepth ≤ limit) :
    Rules engine (engine.limited limit) (.all engine) where
  sibling := (Engine.Kin.limited engine limit).toSibling
  closed := Realm.closed_all engine
  Steady left first second := Matched left Restored Thrown first second
  Climbing left first second := Matched left Topped Thrown first second
  Reporting left first second := Matched left Restored Reported first second
  pure left value := .silent Restored.refl (fun _ => rfl) (fun _ => rfl) (fun _ => rfl) fun _ _ => rfl
  bind steady rest := steady.andThen Restored.refl (fun _ => rfl) rest
  andClimb steady rest := steady.andThen Topped.refl (fun _ => rfl) rest
  climbing steady := steady.weaken fun _ _ same => ⟨[], same⟩
  evaluating left action settled := .silent Restored.refl (fun _ => rfl) (fun _ => rfl) (fun _ => rfl)
    fun session session' => congrArg Except.ok (settled.same session.evaluator session'.evaluator)
  template? left name _ := by
    apply Matched.silent Restored.refl (fun session => (template?_kept name session).2)
      (fun session => (template?_kept name session).1) (fun session => (template?_kept name session).1)
    intro session session'
    rw [template?_fst, template?_fst]
    rfl
  fail left _ _ := .silent Restored.refl (fun _ => rfl) (fun _ => rfl) (fun _ => rfl) fun _ _ => rfl
  entering name _ _ climbing := .enter fits name Topped.refl (fun _ _ => Topped.popped) (fun _ => rfl) climbing
  within name _ _ steady := .within fits name (fun _ => rfl) steady
  unwinding climbing := climbing.unwinding
  reported steady := steady.reported
  outcome resolved name _ _ reporting := (Matched.within fits resolved (fun _ => .inl rfl) reporting).outcome name

/-- No component is a program of the host. -/
def Hostless (engine : Engine) : Prop := ∀ name run, engine.component? name ≠ some (.function run)

theorem Hostless.of_templates
    (templates : ∀ name component, engine.component? name = some component → ∃ body, component = .fragment body) :
    Hostless engine := by
  intro name run found
  obtain ⟨body, impossible⟩ := templates name _ found
  cases impossible

theorem Hostless.not_known (hostless : Hostless engine) {run : Instance → Program} :
    ¬ Known engine (.function run) := by
  rintro (⟨name, found⟩ | ⟨body, impossible⟩)
  · exact hostless name run found
  · cases impossible

/-- Adapters pass on in the same way under both limits. -/
theorem definition_matched (fits : engine.config.maxDepth ≤ limit) (hostless : Hostless engine) {left : Nat}
    {first : Below engine} {second : Below (engine.limited limit)}
    (below : (limitRules engine fits).Below left first second) (hops : Nat) (component : Component)
    (known : Known engine component) (use : Instance) :
    Matched left Restored Reported (definition first hops component use) (definition second hops component use) := by
  induction hops generalizing component use with
  | zero =>
    cases component with
    | fragment body => exact Rules.fragmentDefinition below known 0 0 fun _ _ => trivial
    | function run => exact absurd known hostless.not_known
    | adapter target forward =>
      exact .silent Restored.refl (fun _ => rfl) (fun _ => rfl) (fun _ => rfl) fun _ _ => rfl
  | succ hops ih =>
    cases component with
    | fragment body => exact Rules.fragmentDefinition below known _ _ fun _ _ => trivial
    | function run => exact absurd known hostless.not_known
    | adapter target forward =>
      apply Matched.andThen Restored.refl (fun _ => .inl rfl) ((limitRules engine fits).component? trivial)
      intro found returned
      match found with
      | none => exact .silent Restored.refl (fun _ => rfl) (fun _ => rfl) (fun _ => rfl) fun _ _ => rfl
      | some (resolved, inner) => exact ih inner (known_of_component? returned) _

/-- Both renderings have all the levels that their stacks leave room for. -/
theorem onStack_matched (fits : engine.config.maxDepth ≤ limit) (hostless : Hostless engine)
    {settles : List String → List String → Prop} {gives : Except Halt α → RenderError → Prop}
    {action : Below engine → Render engine α}
    {action' : Below (engine.limited limit) → Render (engine.limited limit) α}
    (matched : ∀ {left first second}, (limitRules engine fits).Below left first second →
      Matched left settles gives (action first) (action' second)) (left : Nat) :
    Matched left settles gives (onStack action) (onStack action') := by
  intro before before' same level
  have room : engine.config.maxDepth - before.stack.length = left := by omega
  have room' : (engine.limited limit).config.maxDepth - before.stack.length =
      limit - engine.config.maxDepth + left := by
    change limit - before.stack.length = _
    omega
  rw [onStack_apply, onStack_apply, same, room, room']
  apply matched _ before before' same level
  apply Rules.levels
  intro left first second below component known use _
  exact definition_matched fits hostless below _ component known use

end Stencil.Render

namespace Stencil.Engine
open Render

variable {engine : Engine} {limit : Nat}

/-- A call under the lower limit gives what it gives under the higher one, or it reports the
limit. Whenever a name is refused on the way, the call fails with that. -/
structure CutOff (engine : Engine) (low high : Nat) (call : (engine : Engine) → Render engine String) : Prop where
  same : ∀ evaluator evaluator',
    (∃ chain, ((engine.limited low).run (call _) evaluator).1 = .error (.failed (.recursionLimit low chain))) ∨
    ((engine.limited low).run (call _) evaluator).1 = ((engine.limited high).run (call _) evaluator').1
  reported : ∀ evaluator stack name error,
    .refused stack name error ∈ (call (engine.limited low) { evaluator }).2.log →
    ((engine.limited low).run (call _) evaluator).1 = .error (.failed error)

theorem CutOff.of_matched {low high : Nat} {call : (engine : Engine) → Render engine String}
    (matched : @Matched (engine.limited low) high _ low Restored Thrown (call _) (call _)) :
    CutOff engine low high call := by
  constructor
  · intro evaluator evaluator'
    rcases (matched { evaluator } { evaluator := evaluator' } rfl (Nat.zero_add low)).agrees with
      ⟨error, ⟨chain, rfl⟩, thrown⟩ | ⟨same, _⟩
    · exact .inl ⟨chain, thrown⟩
    · exact .inr same
  · intro evaluator stack name error inside
    obtain ⟨events, log, refusals⟩ := (matched { evaluator } {} rfl (Nat.zero_add low)).refusals
    rw [log, List.append_nil] at inside
    exact (refusals stack name error inside).2

theorem hostless_renderingInline (fits : engine.config.maxDepth ≤ limit) (hostless : Hostless engine)
    (source : String) (data : Value) (left : Nat) :
    Matched left Restored Thrown (engine.renderingInline source data)
      ((engine.limited limit).renderingInline source data) := by
  apply onStack_matched fits hostless
  intro left first second below
  exact Rules.source below trivial _

theorem hostless_rendering (fits : engine.config.maxDepth ≤ limit) (hostless : Hostless engine)
    (reference : String) (data : Value) (left : Nat) :
    Matched left Restored Thrown (engine.rendering reference data)
      ((engine.limited limit).rendering reference data) := by
  apply Matched.andThen Restored.refl (fun _ => rfl) ((limitRules engine fits).isNamed trivial)
  intro named _
  split
  · apply onStack_matched fits hostless
    intro left first second below
    exact Rules.named below (fun _ => (Realm.boundless_all engine).opens _) _
  · exact hostless_renderingInline fits hostless reference data left

section Templates
variable (fits : engine.config.maxDepth ≤ limit)
  (templates : ∀ name component, engine.component? name = some component → ∃ body, component = .fragment body)
include fits templates

theorem renderingInline_matched (source : String) (data : Value) (left : Nat) :
    Matched left Restored Thrown (engine.renderingInline source data)
      ((engine.limited limit).renderingInline source data) :=
  hostless_renderingInline fits (.of_templates templates) source data left

theorem rendering_matched (reference : String) (data : Value) (left : Nat) :
    Matched left Restored Thrown (engine.rendering reference data)
      ((engine.limited limit).rendering reference data) :=
  hostless_rendering fits (.of_templates templates) reference data left

end Templates

/-- A lower limit cuts renderings off and does nothing else. -/
theorem lower_limit_cuts_off (engine : Engine)
    (templates : ∀ name component, engine.component? name = some component → ∃ body, component = .fragment body)
    {low high : Nat} (lower : low ≤ high) (reference source : String) (data : Value) :
    CutOff engine low high (fun engine => engine.rendering reference data) ∧
      CutOff engine low high fun engine => engine.renderingInline source data :=
  ⟨.of_matched (@rendering_matched (engine.limited low) high lower templates reference data low),
    .of_matched (@renderingInline_matched (engine.limited low) high lower templates source data low)⟩

/-- A component that may contain itself. -/
def boxes : Engine := { components := [("box", .ofSource "[@component('box', {})]")] }

theorem lower_limit_cuts_off_boxes :
    CutOff boxes 1 2 (fun engine => engine.rendering "page" .null) ∧
      CutOff boxes 1 2 fun engine => engine.renderingInline "@component('box')" .null := by
  apply lower_limit_cuts_off boxes _ (by decide) "page" "@component('box')" .null
  intro name component found
  unfold component? boxes Fields.find? at found
  split at found
  · cases found
    exact ⟨_, rfl⟩
  · cases found

end Stencil.Engine
