import Stencil.Proofs.RenderRules

/-! The stack of a rendering. Names are put on it for templates, components and layouts and
taken off in different ways, and a failure may come at any depth. Whatever is rendered, the
stack ends as it began, never holds more than the limit allows, and the limit is reported
exactly where a name is refused because the stack is full. -/

namespace Stencil

def Event.stack : Event → List String
  | .entered stack name => Template.title name :: stack
  | .refused stack _ _ => stack
  | .left stack => stack

/-- What may happen to a stack, the latest event first: a name is entered while there is
room, refused when there is none, or some of what is on top is taken off. -/
inductive History (limit : Nat) : List String → List Event → List String → Prop where
  | start {stack : List String} : History limit stack [] stack
  | entered {start stack : List String} {events : List Event} (name : String)
      (earlier : History limit start events stack) (room : stack.length < limit) :
      History limit start (.entered stack name :: events) (Template.title name :: stack)
  | refused {start stack : List String} {events : List Event} (name : String)
      (earlier : History limit start events stack) (full : stack.length = limit) :
      History limit start (.refused stack name (.recursionLimit limit (stack.reverse ++ [name])) :: events) stack
  | left {start above stack : List String} {events : List Event}
      (earlier : History limit start events (above ++ stack)) : History limit start (.left stack :: events) stack

namespace History

variable {limit : Nat} {first second third : List String} {events later : List Event}

theorem trans (history : History limit first events second) (further : History limit second later third) :
    History limit first (later ++ events) third := by
  induction further with
  | start => exact history
  | entered name _ room ih => exact .entered name ih room
  | refused name _ full ih => exact .refused name ih full
  | left _ ih => exact .left ih

theorem bounded (history : History limit first events second) (fits : first.length ≤ limit) :
    second.length ≤ limit ∧ ∀ event ∈ events, event.stack.length ≤ limit := by
  induction history with
  | start => exact ⟨fits, List.forall_mem_nil _⟩
  | entered name _ room ih => exact ⟨room, List.forall_mem_cons.2 ⟨room, ih.2⟩⟩
  | refused name _ full ih => exact ⟨ih.1, List.forall_mem_cons.2 ⟨ih.1, ih.2⟩⟩
  | @left above stack _ _ ih =>
    have shorter : stack.length ≤ limit := by
      have := ih.1
      rw [List.length_append] at this
      omega
    exact ⟨shorter, List.forall_mem_cons.2 ⟨shorter, ih.2⟩⟩

theorem entered_room {stack : List String} {name : String} (history : History limit first events second)
    (inside : .entered stack name ∈ events) : stack.length < limit := by
  induction history with
  | start => cases inside
  | entered _ _ room ih =>
    cases inside with
    | head => exact room
    | tail _ inside => exact ih inside
  | refused _ _ _ ih =>
    cases inside with
    | tail _ inside => exact ih inside
  | left _ ih =>
    cases inside with
    | tail _ inside => exact ih inside

theorem refused_full {stack : List String} {name : String} {error : RenderError}
    (history : History limit first events second) (inside : .refused stack name error ∈ events) :
    stack.length = limit ∧ error = .recursionLimit limit (stack.reverse ++ [name]) := by
  induction history with
  | start => cases inside
  | refused _ _ full ih =>
    cases inside with
    | head => exact ⟨full, rfl⟩
    | tail _ inside => exact ih inside
  | entered _ _ _ ih =>
    cases inside with
    | tail _ inside => exact ih inside
  | left _ ih =>
    cases inside with
    | tail _ inside => exact ih inside

end History

def Refused (error : RenderError) (events : List Event) : Prop := ∃ stack name, .refused stack name error ∈ events

theorem Refused.mono {error : RenderError} {events later : List Event} (refused : Refused error events)
    (kept : events ⊆ later) : Refused error later := by
  obtain ⟨stack, name, inside⟩ := refused
  exact ⟨stack, name, kept inside⟩

def RenderError.IsLimit (error : RenderError) : Prop := ∃ limit chain, error = .recursionLimit limit chain

/-- A program that fails with the limit of the stack only if something it called did so. -/
def Program.Honest (raised : RenderError → Prop) : Program → Prop
  | .done result => ∀ error, result = .error (.render error) → error.IsLimit → raised error
  | .depth next => ∀ depth, (next depth).Honest raised
  | .globals next => ∀ scope, (next scope).Honest raised
  | .template _ next => ∀ found, (next found).Honest raised
  | .resolve _ next => ∀ found, (next found).Honest raised
  | .renderNamed _ _ next => ∀ result, (next result).Honest fun error => raised error ∨ result = .error error
  | .renderSource _ _ next => ∀ result, (next result).Honest fun error => raised error ∨ result = .error error
  | .renderTemplate _ _ next => ∀ result, (next result).Honest fun error => raised error ∨ result = .error error
  | .renderComponent _ _ _ next => ∀ result, (next result).Honest fun error => raised error ∨ result = .error error

def Engine.Honest (engine : Engine) : Prop :=
  ∀ name run, engine.component? name = some (.function run) → ∀ use, (run use).Honest fun _ => False

namespace Render
open Template

variable {engine : Engine} {α β : Type}

def Restored (before after : List String) : Prop := after = before

def Topped (before after : List String) : Prop := ∃ above, after = above ++ before

theorem Restored.refl (stack : List String) : Restored stack stack := rfl

theorem Topped.refl (stack : List String) : Topped stack stack := ⟨[], rfl⟩

theorem unwound (above before : List String) :
    (above ++ before).drop ((above ++ before).length - before.length) = before := by
  rw [List.length_append, Nat.add_sub_cancel, List.drop_left]

theorem Topped.popped {name : String} {stack after : List String} (topped : Topped (title name :: stack) after) :
    Topped stack after := by
  obtain ⟨above, rfl⟩ := topped
  exact ⟨above ++ [title name], List.append_cons above _ stack⟩

def Thrown (result : Except Halt α) (error : RenderError) : Prop := result = .error (.failed error)

/-- The failure, or one that was made a result. -/
def Caught (result : Except Halt (Except RenderError α)) (error : RenderError) : Prop :=
  Thrown result error ∨ result = .ok (.error error)

def Reported (result : Except Halt (Except ComponentError String)) (error : RenderError) : Prop :=
  Thrown result error ∨ result = .ok (.error (.render error))

theorem Thrown.halt {halt : Halt} {error : RenderError} (thrown : Thrown (.error halt : Except Halt α) error) :
    halt = .failed error := by
  cases thrown
  rfl

theorem Reported.halt {halt : Halt} {error : RenderError} (reported : Reported (.error halt) error) :
    halt = .failed error := by
  rcases reported with thrown | impossible
  · exact thrown.halt
  · cases impossible

/-- On a stack with that much room, what the action does is a history of the stack that ends
as `settles` says. Each limit it gives was met before or is refused in that history. -/
def Orderly (left : Nat) (settles : List String → List String → Prop) (met : RenderError → Prop)
    (gives : Except Halt α → RenderError → Prop) (action : Render engine α) : Prop :=
  ∀ before, before.stack.length + left = engine.config.maxDepth →
    ∃ events, (action before).2.log = events ++ before.log ∧
      History engine.config.maxDepth before.stack events (action before).2.stack ∧
      settles before.stack (action before).2.stack ∧
      (engine.Honest → ∀ error, error.IsLimit → gives (action before).1 error →
        met error ∨ Refused error events)

namespace Orderly

variable {left : Nat} {settles : List String → List String → Prop} {met : RenderError → Prop}

theorem silent {gives : Except Halt α → RenderError → Prop} {action : Render engine α}
    (refl : ∀ stack, settles stack stack)
    (log : ∀ session, (action session).2.log = session.log)
    (stack : ∀ session, (action session).2.stack = session.stack)
    (limits : ∀ session error, error.IsLimit → gives (action session).1 error → met error) :
    Orderly left settles met gives action := by
  intro before _
  refine ⟨[], log before, ?_, ?_, fun _ error limit given => .inl (limits before error limit given)⟩
  · rw [stack before]
    exact .start
  · rw [stack before]
    exact refl _

theorem weaken {settles' : List String → List String → Prop} {met' : RenderError → Prop}
    {gives gives' : Except Halt α → RenderError → Prop} {action : Render engine α}
    (orderly : Orderly left settles met gives action)
    (settling : ∀ before after, settles before after → settles' before after)
    (meeting : ∀ error, met error → met' error) (giving : ∀ result error, gives' result error → gives result error) :
    Orderly left settles' met' gives' action := by
  intro before level
  obtain ⟨events, log, history, settled, limits⟩ := orderly before level
  refine ⟨events, log, history, settling _ _ settled, fun honest error limit given => ?_⟩
  exact (limits honest error limit (giving _ error given)).imp (meeting error) id

/-- What the first action gives as a value counts as met by the second. -/
theorem bind {gives : Except Halt α → RenderError → Prop} {gives' : Except Halt β → RenderError → Prop}
    {action : Render engine α} {next : α → Render engine β} (refl : ∀ stack, settles stack stack)
    (passes : ∀ halt error, gives' (.error halt) error → gives (.error halt) error)
    (orderly : Orderly left Restored met gives action)
    (rest : ∀ value, Returns action value →
      Orderly left settles (fun error => met error ∨ gives (.ok value) error) gives' (next value)) :
    Orderly left settles met gives' (action >>= next) := by
  intro before level
  obtain ⟨events, log, history, restored, limits⟩ := orderly before level
  rcases ran : action before with ⟨halt | value, after⟩
  · rw [bind_error ran]
    rw [ran] at log history restored limits
    refine ⟨events, log, history, ?_, fun honest error limit given => ?_⟩
    · rw [restored]
      exact refl _
    · exact limits honest error limit (passes halt error given)
  · rw [bind_ok ran]
    rw [ran] at log history restored limits
    rw [← restored] at level
    obtain ⟨later, log', history', settled, limits'⟩ := rest value ⟨before, by rw [ran]⟩ after level
    refine ⟨later ++ events, ?_, history.trans history', ?_, fun honest error limit given => ?_⟩
    · rw [log', log, List.append_assoc]
    · rwa [restored] at settled
    · rcases limits' honest error limit given with (known | valued) | refused
      · exact .inl known
      · exact (limits honest error limit valued).imp id fun refused => refused.mono (List.subset_append_right _ _)
      · exact .inr (refused.mono (List.subset_append_left _ _))

theorem andThen {gives : Except Halt β → RenderError → Prop} {action : Render engine α} {next : α → Render engine β}
    (refl : ∀ stack, settles stack stack) (passes : ∀ halt error, gives (.error halt) error → halt = .failed error)
    (orderly : Orderly left Restored (fun _ => False) Thrown action)
    (rest : ∀ value, Returns action value → Orderly left settles met gives (next value)) :
    Orderly left settles met gives (action >>= next) := by
  apply bind refl _ (orderly.weaken (fun _ _ => id) (fun _ => False.elim) fun _ _ => id)
  · intro value returns
    exact (rest value returns).weaken (fun _ _ => id) (fun _ => .inl) fun _ _ => id
  · intro halt error given
    exact congrArg Except.error (passes halt error given)

/-- A name is refused on a full stack; else the action goes on with the name on top. -/
theorem enter {inner : List String → List String → Prop} {gives : Except Halt α → RenderError → Prop}
    {action : Render engine α} (name : String) (refl : ∀ stack, settles stack stack)
    (settling : ∀ stack after, inner (Template.title name :: stack) after → settles stack after)
    (passes : ∀ halt error, gives (.error halt) error → halt = .failed error)
    (rest : ∀ fewer, left = fewer + 1 → Orderly fewer inner met gives action) :
    Orderly left settles met gives (Render.enter name >>= fun _ => action) := by
  intro before level
  cases left with
  | zero =>
    rw [bind_error (enter_full name level)]
    refine ⟨[_], rfl, .refused name .start level, refl _, fun _ error _ given => .inr ⟨before.stack, name, ?_⟩⟩
    cases passes _ error given
    exact List.mem_cons_self
  | succ fewer =>
    have room : before.stack.length < engine.config.maxDepth := by omega
    rw [bind_ok (enter_room name room)]
    obtain ⟨events, log, history, settled, limits⟩ := rest fewer rfl
      { before with stack := Template.title name :: before.stack, log := .entered before.stack name :: before.log }
      (by rw [List.length_cons]; omega)
    refine ⟨events ++ [.entered before.stack name], ?_, ?_, settling _ _ settled, fun honest error limit given => ?_⟩
    · rw [log, List.append_assoc]
      rfl
    · exact (History.entered name .start room).trans history
    · exact (limits honest error limit given).imp id fun refused => refused.mono (List.subset_append_left _ _)

theorem restoring {inner : List String → List String → Prop} {gives : Except Halt α → RenderError → Prop}
    {action : Render engine α} (restore : List String → List String → List String)
    (settling : ∀ before after, inner before after →
      settles before (restore before after) ∧ ∃ above, after = above ++ restore before after)
    (orderly : Orderly left inner met gives action) :
    Orderly left settles met gives fun session => Render.restoring (restore session.stack) action session := by
  intro before level
  obtain ⟨events, log, history, settled, limits⟩ := orderly before level
  obtain ⟨settled', above, removed⟩ := settling _ _ settled
  rw [removed] at history
  refine ⟨.left _ :: events, congrArg (_ :: ·) log, .left history, settled', fun honest error limit given => ?_⟩
  exact (limits honest error limit given).imp id fun refused => refused.mono (List.subset_cons_self _ _)

theorem within {gives : Except Halt α → RenderError → Prop} {action : Render engine α} (name : String)
    (passes : ∀ halt error, gives (.error halt) error → halt = .failed error)
    (rest : ∀ fewer, left = fewer + 1 → Orderly fewer Restored met gives action) :
    Orderly left Restored met gives (Render.within name action) := by
  have popping : ∀ fewer, left = fewer + 1 → Orderly fewer (fun before after => after = before.tail) met gives
      (Render.restoring List.tail action) := by
    intro fewer same
    apply restoring (fun _ => List.tail) _ (rest fewer same)
    rintro _ stack rfl
    refine ⟨rfl, stack.take 1, ?_⟩
    rw [← List.drop_one, List.take_append_drop]
  exact enter name (fun _ => rfl) (fun _ _ popped => popped) passes popping

theorem unwinding {gives : Except Halt α → RenderError → Prop} {action : Render engine α}
    (orderly : Orderly left Topped met gives action) : Orderly left Restored met gives (Render.unwinding action) := by
  apply restoring (fun before after => after.drop (after.length - before.length)) _ orderly
  rintro before _ ⟨above, rfl⟩
  exact ⟨unwound above before, above, by rw [unwound]⟩

theorem caught {action : Render engine α} (orderly : Orderly left Restored met Thrown action) :
    Orderly left Restored met Caught (Render.caught action) := by
  intro before level
  obtain ⟨events, log, history, restored, limits⟩ := orderly before level
  unfold Render.caught
  rcases ran : action before with ⟨(error | _) | value, after⟩ <;> rw [ran] at log history restored limits
  · refine ⟨events, log, history, restored, fun honest error limit given => ?_⟩
    rcases given with impossible | same
    · cases impossible
    · cases same
      exact limits honest error limit rfl
  · refine ⟨events, log, history, restored, fun honest error limit given => ?_⟩
    rcases given with impossible | impossible <;> cases impossible
  · refine ⟨events, log, history, restored, fun honest error limit given => ?_⟩
    rcases given with impossible | impossible <;> cases impossible

theorem reported {action : Render engine String} (orderly : Orderly left Restored met Thrown action) :
    Orderly left Restored met Reported (Render.reported action) := by
  apply bind Restored.refl _ orderly.caught
  · intro result _
    apply silent Restored.refl (fun _ => rfl) (fun _ => rfl)
    intro session error _ given
    cases result <;> rcases given with given | given <;> cases given
    exact .inr (.inr rfl)
  · intro halt error given
    exact .inl (congrArg Except.error given.halt)

/-- Of all that a component may hand over, the limit alone is passed on. -/
theorem outcome {action : Render engine (Except ComponentError String)} (name : String)
    (orderly : Orderly left Restored met Reported action) :
    Orderly left Restored met Thrown (action >>= Render.outcome name) := by
  apply bind Restored.refl (fun _ _ thrown => .inl (congrArg Except.error thrown.halt)) orderly
  intro value _
  unfold Render.outcome
  split
  next =>
    apply silent Restored.refl (fun _ => rfl) (fun _ => rfl)
    intro session error _ given
    cases given
  next most chain =>
    apply silent Restored.refl (fun _ => rfl) (fun _ => rfl)
    intro session error _ given
    cases given
    exact .inr (.inr rfl)
  next =>
    apply silent Restored.refl (fun _ => rfl) (fun _ => rfl)
    intro session error _ given
    cases given

end Orderly

/-- Nothing is asked of a second rendering. -/
def stackRules {engine other : Engine} {realm : Realm} (sibling : engine.Sibling other) (closed : realm.Closed engine) :
    Rules engine other realm where
  sibling := sibling
  closed := closed
  Steady left action _ := Orderly left Restored (fun _ => False) Thrown action
  Climbing left action _ := Orderly left Topped (fun _ => False) Thrown action
  Reporting left action _ := Orderly left Restored (fun _ => False) Reported action
  pure left value := .silent Restored.refl (fun _ => rfl) (fun _ => rfl) fun _ _ _ => nofun
  bind steady rest := steady.andThen Restored.refl (fun _ _ => Thrown.halt) rest
  andClimb steady rest := steady.andThen Topped.refl (fun _ _ => Thrown.halt) rest
  climbing steady := steady.weaken (fun _ _ same => ⟨[], same⟩) (fun _ => id) fun _ _ => id
  evaluating left _ _ := .silent Restored.refl (fun _ => rfl) (fun _ => rfl) fun _ _ _ => nofun
  template? left name _ := by
    apply Orderly.silent Restored.refl (fun session => (template?_kept name session).2)
      (fun session => (template?_kept name session).1)
    intro session error _ given
    rw [template?_fst] at given
    cases given
  fail left error other := by
    apply Orderly.silent Restored.refl (fun _ => rfl) (fun _ => rfl)
    rintro session _ ⟨most, chain, rfl⟩ given
    cases given
    exact other most chain rfl
  entering name _ _ climbing := .enter name Topped.refl (fun _ _ => Topped.popped) (fun _ _ => Thrown.halt) climbing
  within name _ _ steady := .within name (fun _ _ => Thrown.halt) steady
  unwinding climbing := climbing.unwinding
  reported steady := steady.reported
  outcome resolved name _ _ reporting := (Orderly.within resolved (fun _ _ => Reported.halt) reporting).outcome name

section Host
variable {other : Engine} {realm : Realm} {sibling : engine.Sibling other} {closed : realm.Closed engine} {left : Nat} {met : RenderError → Prop} {first : Below engine}
  {second : Below other}

/-- What a call gave its host counts as met from then on. -/
theorem called {action : Render engine String}
    {next : Except RenderError String → Render engine (Except ComponentError String)}
    (steady : Orderly left Restored (fun _ => False) Thrown action)
    (rest : ∀ result, Orderly left Restored (fun error => met error ∨ result = .error error) Reported (next result)) :
    Orderly left Restored met Reported (caught action >>= next) := by
  apply Orderly.bind Restored.refl _ (steady.caught.weaken (fun _ _ => id) (fun _ => False.elim) fun _ _ => id)
  · intro result _
    exact (rest result).weaken (fun _ _ => id) (fun _ => .imp id fun same => .inr (congrArg Except.ok same))
      fun _ _ => id
  · intro halt error given
    exact .inl (congrArg Except.error given.halt)

theorem program_orderly (below : (stackRules sibling closed).Below left first second) (boundless : realm.Boundless)
    (calls : Program) (honest : engine.Honest → calls.Honest met) : Orderly left Restored met Reported (program first calls) := by
  induction calls generalizing met with
  | done result =>
    intro before level
    refine ⟨[], rfl, .start, rfl, fun fair error limit given => .inl ?_⟩
    rcases given with given | given <;> cases given
    exact honest fair error rfl limit
  | depth next ih =>
    have silent : Orderly left Restored (fun _ => False) Thrown (Render.depth : Render engine Nat) :=
      .silent Restored.refl (fun _ => rfl) (fun _ => rfl) fun _ _ _ => nofun
    exact silent.andThen Restored.refl (fun _ _ => Reported.halt) fun depth _ =>
      ih depth fun fair => honest fair depth
  | globals next ih => exact ih engine.globals fun fair => honest fair engine.globals
  | template name next ih =>
    apply Orderly.andThen Restored.refl (fun _ _ => Reported.halt) ((stackRules sibling closed).template? left (boundless.asked name))
    intro found _
    exact ih found fun fair => honest fair found
  | resolve name next ih =>
    apply Orderly.andThen Restored.refl (fun _ _ => Reported.halt) ((stackRules sibling closed).component? (boundless.reference name))
    intro found _
    exact ih _ fun fair => honest fair _
  | renderNamed name scope next ih =>
    exact called (Rules.named below (fun _ => boundless.opens _) scope) fun result => ih result fun fair => honest fair result
  | renderSource text scope next ih =>
    exact called (Rules.source below (boundless.text text) scope) fun result => ih result fun fair => honest fair result
  | renderTemplate template scope next ih =>
    exact called (Rules.entered below (fun node _ => boundless.node node) scope) fun result => ih result fun fair => honest fair result
  | renderComponent name props slots next ih =>
    exact called (Rules.component below (boundless.reference name) props fun slot _ => boundless.text slot.2) fun result => ih result fun fair => honest fair result

theorem program_of_known (below : (stackRules sibling closed).Below left first second) {run : Instance → Program}
    (within : realm.definition (.function run)) (use : Instance) :
    Orderly left Restored (fun _ => False) Reported (program first (run use)) := by
  rcases closed.known within with ⟨name, found⟩ | ⟨body, impossible⟩
  · exact program_orderly below (closed.host within) (run use) fun fair => fair name run found use
  · cases impossible

/-- However many adapters pass a component on, what is rendered in the end is orderly. -/
theorem definition_orderly (below : (stackRules sibling closed).Below left first second) (hops : Nat)
    {component : Component} (within : realm.definition component) {use : Instance}
    (texts : ∀ slot ∈ use.slots, realm.text slot.2) :
    Orderly left Restored (fun _ => False) Reported (definition first hops component use) := by
  induction hops generalizing component use with
  | zero =>
    cases component with
    | fragment body => exact Rules.fragmentDefinition below within 0 0 texts
    | function run => exact program_of_known below within use
    | adapter target forward =>
      apply Orderly.silent Restored.refl (fun _ => rfl) (fun _ => rfl)
      intro session error _ given
      cases given.halt
  | succ hops ih =>
    cases component with
    | fragment body => exact Rules.fragmentDefinition below within (hops + 1) 0 texts
    | function run => exact program_of_known below within use
    | adapter target forward =>
      have reference := closed.adapter within
      apply Orderly.andThen Restored.refl (fun _ _ => Reported.halt)
        ((stackRules sibling closed).component? reference)
      intro found returned
      match found with
      | none =>
        apply Orderly.silent Restored.refl (fun _ => rfl) (fun _ => rfl)
        intro session error _ given
        rcases given with given | given <;> cases given
      | some (resolved, inner) => exact ih (closed.found reference returned) texts

theorem levels_orderly (left : Nat) : (stackRules (.refl engine) (Realm.closed_all engine)).Below left
    (levels engine left) (levels engine (0 + left)) := by
  apply Rules.levels
  intro left first second below definition known use texts
  exact definition_orderly below _ known texts

end Host

/-- What can be asked of a rendering that is going on. -/
inductive Operation where
  | named (reference : String) (scope : Scope)
  | source (text : String) (scope : Scope)
  | template (template : Template) (scope : Scope)
  | fragment (template : Template) (scope : Scope)
  | component (name : String) (props : Fields Value) (slots : Fields String)

def Operation.on (below : Below engine) : Operation → Render engine String
  | .named reference scope => Render.named below reference scope
  | .source text scope => Render.source below text scope
  | .template body scope => Render.entering below body scope
  | .fragment body scope => Render.fragment below body scope
  | .component name props slots => Render.component below name props slots

def Operation.run (operation : Operation) : Render engine String := onStack fun below => operation.on below

theorem Operation.on_orderly {other : Engine} {sibling : engine.Sibling other} {left : Nat} {first : Below engine}
    {second : Below other} (below : (stackRules sibling (Realm.closed_all engine)).Below left first second)
    (operation : Operation) :
    Orderly left Restored (fun _ => False) Thrown (operation.on first) := by
  cases operation with
  | named reference scope => exact Rules.named below (fun _ => (Realm.boundless_all engine).opens _) scope
  | source text scope => exact Rules.source below trivial scope
  | template body scope => exact Rules.entered below (fun _ _ => trivial) scope
  | fragment body scope => exact Rules.fragment below (fun _ _ => trivial) scope
  | component name props slots => exact Rules.component below trivial props fun _ _ => trivial

/-- The stack ends as it began. On the way it never holds more than the limit, names are
entered while there is room and refused when there is none, and no limit is reported that
was not refused. -/
theorem stack_discipline (operation : Operation) (before : Session engine)
    (fits : before.stack.length ≤ engine.config.maxDepth) :
    (operation.run before).2.stack = before.stack ∧
      ∃ events, (operation.run before).2.log = events ++ before.log ∧
        History engine.config.maxDepth before.stack events before.stack ∧
        (∀ event ∈ events, event.stack.length ≤ engine.config.maxDepth) ∧
        (∀ stack name, .entered stack name ∈ events → stack.length < engine.config.maxDepth) ∧
        (∀ stack name error, .refused stack name error ∈ events → stack.length = engine.config.maxDepth ∧
          error = .recursionLimit engine.config.maxDepth (stack.reverse ++ [name])) ∧
        (engine.Honest → ∀ most chain, (operation.run before).1 = .error (.failed (.recursionLimit most chain)) →
          ∃ stack name, .refused stack name (.recursionLimit most chain) ∈ events) := by
  have level : before.stack.length + (engine.config.maxDepth - before.stack.length) = engine.config.maxDepth := by
    omega
  obtain ⟨events, log, history, restored, limits⟩ := operation.on_orderly (levels_orderly _) before level
  have ended : (operation.run before).2.stack = before.stack := restored
  rw [restored] at history
  refine ⟨ended, events, log, history, (history.bounded fits).2, fun stack name => history.entered_room,
    fun stack name error => history.refused_full, fun honest most chain failed => ?_⟩
  exact (limits honest _ ⟨most, chain, rfl⟩ failed).resolve_left id

/-- Room for one name. -/
def cramped : Engine := { config := { maxDepth := 1 } }

theorem refused_in_cramped :
    let page : Template := ⟨"page", "", [], []⟩
    let before : Session cramped := { stack := ["outer"] }
    ∃ stack name, .refused stack name (.recursionLimit 1 ["outer", "page"]) ∈
      ((Operation.template page {}).run before).2.log := by
  intro page before
  obtain ⟨_, events, log, _, _, _, _, limits⟩ := stack_discipline (.template page {}) before (by decide)
  obtain ⟨stack, name, inside⟩ := limits (fun _ _ => nofun) 1 ["outer", "page"] rfl
  rw [log]
  exact ⟨stack, name, List.mem_append_left _ inside⟩

end Render
end Stencil
