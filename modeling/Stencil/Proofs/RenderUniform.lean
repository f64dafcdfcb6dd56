import Stencil.Proofs.ExpressionVariables
import Stencil.Proofs.InheritanceChain

/-! One action in several engines that differ in their shared data. On stacks that are the same it may give
different values, but it goes the same way for all of them: either it gives a value for each, or it fails for
all of them alike. -/

namespace Stencil

/-- The engine over other shared data. -/
def Engine.sharing (engine : Engine) (globals : Scope) : Engine := { engine with globals }

@[simp] theorem Engine.config_sharing (engine : Engine) (globals : Scope) :
    (engine.sharing globals).config = engine.config := rfl

@[simp] theorem Engine.directives_sharing (engine : Engine) (globals : Scope) :
    (engine.sharing globals).directives = engine.directives := rfl

variable {ι : Type} {engine : Engine} {globals : ι → Scope} {α β : Type}

namespace Fields

/-- The fields that there are for one of the data. -/
def under (fields : Fields (ι → α)) (i : ι) : Fields α := List.map (fun (name, value) => (name, value i)) fields

theorem find?_under (fields : Fields (ι → α)) (i : ι) (name : String) :
    (fields.under i).find? name = (fields.find? name).map (· i) := by
  induction fields with
  | nil => rfl
  | cons field fields ih =>
    obtain ⟨other, value⟩ := field
    change find? ((other, value i) :: under fields i) name = _
    unfold find?
    split
    · rfl
    · exact ih

theorem contains_under (fields : Fields (ι → α)) (i : ι) (name : String) :
    (fields.under i).contains name = fields.contains name := by
  unfold contains
  rw [find?_under, Option.isSome_map]

theorem insert_under (fields : Fields (ι → α)) (i : ι) (name : String) (value : ι → α) :
    (fields.insert name value).under i = (fields.under i).insert name (value i) := by
  induction fields with
  | nil => rfl
  | cons field fields ih =>
    obtain ⟨other, kept⟩ := field
    change _ = insert ((other, kept i) :: under fields i) name (value i)
    unfold insert
    split
    · rfl
    · split
      · rfl
      · exact congrArg ((other, kept i) :: ·) ih

theorem mem_of_find? {fields : Fields α} {name : String} {value : α} (found : fields.find? name = some value) :
    (name, value) ∈ fields := by
  induction fields with
  | nil => cases found
  | cons field fields ih =>
    unfold find? at found
    split at found
    next same =>
      cases found
      exact same ▸ List.mem_cons_self
    next => exact List.mem_cons_of_mem _ (ih found)

end Fields

namespace Engine

theorem firstComponent?_sharing (names : List String) (globals : Scope) :
    (engine.sharing globals).firstComponent? names = engine.firstComponent? names := by
  induction names with
  | nil => rfl
  | cons name names ih =>
    unfold firstComponent?
    rw [ih]
    rfl

theorem reached?_sharing (reference : String) (globals : Scope) :
    (engine.sharing globals).reached? reference = engine.reached? reference := by
  unfold reached?
  simp only [firstComponent?_sharing]
  rfl

end Engine

namespace Render
open Template

/-- The action gives the value and leaves the stack as it was. -/
def Gives (action : Render engine α) (value : α) : Prop :=
  ∀ session, ∃ after, action session = (.ok value, after) ∧ after.stack = session.stack

namespace Gives

theorem pure (value : α) : Gives (Pure.pure value : Render engine α) value := fun session => ⟨session, rfl, rfl⟩

theorem bind {action : Render engine α} {next : α → Render engine β} {value : α} {result : β} (gives : Gives action value)
    (rest : Gives (next value) result) : Gives (action >>= next) result := by
  intro session
  obtain ⟨middle, ran, kept⟩ := gives session
  obtain ⟨after, ran', kept'⟩ := rest middle
  exact ⟨after, (bind_ok ran).trans ran', kept'.trans kept⟩

theorem evaluating {action : StateM Evaluator α} {value : α} (gives : ∀ evaluator, (action evaluator).1 = value) :
    Gives (Render.evaluating action : Render engine α) value := fun session =>
  ⟨{ session with evaluator := (action session.evaluator).2 }, Prod.ext (congrArg Except.ok (gives _)) rfl, rfl⟩

theorem evaluate (scope : Scope) (text : String) : Gives (Render.evaluate scope text : Render engine Value) (scope.value text) :=
  evaluating (Evaluator.evaluate_fst scope text)

theorem condition (scope : Scope) (text : String) :
    Gives (Render.condition scope text : Render engine Bool) (scope.value text).isTruthy :=
  evaluating fun evaluator => congrArg Value.isTruthy (Evaluator.evaluate_fst scope text evaluator)

theorem argument (scope : Scope) (text : String) : Gives (Render.argument scope text : Render engine Value) (scope.argument text) :=
  evaluating (Evaluator.argument_fst scope text)

theorem template? (name : String) : Gives (Render.template? name : Render engine (Option Template)) (engine.template? name) :=
  fun session => ⟨(Render.template? name session).2, Prod.ext (template?_fst name session) rfl, (template?_kept name session).1⟩

theorem firstComponent? (names : List String) :
    Gives (Render.firstComponent? names : Render engine _) (engine.firstComponent? names) := by
  induction names with
  | nil => exact pure none
  | cons name names ih =>
    unfold Render.firstComponent? Engine.firstComponent?
    cases engine.component? name with
    | some component => exact pure _
    | none =>
      apply bind (template? name)
      cases engine.template? name with
      | some template => exact pure _
      | none => exact ih

theorem component? (reference : String) :
    Gives (Render.component? reference : Render engine _) (engine.reached? reference) := by
  unfold Render.component? Engine.reached?
  cases engine.config.expand reference with
  | plain => exact firstComponent? _
  | expanded name => exact firstComponent? _
  | unknown short => exact pure none

theorem unwinding {action : Render engine α} {value : α} (gives : Gives action value) :
    Gives (Render.unwinding action) value := by
  intro session
  obtain ⟨after, ran, kept⟩ := gives session
  refine ⟨(Render.unwinding action session).2, Prod.ext (show (action session).1 = .ok value by rw [ran]) rfl, ?_⟩
  change (action session).2.stack.drop ((action session).2.stack.length - session.stack.length) = _
  rw [ran, kept, Nat.sub_self, List.drop_zero]

theorem reported {action : Render engine String} {text : String} (gives : Gives action text) :
    Gives (Render.reported action) (.ok text) := by
  intro session
  obtain ⟨after, ran, kept⟩ := gives session
  exact ⟨after, by rw [reported_apply, ran, handed], kept⟩

section Nodes
variable {below : Below engine} {scope : Scope}

theorem echo {sections : Sections} (span : Text.Span) (expression : String) (escape : Bool) :
    Gives (node below sections (.echo span expression escape) scope)
      (if escape then escaped (scope.value expression) else (scope.value expression).display) :=
  (evaluate scope expression).bind (.pure _)

theorem nodes_nil {sections : Sections} : Gives (nodes below sections [] scope) "" := .pure ""

theorem nodes_cons {sections : Sections} {first : Node} {rest : List Node} {before after : String}
    (head : Gives (node below sections first scope) before) (tail : Gives (nodes below sections rest scope) after) :
    Gives (nodes below sections (first :: rest) scope) (before ++ after) :=
  head.bind (tail.bind (.pure _))

/-- Source without a layout prints its nodes. -/
theorem source {text result : String} {body : List Node} {diagnostics : List Diagnostic}
    (parsed : read text = (body, diagnostics)) (plain : extension? body = none)
    (gives : Gives (nodes below [] body scope) result) : Gives (Render.source below text scope) result := by
  have unfolded : Render.layout below 0 [] (Template.parse "" text) scope = nodes below [] body scope := by
    unfold Render.layout Template.parse
    simp only [parsed, plain]
  unfold Render.source Render.fragment
  rw [unfolded]
  exact gives.unwinding

end Nodes

end Gives

/-- A component that has been found is entered if there is room for it. -/
theorem component_prints {name resolved text : String} {body : Template} {left : Nat} {props : Fields Value}
    {slots : Fields String} (found : engine.reached? name = some (resolved, .fragment body))
    (gives : Gives (Render.template (levels engine left) body ⟨resolved, props, slots⟩) text) {session : Session engine}
    (room : session.stack.length < engine.config.maxDepth) :
    (Render.component (levels engine (left + 1)) name props slots session).1 = .ok text := by
  obtain ⟨after, ran, kept⟩ := Gives.component? name session
  rw [found] at ran
  obtain ⟨last, ran', _⟩ := gives.reported { after with
      stack := Template.title resolved :: after.stack
      log := .entered after.stack resolved :: after.log }
  have entered := enter_room resolved (show after.stack.length < engine.config.maxDepth by rw [kept]; exact room)
  have inside : (within resolved ((levels engine (left + 1)).component (.fragment body) ⟨resolved, props, slots⟩) after).1 =
      .ok (.ok text) := by
    rw [within, bind_ok entered]
    change (Render.reported (Render.template (levels engine left) body ⟨resolved, props, slots⟩) _).1 = _
    rw [ran']
  unfold Render.component
  rw [bind_ok ran]
  dsimp only
  rw [bind_ok (Prod.ext inside rfl)]
  rfl

theorem single_prints {below : Below engine} {only : Node} {scope : Scope} {session : Session engine}
    {text : String} (printed : (Render.node below [] only scope session).1 = .ok text) :
    (Render.nodes below [] [only] scope session).1 = .ok text := by
  unfold Render.nodes
  rw [bind_ok (Prod.ext printed rfl)]
  exact congrArg Except.ok String.append_empty

/-- The actions leave stacks that are the same if they find stacks that are the same. Either none of them
gives a value, all for the same reason, or each gives one. -/
def Uniform (related : (ι → α) → Prop) (actions : ∀ i, Render (engine.sharing (globals i)) α) : Prop :=
  ∀ (sessions : ∀ i, Session (engine.sharing (globals i))) stack, (∀ i, (sessions i).stack = stack) →
    (∃ after, ∀ i, (actions i (sessions i)).2.stack = after) ∧
      ((∃ halt, ∀ i, (actions i (sessions i)).1 = .error halt) ∨
        ∃ values, related values ∧ ∀ i, (actions i (sessions i)).1 = .ok (values i))

namespace Uniform

variable {related : (ι → α) → Prop} {related' : (ι → β) → Prop} {actions : ∀ i, Render (engine.sharing (globals i)) α}

theorem of_gives {values : ι → α} (holds : related values) (gives : ∀ i, Gives (actions i) (values i)) :
    Uniform related actions := by
  intro sessions stack same
  refine ⟨⟨stack, fun i => ?_⟩, .inr ⟨values, holds, fun i => ?_⟩⟩
  · obtain ⟨after, ran, kept⟩ := gives i (sessions i)
    rw [ran, kept, same]
  · obtain ⟨after, ran, _⟩ := gives i (sessions i)
    rw [ran]

theorem pure {values : ι → α} (holds : related values) :
    Uniform related fun i => (Pure.pure (values i) : Render (engine.sharing (globals i)) α) :=
  of_gives holds fun i => .pure (values i)

theorem bind {next : ∀ i, α → Render (engine.sharing (globals i)) β} (uniform : Uniform related actions)
    (rest : ∀ values, related values → Uniform related' fun i => next i (values i)) :
    Uniform related' fun i => actions i >>= next i := by
  intro sessions stack same
  obtain ⟨⟨after, kept⟩, ⟨halt, halted⟩ | ⟨values, holds, given⟩⟩ := uniform sessions stack same
  · have ran (i : ι) : (actions i >>= next i) (sessions i) = (.error halt, (actions i (sessions i)).2) :=
      bind_error (Prod.ext (halted i) rfl)
    exact ⟨⟨after, fun i => (congrArg (·.2.stack) (ran i)).trans (kept i)⟩,
      .inl ⟨halt, fun i => congrArg Prod.fst (ran i)⟩⟩
  · have ran (i : ι) : (actions i >>= next i) (sessions i) = next i (values i) (actions i (sessions i)).2 :=
      bind_ok (Prod.ext (given i) rfl)
    simp only [ran]
    exact rest values holds _ after kept

theorem fail (error : RenderError) :
    Uniform related fun i => (Render.fail error : Render (engine.sharing (globals i)) α) :=
  fun _ stack same => ⟨⟨stack, same⟩, .inl ⟨.failed error, fun _ => rfl⟩⟩

theorem evaluating {action : ι → StateM Evaluator α} {values : ι → α}
    (gives : ∀ i evaluator, (action i evaluator).1 = values i) :
    Uniform (· = values) fun i => (Render.evaluating (action i) : Render (engine.sharing (globals i)) α) :=
  of_gives rfl fun i => .evaluating (gives i)

section Scopes
variable {scopes : ι → Scope}

theorem evaluate (text : String) : Uniform (· = fun i => (scopes i).value text)
    fun i => (Render.evaluate (scopes i) text : Render (engine.sharing (globals i)) Value) :=
  of_gives rfl fun i => .evaluate (scopes i) text

theorem condition (text : String) : Uniform (· = fun i => ((scopes i).value text).isTruthy)
    fun i => (Render.condition (scopes i) text : Render (engine.sharing (globals i)) Bool) :=
  of_gives rfl fun i => .condition (scopes i) text

theorem argument (text : String) : Uniform (· = fun i => (scopes i).argument text)
    fun i => (Render.argument (scopes i) text : Render (engine.sharing (globals i)) Value) :=
  of_gives rfl fun i => .argument (scopes i) text

theorem nameArgument (text : String) : Uniform (· = fun i => nameIn (scopes i) text)
    fun i => (Render.nameArgument (scopes i) text : Render (engine.sharing (globals i)) String) :=
  of_gives rfl fun i => nameArgument_run (scopes i) text

theorem fieldsArgument (text : Option String) : Uniform (· = fun i => fieldsIn (scopes i) text)
    fun i => (Render.fieldsArgument (scopes i) text : Render (engine.sharing (globals i)) (Fields Value)) :=
  of_gives rfl fun i => fieldsArgument_run (scopes i) text

theorem slotTexts (texts : Fields String) (slots : List Slot) : Uniform (· = fun i => slotTextsIn (scopes i) texts slots)
    fun i => (Render.slotTexts (scopes i) texts slots : Render (engine.sharing (globals i)) (Fields String)) :=
  of_gives rfl fun i => slotTexts_run (scopes i) slots texts

end Scopes

theorem resolveName (reference : String) :
    Uniform (fun names => ∃ name, engine.resolved reference = .ok name ∧ names = fun _ => name)
      fun i => (Render.resolveName reference : Render (engine.sharing (globals i)) String) := by
  have run (i : ι) (session : Session (engine.sharing (globals i))) :
      Render.resolveName reference session = (engine.resolved reference, session) := resolveName_run reference session
  intro sessions stack same
  refine ⟨⟨stack, fun i => (congrArg (·.2.stack) (run i _)).trans (same i)⟩, ?_⟩
  cases resolved : engine.resolved reference with
  | error halt => exact .inl ⟨halt, fun i => (congrArg Prod.fst (run i _)).trans resolved⟩
  | ok name => exact .inr ⟨_, ⟨name, rfl, rfl⟩, fun i => (congrArg Prod.fst (run i _)).trans resolved⟩

theorem template? (name : String) : Uniform (· = fun _ => engine.template? name)
    fun i => (Render.template? name : Render (engine.sharing (globals i)) (Option Template)) :=
  of_gives rfl fun _ => .template? name

theorem component? (reference : String) : Uniform (· = fun _ => engine.reached? reference)
    fun i => (Render.component? reference : Render (engine.sharing (globals i)) _) :=
  of_gives rfl fun i => Engine.reached?_sharing reference (globals i) ▸ .component? reference

/-- A stack that is full for one is full for all of them. -/
theorem enter (name : String) :
    Uniform (fun _ => True) fun i => (Render.enter name : Render (engine.sharing (globals i)) Unit) := by
  intro sessions stack same
  by_cases full : engine.config.maxDepth ≤ stack.length
  · have refused (i : ι) : ∃ log, Render.enter name (sessions i) = (.error (.failed (.recursionLimit
        engine.config.maxDepth ((sessions i).stack.reverse ++ [name]))), { sessions i with log }) :=
      ⟨_, if_pos (by rw [same]; exact full)⟩
    refine ⟨⟨stack, fun i => ?_⟩, .inl ⟨_, fun i => (?_ : (Render.enter name (sessions i)).1 =
      .error (.failed (.recursionLimit engine.config.maxDepth (stack.reverse ++ [name]))))⟩⟩
    · obtain ⟨log, ran⟩ := refused i
      exact (congrArg (·.2.stack) ran).trans (same i)
    · obtain ⟨log, ran⟩ := refused i
      rw [ran, same]
  · have entered (i : ι) : ∃ log, Render.enter name (sessions i) =
        (.ok (), { sessions i with stack := title name :: (sessions i).stack, log }) :=
      ⟨_, if_neg (by rw [same]; exact full)⟩
    refine ⟨⟨title name :: stack, fun i => ?_⟩, .inr ⟨fun _ => (), trivial, fun i => ?_⟩⟩
    · obtain ⟨log, ran⟩ := entered i
      exact (congrArg (·.2.stack) ran).trans (congrArg (title name :: ·) (same i))
    · obtain ⟨log, ran⟩ := entered i
      exact congrArg Prod.fst ran

theorem restoring (restore : List String → List String → List String) (uniform : Uniform related actions) :
    Uniform related fun i session => Render.restoring (restore session.stack) (actions i) session := by
  intro sessions stack same
  obtain ⟨⟨after, kept⟩, given⟩ := uniform sessions stack same
  refine ⟨⟨restore stack after, fun i => ?_⟩, given⟩
  change restore (sessions i).stack (actions i (sessions i)).2.stack = _
  rw [same, kept]

theorem within (name : String) (uniform : Uniform related actions) :
    Uniform related fun i => Render.within name (actions i) :=
  bind (enter name) fun _ _ => restoring (fun _ => List.tail) uniform

theorem unwinding (uniform : Uniform related actions) : Uniform related fun i => Render.unwinding (actions i) :=
  restoring (fun before after => after.drop (after.length - before.length)) uniform

theorem onStack {action : ∀ i, Below (engine.sharing (globals i)) → Render (engine.sharing (globals i)) α}
    (uniform : ∀ left, Uniform related fun i => action i (levels _ left)) :
    Uniform related fun i => Render.onStack (action i) := by
  intro sessions stack same
  have ran (i : ι) : Render.onStack (action i) (sessions i) =
      action i (levels _ (engine.config.maxDepth - stack.length)) (sessions i) := by
    rw [onStack_apply, same]
    rfl
  simp only [ran]
  exact uniform _ sessions stack same

theorem mono {wider : (ι → α) → Prop} (uniform : Uniform related actions) (weaker : ∀ values, related values → wider values) :
    Uniform wider actions := by
  intro sessions stack same
  obtain ⟨kept, given⟩ := uniform sessions stack same
  exact ⟨kept, given.imp_right fun ⟨values, holds, gives⟩ => ⟨values, weaker values holds, gives⟩⟩

theorem unending : Uniform related fun i => (throw .unending : Render (engine.sharing (globals i)) α) :=
  fun _ stack same => ⟨⟨stack, same⟩, .inl ⟨.unending, fun _ => rfl⟩⟩

/-- A failure becomes a result, the same for all of them. -/
theorem reported {prints : (ι → String) → Prop} {actions : ∀ i, Render (engine.sharing (globals i)) String}
    (uniform : Uniform prints actions) :
    Uniform (fun results => (∃ error, results = fun _ => .error error) ∨
        ∃ texts, prints texts ∧ results = fun i => .ok (texts i))
      fun i => Render.reported (actions i) := by
  intro sessions stack same
  obtain ⟨kept, ⟨halt, halted⟩ | ⟨texts, printed, given⟩⟩ := uniform sessions stack same
  · simp only [reported_apply, halted]
    refine ⟨kept, ?_⟩
    cases halt with
    | failed error => exact .inr ⟨fun _ => .error (.render error), .inl ⟨_, rfl⟩, fun _ => rfl⟩
    | unending => exact .inl ⟨.unending, fun _ => rfl⟩
  · simp only [reported_apply, given]
    exact ⟨kept, .inr ⟨fun i => .ok (texts i), .inr ⟨texts, printed, rfl⟩, fun _ => rfl⟩⟩

end Uniform

end Render
end Stencil
