import Stencil.Proofs.InheritanceChain
import Stencil.Proofs.RenderLimit
import Stencil.Proofs.TextCuts

/-! Rendering a template by its name and rendering its source. By its name it stands on the stack, so everything in it
has one level less. That shows only where the limit is reported, and where the template's own name is: in the report of
a missing layout. -/

namespace Stencil.Render
open Template

variable {engine : Engine} {α β : Type}

/-- On a stack at least as high, with that many levels left, the first action reports the limit or gives what the
second one gives, and both settle their stacks. -/
def Follows (left : Nat) (settles : List String → List String → Prop) (gives : Except Halt α → RenderError → Prop)
    (first second : Render engine α) : Prop :=
  ∀ before before', before'.stack.length ≤ before.stack.length → before.stack.length + left = engine.config.maxDepth →
    (∃ error, Exceeds engine error ∧ gives (first before).1 error) ∨
      (first before).1 = (second before').1 ∧ settles before.stack (first before).2.stack ∧
        settles before'.stack (second before').2.stack

namespace Follows

variable {left : Nat} {settles : List String → List String → Prop} {gives : Except Halt α → RenderError → Prop}
  {first second : Render engine α}

theorem silent (refl : ∀ stack, settles stack stack)
    (stack : ∀ session, (first session).2.stack = session.stack)
    (stack' : ∀ session, (second session).2.stack = session.stack)
    (same : ∀ session session', (first session).1 = (second session').1) : Follows left settles gives first second := by
  intro before before' _ _
  refine .inr ⟨same before before', ?_, ?_⟩
  · rw [stack]
    exact refl _
  · rw [stack']
    exact refl _

theorem weaken {settles' : List String → List String → Prop} (follows : Follows left settles gives first second)
    (settling : ∀ before after, settles before after → settles' before after) :
    Follows left settles' gives first second := by
  intro before before' lower level
  exact (follows before before' lower level).imp_right fun ⟨same, settled, settled'⟩ =>
    ⟨same, settling _ _ settled, settling _ _ settled'⟩

theorem bind {gives' : Except Halt β → RenderError → Prop} {next next' : α → Render engine β}
    (refl : ∀ stack, settles stack stack)
    (through : ∀ before error, Exceeds engine error → gives (first before).1 error →
      gives' ((first >>= next) before).1 error)
    (follows : Follows left Restored gives first second)
    (rest : ∀ value, Returns first value → Follows left settles gives' (next value) (next' value)) :
    Follows left settles gives' (first >>= next) (second >>= next') := by
  intro before before' lower level
  rcases follows before before' lower level with ⟨error, exceeds, given⟩ | ⟨same, restored, restored'⟩
  · exact .inl ⟨error, exceeds, through before error exceeds given⟩
  rcases ran : first before with ⟨result, after⟩
  rcases ran' : second before' with ⟨result', after'⟩
  rw [ran] at same restored
  rw [ran'] at same restored'
  cases same
  cases result with
  | error halt =>
    rw [bind_error ran, bind_error ran', restored, restored']
    exact .inr ⟨rfl, refl _, refl _⟩
  | ok value =>
    rw [bind_ok ran, bind_ok ran', ← restored, ← restored']
    rw [← restored, ← restored'] at lower
    rw [← restored] at level
    exact rest value ⟨before, by rw [ran]⟩ after after' lower level

theorem andThen {gives' : Except Halt β → RenderError → Prop} {next next' : α → Render engine β}
    (refl : ∀ stack, settles stack stack) (thrown : ∀ error, gives' (.error (.failed error)) error)
    (follows : Follows left Restored Thrown first second)
    (rest : ∀ value, Returns first value → Follows left settles gives' (next value) (next' value)) :
    Follows left settles gives' (first >>= next) (second >>= next') := by
  apply bind refl _ follows rest
  intro before error _ given
  rcases ran : first before with ⟨result, after⟩
  rw [ran] at given
  cases given
  rw [bind_error ran]
  exact thrown error

theorem enter {inner : List String → List String → Prop} (name : String)
    (settling : ∀ stack after, inner (Template.title name :: stack) after → settles stack after)
    (thrown : ∀ error, gives (.error (.failed error)) error)
    (rest : ∀ fewer, left = fewer + 1 → Follows fewer inner gives first second) :
    Follows left settles gives (Render.enter name >>= fun _ => first) (Render.enter name >>= fun _ => second) := by
  intro before before' lower level
  cases left with
  | zero =>
    rw [bind_error (enter_full name level)]
    exact .inl ⟨_, ⟨_, rfl⟩, thrown _⟩
  | succ fewer =>
    have room : before.stack.length < engine.config.maxDepth := by omega
    rw [bind_ok (enter_room name room), bind_ok (enter_room name (Nat.lt_of_le_of_lt lower room))]
    have inside := rest fewer rfl
      { before with stack := Template.title name :: before.stack, log := .entered before.stack name :: before.log }
      { before' with stack := Template.title name :: before'.stack, log := .entered before'.stack name :: before'.log }
      (Nat.succ_le_succ lower) (by rw [List.length_cons]; omega)
    exact inside.imp_right fun ⟨same, settled, settled'⟩ => ⟨same, settling _ _ settled, settling _ _ settled'⟩

theorem restoring {inner : List String → List String → Prop} (restore : List String → List String → List String)
    (settling : ∀ before after, inner before after → settles before (restore before after))
    (follows : Follows left inner gives first second) :
    Follows left settles gives (fun session => Render.restoring (restore session.stack) first session)
      fun session => Render.restoring (restore session.stack) second session := by
  intro before before' lower level
  exact (follows before before' lower level).imp_right fun ⟨same, settled, settled'⟩ =>
    ⟨same, settling _ _ settled, settling _ _ settled'⟩

theorem within (name : String) (thrown : ∀ error, gives (.error (.failed error)) error)
    (rest : ∀ fewer, left = fewer + 1 → Follows fewer Restored gives first second) :
    Follows left Restored gives (Render.within name first) (Render.within name second) := by
  have popping : ∀ fewer, left = fewer + 1 → Follows fewer (fun before after => after = before.tail) gives
      (Render.restoring List.tail first) (Render.restoring List.tail second) := fun fewer same =>
    restoring (fun _ => List.tail) (fun _ _ => congrArg List.tail) (rest fewer same)
  exact enter name (fun _ _ popped => popped) thrown popping

theorem unwinding (follows : Follows left Topped gives first second) :
    Follows left Restored gives (Render.unwinding first) (Render.unwinding second) := by
  apply restoring (fun before after => after.drop (after.length - before.length)) _ follows
  rintro before _ ⟨above, rfl⟩
  exact unwound above before

theorem reported {first second : Render engine String} (follows : Follows left Restored Thrown first second) :
    Follows left Restored Reported (Render.reported first) (Render.reported second) := by
  intro before before' lower level
  rw [reported_apply, reported_apply]
  rcases follows before before' lower level with ⟨error, exceeds, thrown⟩ | ⟨same, restored, restored'⟩
  · exact .inl ⟨error, exceeds, .inr (congrArg handed thrown)⟩
  · exact .inr ⟨congrArg handed same, restored, restored'⟩

theorem outcome {first second : Render engine (Except ComponentError String)} (name : String)
    (follows : Follows left Restored Reported first second) :
    Follows left Restored Thrown (first >>= Render.outcome name) (second >>= Render.outcome name) := by
  apply bind Restored.refl _ follows
  · intro value _
    unfold Render.outcome
    split <;> exact silent Restored.refl (fun _ => rfl) (fun _ => rfl) fun _ _ => rfl
  · rintro before _ ⟨chain, rfl⟩ given
    rcases ran : first before with ⟨result, after⟩
    rw [ran] at given
    rcases given with thrown | same
    · cases thrown
      rw [bind_error ran]
      rfl
    · cases same
      rw [bind_ok ran]
      rfl

end Follows

/-- The first rendering stands higher on its stack. -/
def higherRules (engine : Engine) : Rules engine engine (.all engine) where
  sibling := .refl engine
  closed := Realm.closed_all engine
  Steady left first second := Follows left Restored Thrown first second
  Climbing left first second := Follows left Topped Thrown first second
  Reporting left first second := Follows left Restored Reported first second
  pure left value := .silent Restored.refl (fun _ => rfl) (fun _ => rfl) fun _ _ => rfl
  bind steady rest := steady.andThen Restored.refl (fun _ => rfl) rest
  andClimb steady rest := steady.andThen Topped.refl (fun _ => rfl) rest
  climbing steady := steady.weaken fun _ _ same => ⟨[], same⟩
  evaluating left action settled := .silent Restored.refl (fun _ => rfl) (fun _ => rfl)
    fun session session' => congrArg Except.ok (settled.same session.evaluator session'.evaluator)
  template? left name _ := .silent Restored.refl (fun session => (template?_kept name session).1)
    (fun session => (template?_kept name session).1) fun session session' => by rw [template?_fst, template?_fst]
  fail left _ _ := .silent Restored.refl (fun _ => rfl) (fun _ => rfl) fun _ _ => rfl
  entering name _ _ climbing := .enter name (fun _ _ => Topped.popped) (fun _ => rfl) climbing
  within name _ _ steady := .within name (fun _ => rfl) steady
  unwinding climbing := climbing.unwinding
  reported steady := steady.reported
  outcome resolved name _ _ reporting := (Follows.within resolved (fun _ => .inl rfl) reporting).outcome name

/-- With one level less left, components give the same as long as none of them counts levels. -/
theorem levels_higher
    (templates : ∀ name component, engine.component? name = some component → ∃ body, component = .fragment body)
    (left : Nat) : (higherRules engine).Below left (levels engine left) (levels engine (1 + left)) := by
  apply Rules.levels
  intro left first second below component known use texts
  obtain ⟨body, rfl⟩ : ∃ body, component = .fragment body := by
    rcases known with ⟨name, found⟩ | fragment
    · exact templates name component found
    · exact fragment
  exact Rules.fragmentDefinition below known _ _ texts

/-- The same, but for the template that a missing layout is reported for. -/
inductive SameBut (child child' : String) : Except Halt α → Except Halt α → Prop
  | same (result : Except Halt α) : SameBut child child' result result
  | parent (parent : String) :
    SameBut child child' (.error (.failed (.parentNotFound parent child)))
      (.error (.failed (.parentNotFound parent child')))

theorem SameBut.eq {child child' : String} {first second : Except Halt α} (but : SameBut child child' first second)
    (other : ∀ parent, first ≠ .error (.failed (.parentNotFound parent child))) : second = first := by
  cases but with
  | same => rfl
  | parent parent => exact absurd rfl (other parent)

theorem SameBut.bind {child child' : String} {next next' : α → Render engine β}
    (rest : ∀ value session, SameBut child child' (next value session).1 (next' value session).1)
    (action : Render engine α) (session : Session engine) :
    SameBut child child' ((action >>= next) session).1 ((action >>= next') session).1 := by
  rcases ran : action session with ⟨halt | value, after⟩
  · rw [bind_error ran, bind_error ran]
    exact .same _
  · rw [bind_ok ran, bind_ok ran]
    exact rest value after

/-- Nothing but that report has the name of a template in it. -/
theorem layout_renamed (below : Below engine) (followed : Nat) (sections : Sections) (template : Template)
    (name : String) (scope : Scope) (session : Session engine) :
    SameBut (title template.name) (title name) (layout below followed sections template scope session).1
      (layout below followed sections { template with name } scope session).1 := by
  unfold layout
  cases extension? template.nodes with
  | none => exact .same _
  | some args =>
    dsimp only
    split
    · exact .same _
    · refine .bind (fun captured session => ?_) _ session
      refine .bind (fun reference session => ?_) _ session
      refine .bind (fun parent session => ?_) _ session
      refine .bind (fun _ session => ?_) _ session
      refine .bind (fun found session => ?_) _ session
      cases found with
      | none => exact .parent parent
      | some layout => exact .same _

end Stencil.Render

namespace Stencil.Engine
open Render Template

variable {engine : Engine} {name source : String}

/-- One name more on the stack shows in the limit only. -/
theorem printed_higher
    (templates : ∀ name component, engine.component? name = some component → ∃ body, component = .fragment body)
    (scope : Scope) (template : Template) {stack stack' : List String} (above : stack.length = stack'.length + 1)
    (fits : stack.length ≤ engine.config.maxDepth) :
    (∃ chain, engine.printed scope stack template =
      .error (.failed (.recursionLimit engine.config.maxDepth chain))) ∨
    engine.printed scope stack template = engine.printed scope stack' template := by
  obtain ⟨left, level⟩ := Nat.exists_eq_add_of_le fits
  have level' : stack'.length + (1 + left) = engine.config.maxDepth := by omega
  rw [← @fragment_run engine scope template left { stack } level.symm,
    ← @fragment_run engine scope template (1 + left) { stack := stack' } level']
  have follows : Follows left Restored Thrown (fragment (levels engine left) template scope) _ :=
    Rules.fragment (levels_higher templates left) (fun _ _ => trivial) scope
  rcases follows { stack } { stack := stack' } (Nat.le.intro above.symm) level.symm with
    ⟨_, ⟨chain, rfl⟩, thrown⟩ | ⟨same, -, -⟩
  · exact .inl ⟨chain, thrown⟩
  · exact .inr same

theorem printed_renamed (scope : Scope) (stack : List String) (template : Template) (name : String) :
    SameBut (title template.name) (title name) (engine.printed scope stack template)
      (engine.printed scope stack { template with name }) :=
  layout_renamed _ 0 [] template name scope { stack }

/-- Rendering a template by its name is rendering its source. -/
structure ByName (engine : Engine) (name source : String) (data : Value) : Prop where
  text : ∀ {evaluator text}, (engine.render name data evaluator).1 = .ok text →
    ∀ evaluator', (engine.renderInline source data evaluator').1 = .ok text
  unknown : ∀ {evaluator short}, (engine.render name data evaluator).1 = .error (.failed (.aliasNotRegistered short)) →
    ∀ evaluator', (engine.renderInline source data evaluator').1 = .error (.failed (.aliasNotRegistered short))
  /-- Unless the limit is reported, nothing else differs but the template that a missing layout is reported for. -/
  other : ∀ evaluator evaluator',
    (∃ chain, (engine.render name data evaluator).1 =
      .error (.failed (.recursionLimit engine.config.maxDepth chain))) ∨
    SameBut (title name) (title "") (engine.render name data evaluator).1 (engine.renderInline source data evaluator').1

theorem ByName.of_other {data : Value} (other : ∀ evaluator evaluator',
    (∃ chain, (engine.render name data evaluator).1 =
      .error (.failed (.recursionLimit engine.config.maxDepth chain))) ∨
    SameBut (title name) (title "") (engine.render name data evaluator).1
      (engine.renderInline source data evaluator').1) : engine.ByName name source data := by
  have kept {evaluator : Evaluator} {result : Except Halt String} (given : (engine.render name data evaluator).1 = result)
      (limit : ∀ most chain, result ≠ .error (.failed (.recursionLimit most chain)))
      (layout : ∀ parent child, result ≠ .error (.failed (.parentNotFound parent child))) (evaluator' : Evaluator) :
      (engine.renderInline source data evaluator').1 = result := by
    rcases other evaluator evaluator' with ⟨chain, full⟩ | but
    · exact absurd (given.symm.trans full) (limit _ chain)
    · rw [given] at but
      exact but.eq fun parent => layout parent _
  exact { text given := kept given nofun nofun, unknown given := kept given nofun nofun, other }

/-- What is registered under a name is taken for a name, whatever it looks like. -/
theorem isNamed_registered {template : Template} (registered : engine.templates.find? name = some template)
    (session : Session engine) : engine.isNamed name session = (.ok true, session) := by
  have found : Render.template? name session = (.ok (some template), session) := by
    unfold Render.template?
    rw [registered]
  unfold Engine.isNamed
  split
  · rfl
  · rw [bind_ok found]
    rfl

/-- A template of its own is rendered like its source. -/
theorem name_stands_for_source
    (templates : ∀ name component, engine.component? name = some component → ∃ body, component = .fragment body)
    (registered : engine.templates.find? name = some (Template.parse name source))
    (plain : ¬ Config.aliasMark <:+: name.toList) (data : Value) : engine.ByName name source data := by
  have expands : engine.config.expand name = .plain := by
    unfold Config.expand
    rw [Text.cutFirst?_eq_none.2 plain]
  rw [parse_eq] at registered
  have found : engine.template? name = some ⟨name, source, (read source).1, (read source).2⟩ := by
    unfold template?
    rw [registered]
    rfl
  refine .of_other fun evaluator evaluator' => ?_
  obtain ⟨session, empty, rendered⟩ := render_entering (isNamed_registered registered _) expands found data
  rw [rendered, renderInline_fst, parse_eq]
  cases room : engine.config.maxDepth with
  | zero =>
    have full : session.stack.length = engine.config.maxDepth := by rw [empty, room]; rfl
    rw [entering, Render.within, bind_error (enter_full _ full), room]
    exact .inl ⟨_, rfl⟩
  | succ fewer =>
    have fits : [title name].length ≤ engine.config.maxDepth := room ▸ Nat.succ_pos fewer
    rw [entering_fst room empty, ← room]
    rcases printed_higher templates (engine.dataScope data) ⟨name, source, _, _⟩ rfl fits with limit | same
    · exact .inl limit
    · rw [same]
      exact .inr (printed_renamed _ [] ⟨name, source, _, _⟩ "")

/-- A page with a component in a layout that nobody has registered. -/
def lone : Engine :=
  ({ components := [("box", .ofSource "[\x7b\x7b slot \x7d\x7d]")] } : Engine).registerTemplate "page"
    "@extends('base')@section('a')@component('box')B@endcomponent@endsection"

theorem page_stands_for_source :
    (∀ name component, lone.component? name = some component → ∃ body, component = .fragment body) ∧
    lone.templates.find? "page" = some (Template.parse "page"
      "@extends('base')@section('a')@component('box')B@endcomponent@endsection") ∧
    ¬ Config.aliasMark <:+: "page".toList ∧
    lone.ByName "page" "@extends('base')@section('a')@component('box')B@endcomponent@endsection" .null := by
  have templates : ∀ name component, lone.component? name = some component → ∃ body, component = .fragment body := by
    intro name component found
    simp only [lone, registerTemplate, component?, Fields.find?] at found
    split at found
    · cases found
      exact ⟨_, rfl⟩
    · cases found
  have plain : ¬ Config.aliasMark <:+: "page".toList := by decide
  exact ⟨templates, rfl, plain, name_stands_for_source templates rfl plain .null⟩

end Stencil.Engine
