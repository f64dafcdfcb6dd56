import Stencil.Proofs.ComponentContainment
import Stencil.Proofs.RenderUniform

/-! Components that are templates in the end. An adapter hands on the slots that it was given, and of the adapters on
the way none comes up twice. Each slot is rendered by itself, and what it gives is bound as text that is rendered. -/

namespace Stencil

open Render Template

variable {engine : Engine}

namespace Engine

/-- The slots rendered one after the other, in a scope and on a stack. -/
def filled (engine : Engine) (scope : Scope) (stack : List String) : Fields String → Except Halt (Fields Value)
  | [] => .ok []
  | (name, text) :: slots => do
    let content ← engine.printed scope stack (Template.parse "" text)
    let rest ← engine.filled scope stack slots
    return (name, .safe content) :: rest

theorem filled_cons {scope : Scope} {stack : List String} {slots : Fields String} {slot : String × String}
    {contents : Fields Value} (filled : engine.filled scope stack (slot :: slots) = .ok contents) :
    ∃ content rest, engine.printed scope stack (Template.parse "" slot.2) = .ok content ∧
      engine.filled scope stack slots = .ok rest ∧ contents = (slot.1, .safe content) :: rest := by
  rw [Engine.filled] at filled
  cases printed : engine.printed scope stack (Template.parse "" slot.2) with
  | error halt => rw [printed] at filled; cases filled
  | ok content =>
    cases others : engine.filled scope stack slots with
    | error halt => rw [printed, others] at filled; cases filled
    | ok rest =>
      rw [printed, others] at filled
      cases filled
      exact ⟨content, rest, rfl, rfl, rfl⟩

theorem names_filled {scope : Scope} {stack : List String} {slots : Fields String} {contents : Fields Value}
    (filled : engine.filled scope stack slots = .ok contents) : contents.names = slots.names := by
  induction slots generalizing contents with
  | nil =>
    cases filled
    rfl
  | cons slot slots ih =>
    obtain ⟨content, rest, -, others, rfl⟩ := filled_cons filled
    exact congrArg (slot.1 :: ·) (ih others)

/-- Among the others each slot gives what it gives by itself. -/
theorem filled_append {scope : Scope} {stack : List String} {earlier later : Fields String} {name text : String}
    {contents : Fields Value} (filled : engine.filled scope stack (earlier ++ (name, text) :: later) = .ok contents) :
    ∃ content ahead behind, engine.printed scope stack (Template.parse "" text) = .ok content ∧
      contents = ahead ++ (name, .safe content) :: behind ∧ Fields.names behind = later.names := by
  induction earlier generalizing contents with
  | nil =>
    obtain ⟨content, rest, printed, others, rfl⟩ := filled_cons filled
    exact ⟨content, [], rest, printed, rfl, names_filled others⟩
  | cons slot earlier ih =>
    obtain ⟨content, rest, -, others, rfl⟩ := filled_cons filled
    obtain ⟨content, ahead, behind, printed, rfl, names⟩ := ih others
    exact ⟨content, _ :: ahead, behind, printed, rfl, names⟩

/-- So many adapters lead from a component to a template, and to the use of it that they make of theirs. -/
inductive Forwarded (engine : Engine) : Nat → Component → Instance → Template → Instance → Prop
  | template (body : Template) (use : Instance) : Forwarded engine 0 (.fragment body) use body use
  | adapter {hops : Nat} {target resolved : String} {forward : Instance → Fields Value} {inner : Component}
    {use last : Instance} {body : Template} (found : engine.reached? target = some (resolved, inner))
    (further : Forwarded engine hops inner ⟨resolved, forward use, use.slots⟩ body last) :
    Forwarded engine (hops + 1) (.adapter target forward) use body last

namespace Forwarded
variable {hops hops' : Nat} {component : Component} {use use' last last' : Instance} {body body' : Template}

theorem slots (forwarded : engine.Forwarded hops component use body last) : last.slots = use.slots := by
  induction forwarded with
  | template => rfl
  | adapter _ _ ih => exact ih

theorem unique (forwarded : engine.Forwarded hops component use body last)
    (other : engine.Forwarded hops' component use' body' last') : hops = hops' := by
  induction forwarded generalizing hops' use' body' last' with
  | template =>
    cases other
    rfl
  | adapter found _ ih =>
    cases other with
    | adapter found' further' =>
      cases found.symm.trans found'
      exact congrArg (· + 1) (ih further')

/-- The names of the adapters on the way are different, for from each of them it is another number of hops. -/
theorem trail (forwarded : engine.Forwarded hops component use body last) {name : String}
    (known : engine.component? name = some component ∨ ∃ body, component = .fragment body) :
    ∃ names : List String, names.length = hops ∧ names.Nodup ∧ ∀ passed ∈ names, ∃ inner count use body last,
      engine.component? passed = some inner ∧ engine.Forwarded count inner use body last ∧ count ≤ hops := by
  induction forwarded generalizing name with
  | template => exact ⟨[], rfl, List.nodup_nil, List.forall_mem_nil _⟩
  | @adapter hops target resolved forward inner use last body found further ih =>
    obtain ⟨names, length, distinct, counted⟩ := ih ((Engine.reached?_known found).imp_right And.right)
    have registered : engine.component? name = some (.adapter target forward) := known.resolve_right nofun
    refine ⟨name :: names, congrArg (· + 1) length, List.nodup_cons.2 ⟨fun again => ?_, distinct⟩,
      List.forall_mem_cons.2 ⟨⟨_, _, _, _, _, registered, .adapter found further, Nat.le_refl _⟩, fun passed mem => ?_⟩⟩
    · -- One that came up again would be as far away as this one, but all behind it are nearer.
      obtain ⟨_, count, _, _, _, same, forwarded, below⟩ := counted name again
      cases registered.symm.trans same
      have equal := forwarded.unique (.adapter found further)
      omega
    · obtain ⟨inner, count, use, body, last, same, forwarded, below⟩ := counted passed mem
      exact ⟨inner, count, use, body, last, same, forwarded, by omega⟩

theorem short (forwarded : engine.Forwarded hops component use body last) {name : String}
    (known : engine.component? name = some component ∨ ∃ body, component = .fragment body) :
    hops ≤ hopLimit engine := by
  obtain ⟨names, length, distinct, counted⟩ := forwarded.trail known
  have registered : names ⊆ engine.components.names := by
    intro passed mem
    obtain ⟨inner, _, _, _, _, same, _⟩ := counted passed mem
    exact Fields.mem_names_of_find? same
  have fewer := (List.subperm_of_subset distinct registered).length_le
  rw [length, Fields.names, List.length_map] at fewer
  exact Nat.le_succ_of_le fewer

/-- Enough hops lead to the template. -/
theorem run (forwarded : engine.Forwarded hops component use body last) {limit : Nat} (enough : hops ≤ limit)
    (below : Below engine) (session : Session engine) : ∃ after, after.stack = session.stack ∧
      definition below limit component use session = reported (Render.template below body last) after := by
  induction forwarded generalizing limit session with
  | template => exact ⟨session, rfl, by cases limit <;> rfl⟩
  | adapter found _ ih =>
    obtain ⟨fewer, rfl⟩ : ∃ fewer, limit = fewer + 1 := ⟨limit - 1, by omega⟩
    obtain ⟨middle, ran, kept⟩ := Gives.component? _ session
    rw [found] at ran
    obtain ⟨after, kept', leads⟩ := ih (Nat.le_of_succ_le_succ enough) middle
    exact ⟨after, kept'.trans kept, (bind_ok ran).trans leads⟩

end Forwarded
end Engine

namespace Render

section Settled
variable (scope : Scope) (left : Nat)

theorem source_steady (text : String) : (resultRules engine).Steady left (source (levels engine left) text scope)
    (source (levels engine left) text scope) := Rules.source (levels_agree (.refl engine) left) trivial scope

theorem slotContents_steady (slots : Fields String) : (resultRules engine).Steady left
    (slotContents (levels engine left) scope slots) (slotContents (levels engine left) scope slots) :=
  Rules.slotContents (levels_agree (.refl engine) left) scope fun _ _ => trivial

theorem fragment_steady (body : Template) : (resultRules engine).Steady left
    (fragment (levels engine left) body scope) (fragment (levels engine left) body scope) :=
  Rules.fragment (levels_agree (.refl engine) left) (fun _ _ => trivial) scope

theorem template_steady (body : Template) (use : Instance) : (resultRules engine).Steady left
    (template (levels engine left) body use) (template (levels engine left) body use) :=
  Rules.template (levels_agree (.refl engine) left) (fun _ _ => trivial) fun _ _ => trivial

end Settled

variable {stack : List String} (fits : stack.length ≤ engine.config.maxDepth)
include fits

theorem slotContents_settled (scope : Scope) (slots : Fields String) :
    (engine.settle stack fun below => slotContents below scope slots) = engine.filled scope stack slots := by
  induction slots with
  | nil => rfl
  | cons slot slots ih =>
    obtain ⟨name, text⟩ := slot
    have rest (content : String) : (engine.settle stack fun below => slotContents below scope slots >>= fun rest =>
        pure ((name, .safe content) :: rest)) = _ :=
      @settle_bind engine _ _ (fun below => slotContents below scope slots)
        (fun rest _ => pure ((name, .safe content) :: rest)) (fun left => slotContents_steady scope left slots)
        (fun _ left => (resultRules engine).pure left _) stack fits
    have whole := @settle_bind engine _ _ (fun below => source below text scope)
      (fun content below => slotContents below scope slots >>= fun rest => pure ((name, .safe content) :: rest))
      (fun left => source_steady scope left text)
      (fun content left => (resultRules engine).bind (slotContents_steady scope left slots) fun _ _ =>
        (resultRules engine).pure left _) stack fits
    simp only [rest, ih] at whole
    exact whole

theorem template_settled (body : Template) (use : Instance) :
    (engine.settle stack fun below => template below body use) =
      engine.filled (engine.globals.childWith use.props) stack use.slots >>= fun contents =>
        engine.printed (bindSlots (engine.globals.childWith use.props) contents) stack body := by
  have whole := @settle_bind engine _ _ (fun below => slotContents below (engine.globals.childWith use.props) use.slots)
    (fun contents below => fragment below body (bindSlots (engine.globals.childWith use.props) contents))
    (fun left => slotContents_steady _ left use.slots) (fun _ left => fragment_steady _ left body) stack fits
  rw [slotContents_settled fits] at whole
  exact whole

omit fits

/-- A use of a component that is a template in the end, and what comes of its slots. -/
structure Filling (engine : Engine) (stack : List String) (use : Use) where
  resolved : String
  definition : Component
  found : engine.reached? use.name = some (resolved, definition)
  hops : Nat
  body : Template
  last : Instance
  forwarded : engine.Forwarded hops definition ⟨resolved, use.props, use.slots⟩ body last
  room : stack.length < engine.config.maxDepth
  contents : Fields Value
  filled : engine.filled (engine.globals.childWith last.props) (title resolved :: stack) use.slots = .ok contents

namespace Filling
variable {stack : List String} {use : Use} (filling : Filling engine stack use)

/-- What the slots see. -/
def outside : Scope := engine.globals.childWith filling.last.props

/-- What the template sees. -/
def inside : Scope := bindSlots filling.outside filling.contents

def entered : List String := title filling.resolved :: stack

/-- Past its adapters the component is what its template prints. -/
theorem runs {text : String} (printed : engine.printed filling.inside filling.entered filling.body = .ok text)
    {left : Nat} {session : Session engine} (here : session.stack = filling.entered)
    (level : session.stack.length + left = engine.config.maxDepth) :
    (Render.definition (levels engine left) (hopLimit engine) filling.definition
      ⟨filling.resolved, use.props, use.slots⟩ session).1 = .ok (.ok text) := by
  have short := filling.forwarded.short ((Engine.reached?_known filling.found).imp_right And.right)
  obtain ⟨last, kept, leads⟩ := filling.forwarded.run short (levels engine left) session
  have given := (settled (fun below => Render.template below filling.body filling.last)
    (template_steady left filling.body filling.last) (kept ▸ level)).1
  have fits : filling.entered.length ≤ engine.config.maxDepth := by rw [← here]; omega
  rw [kept, here, template_settled fits, filling.forwarded.slots] at given
  change _ = engine.filled _ (title filling.resolved :: stack) use.slots >>= _ at given
  rw [filling.filled] at given
  rw [leads, reported_apply, given]
  exact congrArg handed printed

/-- The component prints what its template prints. -/
theorem prints {text : String} (printed : engine.printed filling.inside filling.entered filling.body = .ok text) :
    engine.settle stack use.on = .ok text := by
  have room := filling.room
  obtain ⟨left, height⟩ : ∃ left, engine.config.maxDepth - stack.length = left + 1 :=
    ⟨engine.config.maxDepth - stack.length - 1, by omega⟩
  obtain ⟨after, ran, kept⟩ := Gives.component? use.name { stack := stack : Session engine }
  rw [filling.found] at ran
  have kept : after.stack = stack := kept
  have enters := enter_room filling.resolved (show after.stack.length < engine.config.maxDepth by rw [kept]; exact room)
  have here : title filling.resolved :: after.stack = filling.entered := by rw [kept]; rfl
  have level : (title filling.resolved :: after.stack).length + left = engine.config.maxDepth := by
    rw [List.length_cons, kept]
    omega
  have inside : (Render.within filling.resolved ((levels engine (left + 1)).component filling.definition
      ⟨filling.resolved, use.props, use.slots⟩) after).1 = .ok (.ok text) := by
    rw [Render.within, bind_ok enters]
    exact filling.runs printed here level
  change (onStack use.on { stack := stack }).1 = _
  rw [onStack_apply]
  change (use.on (levels engine (engine.config.maxDepth - stack.length)) { stack := stack }).1 = _
  rw [height, Use.on, component, bind_ok ran]
  dsimp only
  rw [bind_ok (Prod.ext inside rfl)]
  rfl

include filling in
theorem resolves : Resolves engine use.name := by
  intro short unknown
  have found := filling.found
  rw [Engine.reached?, unknown] at found
  cases found

end Filling
end Render
end Stencil
