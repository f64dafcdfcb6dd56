import Stencil.Proofs.RenderResult

/-! Capturing as a function. What a rendering gives depends on the stack and on nothing else
of the session, so capturing the sections of a template is a function of the sections that
are there before. The sections that matter are those at the top, and of several with one name
the first. -/

namespace Stencil
open Render Template

variable {engine : Engine} {α : Type}

/-- What an action gives on a stack. -/
def Engine.settle (engine : Engine) (stack : List String) (action : Below engine → Render engine α) : Except Halt α :=
  (engine.run (fun session => onStack action { session with stack }) .empty).1

namespace Render

theorem settled {left : Nat} (action : Below engine → Render engine α)
    (steady : (resultRules engine).Steady left (action (levels engine left)) (action (levels engine left)))
    {session : Session engine} (level : session.stack.length + left = engine.config.maxDepth) :
    (action (levels engine left) session).1 = engine.settle session.stack action ∧
      (action (levels engine left) session).2.stack = session.stack := by
  have room : engine.config.maxDepth - session.stack.length = left := by omega
  refine ⟨?_, steady.1.restores session level⟩
  change _ = (onStack action { stack := session.stack }).1
  rw [onStack_apply, room]
  exact (steady.2 session { stack := session.stack } rfl level).1.symm

def nameIn (scope : Scope) (text : String) : String :=
  match Argument.stringLiteral? text.toList with
  | some name => String.ofList name
  | none => ((Evaluator.evaluate scope text .empty).1.nonemptyText?).getD (Text.trimmed text)

theorem nameArgument_run (scope : Scope) (text : String) (session : Session engine) :
    ∃ after, nameArgument scope text session = (.ok (nameIn scope text), after) ∧ after.stack = session.stack := by
  unfold nameArgument nameIn
  cases Argument.stringLiteral? text.toList with
  | some name => exact ⟨session, rfl, rfl⟩
  | none =>
    rw [(Settled.evaluate scope text).same .empty session.evaluator]
    exact ⟨_, rfl, rfl⟩

/-- The fields that an optional argument has. -/
def fieldsIn (scope : Scope) : Option String → Fields Value
  | some text => (Evaluator.argument scope text .empty).1.fields
  | none => []

/-- The texts of the slots under the names that they have. -/
def slotTextsIn (scope : Scope) (texts : Fields String) (slots : List Slot) : Fields String :=
  slots.foldl (fun texts slot => texts.insert (nameIn scope slot.args) slot.raw) texts

theorem fieldsArgument_run (scope : Scope) (text : Option String) (session : Session engine) :
    ∃ after, fieldsArgument scope text session = (.ok (fieldsIn scope text), after) ∧ after.stack = session.stack := by
  cases text with
  | none => exact ⟨session, rfl, rfl⟩
  | some text =>
    rw [fieldsIn, (Settled.argument scope text).same .empty session.evaluator]
    exact ⟨_, rfl, rfl⟩

theorem slotTexts_run (scope : Scope) (slots : List Slot) (texts : Fields String) (session : Session engine) :
    ∃ after, slotTexts scope texts slots session = (.ok (slotTextsIn scope texts slots), after) ∧
      after.stack = session.stack := by
  induction slots generalizing texts session with
  | nil => exact ⟨session, rfl, rfl⟩
  | cons slot slots ih =>
    obtain ⟨named, run, kept⟩ := nameArgument_run scope slot.args session
    obtain ⟨after, later, same⟩ := ih (texts.insert (nameIn scope slot.args) slot.raw) named
    exact ⟨after, (bind_ok run).trans later, same.trans kept⟩

end Render

/-- A section that stands at the top of a template. -/
inductive Section where
  | block (args : String) (body : List Node)
  | inline (args content : String)

namespace Section

def args : Section → String
  | .block args _ => args
  | .inline args _ => args

def name (scope : Scope) (part : Section) : String := nameIn scope part.args

def content (below : Below engine) (sections : Sections) (scope : Scope) : Section → Render engine String
  | .block _ body => nodes below sections body scope
  | .inline _ content => do return escaped (← argument scope content)

/-- What the section prints where these sections have been captured. -/
def text (engine : Engine) (scope : Scope) (stack : List String) (sections : Sections) (part : Section) :
    Except Halt String :=
  engine.settle stack fun below => part.content below sections scope

theorem content_settled (scope : Scope) (sections : Sections) (part : Section) {left : Nat}
    {session : Session engine} (level : session.stack.length + left = engine.config.maxDepth) :
    (part.content (levels engine left) sections scope session).1 = part.text engine scope session.stack sections ∧
      (part.content (levels engine left) sections scope session).2.stack = session.stack := by
  refine settled (fun below => part.content below sections scope) ?_ level
  cases part with
  | block _ body => exact Rules.nodes (levels_agree (.refl engine) left) sections body (fun _ _ => trivial) scope
  | inline _ content =>
    exact (resultRules engine).bind ((resultRules engine).argument scope content) fun value _ =>
      (resultRules engine).pure left (escaped value)

end Section

def Template.Node.section? : Node → Option Section
  | .sectionBlock _ args body => some (.block args body)
  | .sectionInline _ args content => some (.inline args content)
  | _ => none

def Template.parts (template : Template) : List Section := template.nodes.filterMap Node.section?

namespace Render

/-- Sections, each rendered on the stack beside it, put behind those that are captured already. -/
def captured (engine : Engine) (scope : Scope) : Sections → List (List String × Section) → Except Halt Sections
  | sections, [] => .ok sections
  | sections, (stack, part) :: parts =>
    if sections.contains (part.name scope) then captured engine scope sections parts
    else
      match part.text engine scope stack sections with
      | .ok text => captured engine scope (sections.insert (part.name scope) text) parts
      | .error halt => .error halt

theorem capture_other {node : Node} (other : node.section? = none) (below : Below engine) (scope : Scope)
    (sections : Sections) (rest : List Node) :
    capture below scope sections (node :: rest) = capture below scope sections rest := by
  cases node with
  | sectionBlock => cases other
  | sectionInline => cases other
  | _ => rfl

theorem capture_section {node : Node} {part : Section} (found : node.section? = some part) (below : Below engine)
    (scope : Scope) (sections : Sections) (rest : List Node) :
    capture below scope sections (node :: rest) = nameArgument scope part.args >>= fun name =>
      if sections.contains name then capture below scope sections rest
      else part.content below sections scope >>= fun text =>
        capture below scope (sections.insert name text) rest := by
  cases node with
  | sectionBlock => cases found; rfl
  | sectionInline =>
    cases found
    rw [capture]
    simp only [Section.content, bind_assoc, pure_bind]
    rfl
  | _ => cases found

theorem capture_run (scope : Scope) (body : List Node) (sections : Sections) {left : Nat} {session : Session engine}
    (level : session.stack.length + left = engine.config.maxDepth) :
    (capture (levels engine left) scope sections body session).1 =
        captured engine scope sections ((body.filterMap Node.section?).map (session.stack, ·)) ∧
      (capture (levels engine left) scope sections body session).2.stack = session.stack := by
  induction body generalizing sections session with
  | nil => exact ⟨rfl, rfl⟩
  | cons node rest ih =>
    cases found : node.section? with
    | none =>
      rw [capture_other found, List.filterMap_cons_none found]
      exact ih sections level
    | some part =>
      obtain ⟨named, run, kept⟩ := nameArgument_run scope part.args session
      rw [capture_section found, List.filterMap_cons_some found, bind_ok run, List.map_cons, captured, ← kept]
      rw [← kept] at level
      change ((if sections.contains (part.name scope) then _ else _ : Render engine Sections) named).1 = _ ∧
        ((if sections.contains (part.name scope) then _ else _ : Render engine Sections) named).2.stack = _
      by_cases taken : sections.contains (part.name scope)
      · rw [if_pos taken, if_pos taken]
        exact ih sections level
      · rw [if_neg taken, if_neg taken]
        have ⟨given, stays⟩ := part.content_settled scope sections level
        rcases ran : part.content (levels engine left) sections scope named with ⟨halt | text, after⟩
        · rw [ran] at given stays
          rw [bind_error ran, ← given]
          exact ⟨rfl, stays⟩
        · rw [ran] at given stays
          rw [bind_ok ran, ← given]
          rw [← stays] at level ⊢
          exact ih _ level

/-- Captured are exactly the names that were there before and those of the sections. -/
theorem contains_captured {scope : Scope} {sections result : Sections} {parts : List (List String × Section)}
    (run : captured engine scope sections parts = .ok result) (name : String) :
    result.contains name = true ↔ sections.contains name = true ∨ ∃ entry ∈ parts, entry.2.name scope = name := by
  induction parts generalizing sections with
  | nil =>
    cases run
    simp
  | cons entry parts ih =>
    obtain ⟨stack, part⟩ := entry
    unfold captured at run
    split at run
    next taken =>
      rw [ih run, List.exists_mem_cons_iff]
      constructor
      · rintro (before | later)
        · exact .inl before
        · exact .inr (.inr later)
      · rintro (before | rfl | later)
        · exact .inl before
        · exact .inl taken
        · exact .inr later
    next =>
      split at run
      next text _ =>
        rw [ih run, List.exists_mem_cons_iff, Fields.contains_insert, Bool.or_eq_true, decide_eq_true_eq]
        simp only [eq_comm, or_assoc, or_left_comm]
      next => cases run

theorem captured_append (scope : Scope) (sections : Sections) (before after : List (List String × Section)) :
    captured engine scope sections (before ++ after) =
      (captured engine scope sections before).bind fun middle => captured engine scope middle after := by
  induction before generalizing sections with
  | nil => rfl
  | cons entry before ih =>
    obtain ⟨stack, part⟩ := entry
    rw [List.cons_append, captured, captured]
    split
    · exact ih sections
    · split
      · exact ih _
      · rfl

theorem captured_kept {scope : Scope} {sections result : Sections} {parts : List (List String × Section)}
    (run : captured engine scope sections parts = .ok result) {name text : String}
    (found : sections.find? name = some text) : result.find? name = some text := by
  induction parts generalizing sections with
  | nil =>
    cases run
    exact found
  | cons entry parts ih =>
    obtain ⟨stack, part⟩ := entry
    unfold captured at run
    split at run
    next => exact ih run found
    next free =>
      split at run
      next =>
        refine ih run ?_
        rw [Fields.find?_insert, if_neg, found]
        rintro rfl
        exact free (by rw [Fields.contains, found]; rfl)
      next => cases run

/-- The first section of a name gives its content, printed with the sections before it. -/
theorem captured_first {scope : Scope} {sections result : Sections} {before after : List (List String × Section)}
    {stack : List String} {part : Section}
    (run : captured engine scope sections (before ++ (stack, part) :: after) = .ok result)
    (free : sections.contains (part.name scope) = false)
    (first : ∀ entry ∈ before, entry.2.name scope ≠ part.name scope) :
    ∃ earlier text, captured engine scope sections before = .ok earlier ∧
      part.text engine scope stack earlier = .ok text ∧ result.find? (part.name scope) = some text := by
  rw [captured_append] at run
  obtain ⟨earlier, front, rest⟩ : ∃ earlier, captured engine scope sections before = .ok earlier ∧
      captured engine scope earlier ((stack, part) :: after) = .ok result := by
    cases front : captured engine scope sections before with
    | ok earlier =>
      rw [front] at run
      exact ⟨earlier, rfl, run⟩
    | error halt =>
      rw [front] at run
      cases run
  have untaken : ¬ earlier.contains (part.name scope) = true := by
    rw [contains_captured front, free]
    rintro (impossible | ⟨entry, inside, same⟩)
    · cases impossible
    · exact first entry inside same
  rw [captured, if_neg untaken] at rest
  split at rest
  next text printed =>
    refine ⟨earlier, text, front, printed, captured_kept rest ?_⟩
    rw [Fields.find?_insert, if_pos rfl]
  next => cases rest

/-- The sections that no earlier one hides, if these names are taken. -/
def firsts (scope : Scope) : List String → List Section → List Section
  | _, [] => []
  | taken, part :: parts =>
    if part.name scope ∈ taken then firsts scope taken parts
    else part :: firsts scope (part.name scope :: taken) parts

theorem captured_firsts (scope : Scope) (stack : List String) (parts : List Section) {sections : Sections}
    {taken : List String} (covers : ∀ name, sections.contains name = true ↔ name ∈ taken) :
    captured engine scope sections ((firsts scope taken parts).map (stack, ·)) =
      captured engine scope sections (parts.map (stack, ·)) := by
  induction parts generalizing sections taken with
  | nil => rfl
  | cons part parts ih =>
    unfold firsts
    by_cases hidden : part.name scope ∈ taken
    · rw [if_pos hidden, List.map_cons, captured, if_pos ((covers _).2 hidden)]
      exact ih covers
    · have free := mt (covers _).1 hidden
      rw [if_neg hidden, List.map_cons, List.map_cons, captured, captured, if_neg free, if_neg free]
      split
      next text _ =>
        apply ih
        intro name
        rw [Fields.contains_insert, Bool.or_eq_true, decide_eq_true_eq, covers, List.mem_cons]
      next => rfl

end Render
end Stencil
