import Stencil.Proofs.StandaloneBody

/-! Inheritance from the outside. Of a template that extends a layout, the layout only gets
to see the sections, and of those only the ones that no template before it has defined. What
is printed is the outermost layout with these. -/

namespace Stencil
open Render Template

variable {engine other : Engine} {scope : Scope}

/-- What a template hands to the layout it extends. -/
structure Layer where
  parent : String
  parts : List Section

namespace Engine

def resolved (engine : Engine) (reference : String) : Except Halt String :=
  match engine.config.expand reference with
  | .plain => .ok reference
  | .expanded name => .ok name
  | .unknown short => .error (.failed (.aliasNotRegistered short))

/-- The name of the layout that the arguments of a directive lead to. -/
def layoutName (engine : Engine) (scope : Scope) (args : String) : Except Halt String :=
  engine.resolved (nameIn scope ((Argument.list args).headD ""))

/-- What a template prints when it is the last one entered. -/
def printed (engine : Engine) (scope : Scope) (stack : List String) (template : Template) : Except Halt String :=
  engine.settle stack fun below => fragment below template scope

def walked (engine : Engine) (scope : Scope) (body : List Node) (stack : List String) (sections : Sections) :
    Except Halt String :=
  engine.settle stack fun below => nodes below sections body scope

end Engine

/-- The way from a template to the outermost layout, after so many steps. -/
inductive Chain (engine : Engine) (scope : Scope) : Nat → Template → List Layer → Template → Prop
  | outermost {followed : Nat} {template : Template}
    (ends : extension? template.nodes = none ∨ 0 < followed ∧ engine.config.nestedExtends = false) :
    Chain engine scope followed template [] template
  | extending {followed : Nat} {template layout outer : Template} {args parent : String} {layers : List Layer}
    (extension : extension? template.nodes = some args)
    (counts : followed = 0 ∨ engine.config.nestedExtends = true)
    (named : engine.layoutName scope args = .ok parent) (found : engine.template? parent = some layout)
    (further : Chain engine scope (followed + 1) layout layers outer) :
    Chain engine scope followed template (⟨parent, template.parts⟩ :: layers) outer

namespace Render

/-- The stack and the sections with which the outermost layout is reached. -/
def gathered (engine : Engine) (scope : Scope) : List String → Sections → List Layer →
    Except Halt (List String × Sections)
  | stack, sections, [] => .ok (stack, sections)
  | stack, sections, layer :: layers =>
    match captured engine scope sections (layer.parts.map (stack, ·)) with
    | .error halt => .error halt
    | .ok sections =>
      if engine.config.maxDepth ≤ stack.length then
        .error (.failed (.recursionLimit engine.config.maxDepth (stack.reverse ++ [layer.parent])))
      else gathered engine scope (title layer.parent :: stack) sections layers

theorem resolveName_run (reference : String) (session : Session engine) :
    resolveName reference session = (engine.resolved reference, session) := by
  unfold resolveName Engine.resolved
  cases engine.config.expand reference <;> rfl

theorem walked_run (body : List Node) (sections : Sections) {left : Nat} {session : Session engine}
    (level : session.stack.length + left = engine.config.maxDepth) :
    (nodes (levels engine left) sections body scope session).1 =
      engine.walked scope body session.stack sections :=
  (settled (fun below => nodes below sections body scope)
    (Rules.nodes (levels_agree (.refl engine) left) sections body (fun _ _ => trivial) scope)
    level).1

theorem fetch_run {parent : String} {layout : Template} (found : engine.template? parent = some layout)
    {session : Session engine} (room : session.stack.length < engine.config.maxDepth) :
    ∃ entered, entered.stack = title parent :: session.stack ∧ ∀ {α : Type} (next : Option Template → Render engine α),
      (enter parent >>= fun _ => template? parent >>= next) session = next (some layout) entered := by
  have fetched := template?_fst parent (enter parent session).2
  rw [found] at fetched
  have kept := (template?_kept parent (enter parent session).2).1
  rw [enter_room parent room] at fetched kept
  refine ⟨_, kept, fun next => ?_⟩
  rw [bind_ok (enter_room parent room)]
  exact bind_ok (Prod.ext fetched rfl)

theorem layout_outermost {followed : Nat} {template : Template}
    (ends : extension? template.nodes = none ∨ 0 < followed ∧ engine.config.nestedExtends = false)
    (below : Below engine) (sections : Sections) :
    layout below followed sections template scope = nodes below sections template.nodes scope := by
  unfold layout
  split
  · rfl
  next args extension =>
    obtain ⟨later, off⟩ := ends.resolve_left (by simp [extension])
    simp [later, off]

theorem layout_extending {followed : Nat} {template : Template} {args : String}
    (extension : extension? template.nodes = some args)
    (counts : followed = 0 ∨ engine.config.nestedExtends = true) (below : Below engine) (sections : Sections) :
    layout below followed sections template scope = capture below scope sections template.nodes >>= fun inner =>
      nameArgument scope ((Argument.list args).headD "") >>= fun reference =>
        resolveName reference >>= fun parent => enter parent >>= fun _ => template? parent >>= fun
          | none => fail (.parentNotFound parent (title template.name))
          | some next => below.layout (followed + 1) inner next scope := by
  have follows : (0 < followed && !engine.config.nestedExtends) = false := by
    rcases counts with rfl | nested
    · rfl
    · rw [nested, Bool.not_true, Bool.and_false]
  unfold layout
  rw [extension]
  exact if_neg (Bool.eq_false_iff.1 follows)

theorem parent_run {args parent : String} (named : engine.layoutName scope args = .ok parent)
    (session : Session engine) :
    ∃ after, after.stack = session.stack ∧ ∀ {α : Type} (next : String → Render engine α),
      (nameArgument scope ((Argument.list args).headD "") >>= fun reference => resolveName reference >>= next) session =
        next parent after := by
  obtain ⟨after, run, kept⟩ := nameArgument_run scope ((Argument.list args).headD "") session
  have resolved : resolveName _ after = (.ok parent, after) :=
    (resolveName_run _ after).trans (congrArg (·, after) named)
  refine ⟨after, kept, fun next => ?_⟩
  rw [bind_ok run, bind_ok resolved]

/-- The outermost layout is printed with the sections gathered on the way to it. -/
theorem layout_run {followed : Nat} {template outer : Template} {layers : List Layer}
    (chain : Chain engine scope followed template layers outer) (sections : Sections) {left : Nat}
    {session : Session engine} (level : session.stack.length + left = engine.config.maxDepth) :
    (layout (levels engine left) followed sections template scope session).1 =
      (gathered engine scope session.stack sections layers).bind fun (last, sections) =>
        engine.walked scope outer.nodes last sections := by
  -- Every layout on the way takes a level, so the levels left have to stay general.
  induction chain generalizing sections left session with
  | @outermost _ template ends =>
    rw [layout_outermost ends]
    exact walked_run template.nodes sections level
  | @extending _ template _ _ _ parent _ extension counts named found _ ih =>
    obtain ⟨given, kept⟩ := capture_run scope template.nodes sections level
    rw [layout_extending extension counts, gathered]
    rcases ran : capture (levels engine left) scope sections template.nodes session with ⟨halt | inner, captured⟩
    · rw [ran] at given
      rw [bind_error ran, Template.parts, ← given]
      rfl
    · rw [ran] at given kept
      obtain ⟨resolved, still, resolve⟩ := parent_run named captured
      rw [bind_ok ran, resolve, Template.parts, ← given]
      rw [← kept, ← still] at level ⊢
      cases left with
      | zero =>
        have full : resolved.stack.length = engine.config.maxDepth := level
        rw [bind_error (enter_full parent full)]
        dsimp only
        rw [if_pos (Nat.le_of_eq full.symm)]
        rfl
      | succ fewer =>
        have room : resolved.stack.length < engine.config.maxDepth := by omega
        obtain ⟨entered, pushed, fetch⟩ := fetch_run found room
        rw [fetch]
        dsimp only
        rw [if_neg (Nat.not_le.2 room), ← pushed]
        exact ih inner (by rw [pushed, List.length_cons]; omega)

/-- The sections of the layers, each with the stack it is rendered on. -/
def placed : List String → List Layer → List (List String × Section)
  | _, [] => []
  | stack, layer :: layers => layer.parts.map (stack, ·) ++ placed (title layer.parent :: stack) layers

theorem captured_of_gathered {stack last : List String} {sections result : Sections} {layers : List Layer}
    (run : gathered engine scope stack sections layers = .ok (last, result)) :
    captured engine scope sections (placed stack layers) = .ok result := by
  induction layers generalizing stack sections with
  | nil =>
    cases run
    rfl
  | cons layer layers ih =>
    unfold gathered at run
    split at run
    next => cases run
    next inner front =>
      split at run
      · cases run
      · rw [placed, captured_append, front]
        exact ih run

theorem mem_placed {stack : List String} {layers : List Layer} (name : String) :
    (∃ entry ∈ placed stack layers, entry.2.name scope = name) ↔
      ∃ layer ∈ layers, ∃ part ∈ layer.parts, part.name scope = name := by
  induction layers generalizing stack with
  | nil => simp [placed]
  | cons layer layers ih =>
    simp only [placed, List.mem_append, List.mem_map, or_and_right, exists_or, ih, List.exists_mem_cons_iff]
    simp

/-- The layers without the sections that an earlier one hides, if these names are taken. -/
def visible (scope : Scope) : List String → List Layer → List Layer
  | _, [] => []
  | taken, layer :: layers =>
    ⟨layer.parent, firsts scope taken layer.parts⟩ ::
      visible scope (layer.parts.map (Section.name scope) ++ taken) layers

theorem gathered_visible {stack : List String} {sections : Sections} {taken : List String} (layers : List Layer)
    (covers : ∀ name, sections.contains name = true ↔ name ∈ taken) :
    gathered engine scope stack sections (visible scope taken layers) =
      gathered engine scope stack sections layers := by
  induction layers generalizing stack sections taken with
  | nil => rfl
  | cons layer layers ih =>
    rw [visible, gathered, gathered, captured_firsts scope stack layer.parts covers]
    split
    next => rfl
    next inner run =>
      split
      · rfl
      · apply ih
        intro name
        rw [contains_captured run, covers, List.mem_append, List.mem_map, or_comm]
        simp

/-- Whatever two engines differ in, these sections and this body come out the same. -/
structure Indifferent (engine other : Engine) (scope : Scope) (layers : List Layer) (body : List Node) : Prop where
  limit : other.config.maxDepth = engine.config.maxDepth
  parts : ∀ layer ∈ layers, ∀ part ∈ layer.parts, ∀ stack sections,
    part.text other scope stack sections = part.text engine scope stack sections
  body : ∀ stack sections, other.walked scope body stack sections = engine.walked scope body stack sections

theorem parts_exchange {node node' : Node} (other : node.section? = none) (other' : node'.section? = none)
    (before after : List Node) :
    (before ++ node' :: after).filterMap Node.section? = (before ++ node :: after).filterMap Node.section? := by
  rw [List.filterMap_append, List.filterMap_append, List.filterMap_cons_none other, List.filterMap_cons_none other']

theorem extension?_exchange {node node' : Node} {before : List Node}
    (unseen : extension? before ≠ none ∨ extension? [node] = none ∧ extension? [node'] = none) (after : List Node) :
    extension? (before ++ node' :: after) = extension? (before ++ node :: after) := by
  have cut (node : Node) : extension? (before ++ node :: after) =
      (extension? before).or ((extension? [node]).or (extension? after)) := by
    rw [extension?, List.findSome?_append, ← List.singleton_append, List.findSome?_append]
    rfl
  rw [cut, cut]
  rcases unseen with seen | ⟨none, none'⟩
  · obtain ⟨args, found⟩ := Option.ne_none_iff_exists'.1 seen
    rw [found, Option.some_or, Option.some_or]
  · rw [none, none']

theorem extension?_section {node : Node} {part : Section} (found : node.section? = some part) :
    extension? [node] = none := by
  cases node with
  | sectionBlock => rfl
  | sectionInline => rfl
  | _ => cases found

theorem firsts_exchange {part part' : Section} (same : part'.name scope = part.name scope)
    {taken : List String} {before : List Section}
    (hidden : part.name scope ∈ taken ∨ ∃ earlier ∈ before, earlier.name scope = part.name scope)
    (after : List Section) :
    firsts scope taken (before ++ part' :: after) = firsts scope taken (before ++ part :: after) := by
  induction before generalizing taken with
  | nil =>
    have hidden := hidden.resolve_right (by simp)
    rw [List.nil_append, List.nil_append, firsts, firsts, same, if_pos hidden, if_pos hidden]
  | cons head before ih =>
    rw [List.cons_append, List.cons_append, firsts, firsts]
    split
    next there =>
      apply ih
      rcases hidden with taken | ⟨earlier, inside, equal⟩
      · exact .inl taken
      · rcases List.mem_cons.1 inside with rfl | inside
        · exact .inl (equal ▸ there)
        · exact .inr ⟨earlier, inside, equal⟩
    next =>
      congr 1
      apply ih
      rcases hidden with taken | ⟨earlier, inside, equal⟩
      · exact .inl (List.mem_cons_of_mem _ taken)
      · rcases List.mem_cons.1 inside with rfl | inside
        · exact .inl (equal ▸ List.mem_cons_self)
        · exact .inr ⟨earlier, inside, equal⟩

theorem Indifferent.refl (layers : List Layer) (body : List Node) : Indifferent engine engine scope layers body where
  limit := rfl
  parts _ _ _ _ _ _ := rfl
  body _ _ := rfl

theorem Indifferent.of_standsAlone (config : other.config = engine.config) {layers : List Layer} {body : List Node}
    (parts : ∀ layer ∈ layers, ∀ part ∈ layer.parts, part.standsAlone = true)
    (alone : Node.allStandAlone body = true) : Indifferent engine other scope layers body where
  limit := by rw [config]
  parts layer inside part present stack sections :=
    Section.text_alike config (parts layer inside part present) scope stack sections
  body _ sections := Alike.nodes config sections body alone scope _ _

theorem captured_congr {entries : List (List String × Section)} (sections : Sections)
    (same : ∀ entry ∈ entries, ∀ sections, entry.2.text other scope entry.1 sections =
      entry.2.text engine scope entry.1 sections) :
    captured other scope sections entries = captured engine scope sections entries := by
  induction entries generalizing sections with
  | nil => rfl
  | cons entry entries ih =>
    obtain ⟨stack, part⟩ := entry
    obtain ⟨here, later⟩ := List.forall_mem_cons.1 same
    have printed : part.text other scope stack sections = part.text engine scope stack sections := here sections
    rw [captured, captured, printed]
    split
    · exact ih sections later
    · split
      · exact ih _ later
      · rfl

theorem Indifferent.gathered {layers : List Layer} {body : List Node}
    (indifferent : Indifferent engine other scope layers body) (stack : List String) (sections : Sections) :
    gathered other scope stack sections layers = gathered engine scope stack sections layers := by
  have limit := indifferent.limit
  have parts := indifferent.parts
  clear indifferent
  induction layers generalizing stack sections with
  | nil => rfl
  | cons layer layers ih =>
    obtain ⟨here, later⟩ := List.forall_mem_cons.1 parts
    have front : captured other scope sections (layer.parts.map (stack, ·)) =
        captured engine scope sections (layer.parts.map (stack, ·)) := by
      apply captured_congr
      intro entry inside sections
      obtain ⟨part, present, rfl⟩ := List.mem_map.1 inside
      exact here part present stack sections
    rw [Render.gathered, Render.gathered, front, limit]
    split
    · rfl
    · split
      · rfl
      · exact ih _ _ later

end Render

namespace Engine

theorem printed_eq {template outer : Template} {layers : List Layer} (chain : Chain engine scope 0 template layers outer)
    {stack : List String} (room : stack.length ≤ engine.config.maxDepth) :
    engine.printed scope stack template =
      (gathered engine scope stack [] layers).bind fun (last, sections) =>
        engine.walked scope outer.nodes last sections := by
  have level : stack.length + (engine.config.maxDepth - stack.length) = engine.config.maxDepth := by omega
  exact layout_run chain [] level

theorem fragment_run (template : Template) {left : Nat} {session : Session engine}
    (level : session.stack.length + left = engine.config.maxDepth) :
    (fragment (levels engine left) template scope session).1 = engine.printed scope session.stack template :=
  (settled (fun below => fragment below template scope)
    (Rules.fragment (levels_agree (.refl engine) left) (fun _ _ => trivial) scope) level).1

theorem renderInline_fst (source : String) (data : Value) (evaluator : Evaluator) :
    (engine.renderInline source data evaluator).1 =
      engine.printed (engine.dataScope data) [] (Template.parse "" source) := by
  have level : ({ evaluator } : Session engine).stack.length + engine.config.maxDepth = engine.config.maxDepth :=
    Nat.zero_add _
  exact fragment_run (Template.parse "" source) level

/-- What is taken for the name of a template is rendered as one. -/
theorem render_entering {name : String} {evaluator : Evaluator}
    (isNamed : engine.isNamed name { evaluator } = (.ok true, { evaluator }))
    (plain : engine.config.expand name = .plain) {template : Template} (found : engine.template? name = some template)
    (data : Value) : ∃ session : Session engine, session.stack = [] ∧ (engine.render name data evaluator).1 =
      (entering (levels engine engine.config.maxDepth) template (engine.dataScope data) session).1 := by
  have resolved : resolveName name { evaluator } = (.ok name, ({ evaluator } : Session engine)) := by
    rw [resolveName_run, Engine.resolved, plain]
  have fetched := template?_fst name { evaluator : Session engine }
  rw [found] at fetched
  refine ⟨(Render.template? name { evaluator }).2, (template?_kept name { evaluator }).1, ?_⟩
  change (engine.rendering name data { evaluator }).1 = _
  unfold rendering
  rw [bind_ok isNamed, if_pos rfl, onStack_apply]
  unfold named
  rw [bind_ok resolved, bind_ok (Prod.ext fetched rfl)]
  rfl

/-- The template is the only one on the stack. -/
theorem entering_fst {template : Template} {fewer : Nat} (room : engine.config.maxDepth = fewer + 1)
    {session : Session engine} (empty : session.stack = []) (scope : Scope) :
    (entering (levels engine (fewer + 1)) template scope session).1 =
      engine.printed scope [title template.name] template := by
  have entered : session.stack.length < engine.config.maxDepth := by
    rw [empty, room]
    exact Nat.succ_pos fewer
  change ((enter template.name >>= fun _ => _) _).1 = _
  rw [bind_ok (enter_room template.name entered), ← empty]
  exact fragment_run template (by rw [List.length_cons, empty, room]; exact Nat.add_comm 1 fewer)

theorem render_fst {name : String} (isName : Template.isName name = true)
    (plain : engine.config.expand name = .plain) {template : Template} (found : engine.template? name = some template)
    (room : 0 < engine.config.maxDepth) (data : Value) (evaluator : Evaluator) :
    (engine.render name data evaluator).1 =
      engine.printed (engine.dataScope data) [title template.name] template := by
  have isNamed : engine.isNamed name { evaluator } = (.ok true, { evaluator }) := by
    unfold Engine.isNamed
    rw [isName, Bool.or_true, if_pos rfl]
    rfl
  obtain ⟨session, empty, rendered⟩ := render_entering isNamed plain found data
  obtain ⟨fewer, depth⟩ : ∃ fewer, engine.config.maxDepth = fewer + 1 := ⟨_, (Nat.succ_pred_eq_of_pos room).symm⟩
  rw [rendered, depth, entering_fst depth empty]

/-- Two templates print the same if all that is visible of the ways to their layouts is. -/
theorem printed_congr {template template' outer outer' : Template} {layers layers' : List Layer}
    (chain : Chain engine scope 0 template layers outer) (chain' : Chain other scope 0 template' layers' outer')
    (same : visible scope [] layers' = visible scope [] layers) (body : outer'.nodes = outer.nodes)
    (indifferent : Indifferent engine other scope (visible scope [] layers) outer.nodes) {stack : List String}
    (room : stack.length ≤ engine.config.maxDepth) :
    other.printed scope stack template' = engine.printed scope stack template := by
  have room' : stack.length ≤ other.config.maxDepth := by
    rw [indifferent.limit]
    exact room
  have covers (name : String) : Fields.contains ([] : Sections) name = true ↔ name ∈ [] := by
    simp [Fields.contains, Fields.find?]
  have layered : gathered other scope stack [] layers' = gathered engine scope stack [] layers :=
    calc gathered other scope stack [] layers'
      _ = gathered other scope stack [] (visible scope [] layers') := (gathered_visible layers' covers).symm
      _ = gathered other scope stack [] (visible scope [] layers) := by rw [same]
      _ = gathered engine scope stack [] (visible scope [] layers) := indifferent.gathered stack []
      _ = gathered engine scope stack [] layers := gathered_visible layers covers
  rw [printed_eq chain room, printed_eq chain' room', layered, body]
  simp only [indifferent.body]

/-- Of the nodes of a template that extends a layout, only what they extend and their visible
sections matter. -/
theorem printed_exchange {template outer : Template} {layers : List Layer}
    (chain : Chain engine scope 0 template layers outer) {stack : List String}
    (room : stack.length ≤ engine.config.maxDepth) (extending : extension? template.nodes ≠ none) {body : List Node}
    (extension : extension? body = extension? template.nodes)
    (names : (body.filterMap Node.section?).map (Section.name scope) = template.parts.map (Section.name scope))
    (shown : firsts scope [] (body.filterMap Node.section?) = firsts scope [] template.parts) :
    engine.printed scope stack { template with nodes := body } = engine.printed scope stack template := by
  cases chain with
  | outermost ends =>
    rcases ends with none | ⟨impossible, _⟩
    · exact absurd none extending
    · exact absurd impossible (Nat.lt_irrefl 0)
  | @extending _ template layout outer args parent layers reached counts named found further =>
    have chain' : Chain engine scope 0 { template with nodes := body }
        (⟨parent, body.filterMap Node.section?⟩ :: layers) outer :=
      .extending (extension.trans reached) counts named found further
    refine printed_congr (.extending reached counts named found further) chain' ?_ rfl (.refl _ _) room
    rw [visible, visible, names, shown]

/-- Of all the templates up to the outermost layout, only the first section of each name
matters, and it stands for its name wherever a layout asks for it. -/
structure Inherits (engine : Engine) (scope : Scope) (stack : List String) (template : Template) (layers : List Layer)
    (outer : Template) : Prop where
  printed : engine.printed scope stack template =
    (gathered engine scope stack [] layers).bind fun (last, sections) =>
      engine.walked scope outer.nodes last sections
  names : ∀ last sections, gathered engine scope stack [] layers = .ok (last, sections) → ∀ name,
    sections.contains name = true ↔ ∃ layer ∈ layers, ∃ part ∈ layer.parts, part.name scope = name
  first : ∀ last sections, gathered engine scope stack [] layers = .ok (last, sections) →
    ∀ before place part after, placed stack layers = before ++ (place, part) :: after →
      (∀ entry ∈ before, entry.2.name scope ≠ part.name scope) →
      ∃ earlier text, captured engine scope [] before = .ok earlier ∧
        part.text engine scope place earlier = .ok text ∧ sections.find? (part.name scope) = some text
  short : engine.config.nestedExtends = false → layers.length ≤ 1
  unchanged : ∀ other template' layers' outer', Chain other scope 0 template' layers' outer' →
    visible scope [] layers' = visible scope [] layers → outer'.nodes = outer.nodes →
    Indifferent engine other scope (visible scope [] layers) outer.nodes →
    other.printed scope stack template' = engine.printed scope stack template
  blanked : ∀ before node after span text, template.nodes = before ++ node :: after →
    extension? template.nodes ≠ none → node.section? = none → extension? before ≠ none ∨ extension? [node] = none →
    engine.printed scope stack { template with nodes := before ++ .text span text :: after } =
      engine.printed scope stack template
  shadowed : ∀ before node node' after part part', template.nodes = before ++ node :: after →
    extension? template.nodes ≠ none → node.section? = some part → node'.section? = some part' →
    part'.name scope = part.name scope → (∃ earlier ∈ before.filterMap Node.section?,
      earlier.name scope = part.name scope) →
    engine.printed scope stack { template with nodes := before ++ node' :: after } =
      engine.printed scope stack template

theorem inherits_of_chain {template outer : Template} {layers : List Layer}
    (chain : Chain engine scope 0 template layers outer) {stack : List String}
    (room : stack.length ≤ engine.config.maxDepth) : Inherits engine scope stack template layers outer where
  printed := printed_eq chain room
  names := by
    intro last sections run name
    rw [contains_captured (captured_of_gathered run), mem_placed]
    simp [Fields.contains, Fields.find?]
  first := by
    intro last sections run before place part after split first
    have whole := captured_of_gathered run
    rw [split] at whole
    exact captured_first whole rfl first
  short := by
    intro off
    cases chain with
    | outermost => exact Nat.zero_le 1
    | extending _ _ _ _ further =>
      cases further with
      | outermost => exact Nat.le_refl 1
      | extending _ counts => simp [off] at counts
  unchanged := fun other template' layers' outer' chain' same body indifferent =>
    printed_congr chain chain' same body indifferent room
  blanked := by
    intro before node after span text split extending other unseen
    have parts : (before ++ .text span text :: after).filterMap Node.section? = template.parts := by
      rw [Template.parts, split]
      exact parts_exchange other rfl before after
    refine printed_exchange chain room extending ?_ (by rw [parts]) (by rw [parts])
    rw [split]
    exact extension?_exchange (unseen.imp_right fun unseen => ⟨unseen, rfl⟩) after
  shadowed := by
    intro before node node' after part part' split extending isPart isPart' same hidden
    have unseen : extension? [node] = none ∧ extension? [node'] = none :=
      ⟨extension?_section isPart, extension?_section isPart'⟩
    refine printed_exchange chain room extending ?_ ?_ ?_
    · rw [split]
      exact extension?_exchange (.inr unseen) after
    all_goals
      rw [Template.parts, split, List.filterMap_append, List.filterMap_append, List.filterMap_cons_some isPart,
        List.filterMap_cons_some isPart']
    · rw [List.map_append, List.map_append, List.map_cons, List.map_cons, same]
    · exact firsts_exchange same (.inr hidden) _

theorem layoutName_literal {args name : String} (single : Argument.list args = [args])
    (literal : nameIn scope args = name) (plain : engine.config.expand name = .plain) :
    engine.layoutName scope args = .ok name := by
  rw [layoutName, single, List.headD_cons, literal, resolved, plain]

end Engine

namespace Magazine

/-- A page of two sections, the second of which prints the layout of the page by itself. -/
def page : Template where
  name := "page"
  source := ""
  nodes := [.extension default "'mid'", .sectionBlock default "'a'" [.text default "A"],
    .sectionBlock default "'b'" [.inclusion default "'mid'"]]
  diagnostics := []

def middle (content : String) : Template where
  name := "mid"
  source := ""
  nodes := [.extension default "'base'", .sectionBlock default "'a'" [.text default content]]
  diagnostics := []

def base : Template where
  name := "base"
  source := ""
  nodes := [.yield default "'a'", .yield default "'b'"]
  diagnostics := []

def press (content : String) : Engine where
  templates := [("base", base), ("mid", middle content), ("page", page)]

def layers (front : Template) (content : String) : List Layer :=
  [⟨"mid", front.parts⟩, ⟨"base", (middle content).parts⟩]

theorem chain {front : Template} (extension : extension? front.nodes = some "'mid'") (content : String) :
    Chain (press content) scope 0 front (layers front content) base := by
  have toMiddle : (press content).layoutName scope "'mid'" = .ok "mid" :=
    Engine.layoutName_literal (by decide +kernel) rfl rfl
  have toBase : (press content).layoutName scope "'base'" = .ok "base" :=
    Engine.layoutName_literal (by decide +kernel) rfl rfl
  exact .extending extension (.inl rfl) toMiddle rfl (.extending rfl (.inr rfl) toBase rfl (.outermost (.inl rfl)))

theorem visible_layers {front : Template} (hides : "a" ∈ front.parts.map (Section.name scope)) (content : String) :
    visible scope [] (layers front content) = [⟨"mid", firsts scope [] front.parts⟩, ⟨"base", []⟩] := by
  have hidden : firsts scope (front.parts.map (Section.name scope)) (middle content).parts = [] := by
    have only : (middle content).parts = [.block "'a'" [.text default content]] := rfl
    have literal : nameIn scope "'a'" = "a" := rfl
    have named : Section.name scope (.block "'a'" [.text default content]) = "a" := literal
    rw [only, firsts, named, if_pos hides, firsts]
  rw [layers, visible, visible, visible, List.append_nil, hidden]

/-- A page with the first section only, and with text that nobody gets to see. -/
def flyer : Template where
  name := "flyer"
  source := ""
  nodes := [.text default "unseen", .extension default "'mid'", .sectionBlock default "'a'" [.text default "A"]]
  diagnostics := []

theorem flyer_inherits : Engine.Inherits (press "M") {} [] flyer (layers flyer "M") base ∧
    (press "N").printed {} [] flyer = (press "M").printed {} [] flyer := by
  have inherits : Engine.Inherits (press "M") {} [] flyer (layers flyer "M") base :=
    Engine.inherits_of_chain (chain rfl "M") (by decide)
  have same (content : String) : visible {} [] (layers flyer content) = [⟨"mid", flyer.parts⟩, ⟨"base", []⟩] :=
    visible_layers (List.mem_singleton.2 rfl) content
  refine ⟨inherits, inherits.unchanged (press "N") flyer _ base (chain rfl "N") ?_ rfl ?_⟩
  · rw [same, same]
  · rw [same]
    have alone : ∀ layer ∈ [(⟨"mid", flyer.parts⟩ : Layer), ⟨"base", []⟩], ∀ part ∈ layer.parts,
        part.standsAlone = true := by
      simp [flyer, parts, Node.section?, Section.standsAlone, Node.allStandAlone, Node.standsAlone]
    have config : (press "N").config = (press "M").config := rfl
    exact .of_standsAlone config alone (by decide)

/-- The page hides the section of its layout, but includes the layout as well, and there
the section shows. -/
theorem hidden_section_shows :
    Chain (press "M") {} 0 page (layers page "M") base ∧ Chain (press "N") {} 0 page (layers page "N") base ∧
      visible {} [] (layers page "N") = visible {} [] (layers page "M") ∧
      (press "M").printed {} ["page"] page = .ok "AM" ∧ (press "N").printed {} ["page"] page = .ok "AN" ∧
      ((press "M").render "page" .null .empty).1 = .ok "AM" ∧
      ((press "N").render "page" .null .empty).1 = .ok "AN" := by
  have hides : "a" ∈ page.parts.map (Section.name {}) := List.mem_cons_self
  refine ⟨chain rfl "M", chain rfl "N", ?_, by decide +kernel, by decide +kernel, by decide +kernel,
    by decide +kernel⟩
  rw [visible_layers hides, visible_layers hides]

end Magazine
end Stencil
