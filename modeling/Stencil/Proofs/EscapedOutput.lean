import Stencil.Proofs.HtmlEntities
import Stencil.Proofs.NodeSequence
import Stencil.Proofs.PrintedData
import Stencil.Proofs.SlotFilling

/-! Text on its way out. A value is escaped where it is printed, and from there on its text is handed on as it stands:
as the content of a section through the layouts, as the content of a slot through the component that has it, and as the
output of a component in the body of its caller. -/

namespace Stencil.Render
open Template

variable {engine : Engine} {scope : Scope} {sections : Sections}

/-- The section whose content a node prints if there is one. -/
def named? (scope : Scope) : Node → Option String
  | .yield _ args => some (nameIn scope ((Argument.list args).headD ""))
  | .sectionBlock _ args _ | .sectionInline _ args _ => some (nameIn scope args)
  | _ => none

/-- The ways to print a value escaped. -/
inductive Site (scope : Scope) (sections : Sections) where
  | echo (span : Text.Span) (expression : String)
  | yield (span : Text.Span) (args : String) (default : 1 < (Argument.list args).length)
    (free : sections.find? (nameIn scope ((Argument.list args).headD "")) = none)
  | inline (span : Text.Span) (args content : String) (free : sections.find? (nameIn scope args) = none)

namespace Site

def node : Site scope sections → Node
  | echo span expression => .echo span expression true
  | yield span args _ _ => .yield span args
  | inline span args content _ => .sectionInline span args content

def value : Site scope sections → Value
  | echo _ expression => scope.value expression
  | yield _ args _ _ => scope.argument (String.intercalate ", " (Argument.list args).tail)
  | inline _ _ content _ => scope.argument content

end Site

namespace Gives

theorem nameArgument (scope : Scope) (text : String) :
    Gives (Render.nameArgument scope text : Render engine String) (nameIn scope text) := nameArgument_run scope text

variable {below : Below engine}

theorem site (site : Site scope sections) : Gives (node below sections site.node scope) (escaped site.value) := by
  cases site with
  | echo span expression => exact (evaluate scope expression).bind (.pure _)
  | yield span args default free =>
    refine (nameArgument scope _).bind ?_
    rw [free]
    dsimp only
    rw [if_neg (Nat.not_le.2 default)]
    exact (argument scope _).bind (.pure _)
  | inline span args content free =>
    refine (nameArgument scope _).bind ?_
    rw [free]
    exact (argument scope content).bind (.pure _)

/-- The content of a section is printed as it stands. -/
theorem captured {node : Node} {name content : String} (names : named? scope node = some name)
    (found : sections.find? name = some content) : Gives (Render.node below sections node scope) content := by
  cases node with
  | yield | sectionBlock | sectionInline =>
    cases names
    refine (nameArgument scope _).bind ?_
    rw [found]
    exact .pure content
  | _ => cases names

/-- Text that is rendered is printed as it stands, with or without escaping. -/
theorem safe {expression content : String} (value : scope.value expression = .safe content) (span : Text.Span)
    (escape : Bool) : Gives (node below sections (.echo span expression escape) scope) content := by
  have printed := @Gives.echo engine below scope sections span expression escape
  rw [value] at printed
  cases escape <;> exact printed

end Gives

theorem escaped_unsafe {value : Value} (plain : value.isSafe = false) :
    Html.Inert (escaped value) ∧ Html.decode (escaped value) = value.display := by
  rw [escaped, plain]
  exact ⟨Html.inert_escape _, Html.decode_escape _⟩

/-- The variable that a slot is bound to, and that none of the slots behind it takes over. -/
structure Binds (name bound : String) (later : Fields String) : Prop where
  among : bound ∈ boundNames name
  apart : bound ≠ "slots"
  kept : ∀ other ∈ later.names, bound ∉ boundNames other

def bindSlot (scope : Scope) (slot : String × Value) : Scope :=
  if slot.1 = defaultSlotName then (scope.insert "slot" slot.2).insert "content" slot.2 else scope.insert slot.1 slot.2

theorem bindSlot_other {scope : Scope} {slot : String × Value} {bound : String} (other : bound ∉ boundNames slot.1) :
    (bindSlot scope slot).get? bound = scope.get? bound := by
  unfold boundNames at other
  unfold bindSlot
  split at other
  next unnamed =>
    simp only [List.mem_cons, List.not_mem_nil, or_false, not_or] at other
    rw [if_pos unnamed, Scope.get?_insert, if_neg other.2, Scope.get?_insert, if_neg other.1]
  next named => rw [if_neg named, Scope.get?_insert, if_neg (by simpa using other)]

theorem get?_bindSlots (scope : Scope) {ahead behind : Fields Value} {name bound : String} {later : Fields String}
    (binds : Binds name bound later) (names : behind.names = later.names) (value : Value) :
    (bindSlots scope (ahead ++ (name, value) :: behind)).get? bound = some value := by
  have here (scope : Scope) : (bindSlot scope (name, value)).get? bound = some value := by
    have among := binds.among
    unfold boundNames at among
    unfold bindSlot
    split at among
    next unnamed =>
      rw [if_pos unnamed, Scope.get?_insert, Scope.get?_insert]
      simp only [List.mem_cons, List.not_mem_nil, or_false] at among
      rcases among with rfl | rfl <;> rfl
    next other =>
      rw [if_neg other, Scope.get?_insert, if_pos (List.mem_singleton.1 among)]
  have kept : ∀ other ∈ behind.names, bound ∉ boundNames other := names ▸ binds.kept
  have later (scope : Scope) (held : scope.get? bound = some value) :
      (behind.foldl bindSlot scope).get? bound = some value := by
    clear names
    induction behind generalizing scope with
    | nil => exact held
    | cons slot behind ih =>
      obtain ⟨first, others⟩ := List.forall_mem_cons.1 kept
      rw [List.foldl_cons]
      refine ih others _ ?_
      rw [bindSlot_other first]
      exact held
  change ((_ : Scope).insert "slots" _).get? bound = _
  rw [Scope.get?_insert, if_neg binds.apart]
  change ((ahead ++ (name, value) :: behind).foldl bindSlot scope).get? bound = _
  rw [List.foldl_append, List.foldl_cons]
  exact later _ (here _)

theorem get?_of_filled {scope : Scope} {stack : List String} {slots : Fields String} {contents : Fields Value}
    (filled : engine.filled scope stack slots = .ok contents) {earlier later : Fields String}
    {name source bound : String} (split : slots = earlier ++ (name, source) :: later) (binds : Binds name bound later) :
    ∃ content, engine.printed scope stack (Template.parse "" source) = .ok content ∧
      (bindSlots scope contents).get? bound = some (.safe content) := by
  rw [split] at filled
  obtain ⟨content, ahead, behind, printed, contents, names⟩ := Engine.filled_append filled
  refine ⟨content, printed, ?_⟩
  rw [contents]
  exact get?_bindSlots _ binds names _

theorem Filling.binds {stack : List String} {use : Use} (filling : Filling engine stack use)
    {earlier later : Fields String} {name source bound : String}
    (slots : use.slots = earlier ++ (name, source) :: later) (binds : Binds name bound later) :
    ∃ content, engine.printed filling.outside filling.entered (Template.parse "" source) = .ok content ∧
      filling.inside.get? bound = some (.safe content) := get?_of_filled filling.filled slots binds

/-- What is rendered on a stack. -/
inductive Place where
  | body (scope : Scope) (sections : Sections) (nodes : List Node)
  | part (scope : Scope) (sections : Sections) (part : Section)
  | page (scope : Scope) (template : Template)

def Place.prints (engine : Engine) (stack : List String) : Place → Except Halt String
  | body scope sections nodes => engine.walked scope nodes stack sections
  | part scope sections shown => shown.text engine scope stack sections
  | page scope template => engine.printed scope stack template

/-- A text is printed by a node and stands at last between two others. On the way it may be the content of a section or
of a slot. -/
inductive Carries (engine : Engine) : List String → Place → String → String → String → Prop
  | node {stack : List String} {scope : Scope} {sections : Sections} {node : Node} {text : String}
    (gives : ∀ below : Below engine, Gives (Render.node below sections node scope) text) :
    Carries engine stack (.body scope sections [node]) "" text ""
  | beside {stack : List String} {scope : Scope} {sections : Sections} {front nodes back : List Node}
    {ahead before text behind rest : String}
    (first : engine.walked scope front stack sections = .ok ahead)
    (inside : Carries engine stack (.body scope sections nodes) before text behind)
    (last : engine.walked scope back stack sections = .ok rest) :
    Carries engine stack (.body scope sections (front ++ nodes ++ back)) (ahead ++ before) text (behind ++ rest)
  | block {stack : List String} {scope : Scope} {sections : Sections} {args : String} {nodes : List Node}
    {before text behind : String} (inside : Carries engine stack (.body scope sections nodes) before text behind) :
    Carries engine stack (.part scope sections (.block args nodes)) before text behind
  | inline {stack : List String} {scope : Scope} {sections : Sections} {args content : String} :
    Carries engine stack (.part scope sections (.inline args content)) "" (escaped (scope.argument content)) ""
  /-- The outermost layout is what a page prints. -/
  | page {stack last : List String} {scope : Scope} {template outer : Template} {layers : List Layer}
    {sections : Sections} {before text behind : String} (chain : Chain engine scope 0 template layers outer)
    (reached : gathered engine scope stack [] layers = .ok (last, sections))
    (inside : Carries engine last (.body scope sections outer.nodes) before text behind) :
    Carries engine stack (.page scope template) before text behind
  /-- A section that no earlier one hides carries its text to where the outermost layout has its content. -/
  | captured {stack last place : List String} {scope : Scope} {template outer : Template} {layers : List Layer}
    {sections sofar : Sections} {part : Section} {earlier later : List (List String × Section)}
    {front before text behind back content : String} (chain : Chain engine scope 0 template layers outer)
    (reached : gathered engine scope stack [] layers = .ok (last, sections))
    (split : placed stack layers = earlier ++ (place, part) :: later)
    (first : ∀ entry ∈ earlier, entry.2.name scope ≠ part.name scope)
    (ahead : Render.captured engine scope [] earlier = .ok sofar)
    (rendered : Carries engine place (.part scope sofar part) before text behind)
    (held : sections.find? (part.name scope) = some content)
    (shown : Carries engine last (.body scope sections outer.nodes) front content back) :
    Carries engine stack (.page scope template) (front ++ before) text (behind ++ back)
  /-- The output of a component stands where it is called. -/
  | component {stack : List String} {scope : Scope} {sections : Sections} {span : Text.Span}
    {args defaultSlot : String} {slots : List Slot} {before text behind : String}
    (filling : Filling engine stack (useIn scope args defaultSlot slots))
    (inside : Carries engine filling.entered (.page filling.inside filling.body) before text behind) :
    Carries engine stack (.body scope sections [.component span args defaultSlot slots]) before text behind
  /-- A slot carries its text to where the component has its content. -/
  | slot {stack : List String} {scope : Scope} {sections : Sections} {span : Text.Span}
    {args defaultSlot : String} {slots : List Slot} {earlier later : Fields String} {name source bound : String}
    {front before text behind back content : String}
    (filling : Filling engine stack (useIn scope args defaultSlot slots))
    (split : (useIn scope args defaultSlot slots).slots = earlier ++ (name, source) :: later)
    (binds : Binds name bound later)
    (rendered : Carries engine filling.entered (.page filling.outside (Template.parse "" source)) before text behind)
    (held : filling.inside.get? bound = some (.safe content))
    (shown : Carries engine filling.entered (.page filling.inside filling.body) front content back) :
    Carries engine stack (.body scope sections [.component span args defaultSlot slots]) (front ++ before) text
      (behind ++ back)

theorem gathered_fits {stack last : List String} {sofar result : Sections} {layers : List Layer}
    (reached : gathered engine scope stack sofar layers = .ok (last, result))
    (fits : stack.length ≤ engine.config.maxDepth) : last.length ≤ engine.config.maxDepth ∧
      ∀ entry ∈ placed stack layers, entry.1.length ≤ engine.config.maxDepth := by
  induction layers generalizing stack sofar with
  | nil =>
    cases reached
    exact ⟨fits, List.forall_mem_nil _⟩
  | cons layer layers ih =>
    unfold gathered at reached
    split at reached
    next => cases reached
    next inner _ =>
      split at reached
      next => cases reached
      next room =>
        obtain ⟨top, others⟩ := ih reached (Nat.not_le.1 room)
        refine ⟨top, List.forall_mem_append.2 ⟨fun entry mem => ?_, others⟩⟩
        obtain ⟨part, _, rfl⟩ := List.mem_map.1 mem
        exact fits

theorem settle_of_gives {α : Type} {stack : List String} {action : Below engine → Render engine α} {value : α}
    (gives : ∀ below, Gives (action below) value) : engine.settle stack action = .ok value := by
  obtain ⟨after, ran, -⟩ := gives (levels engine (engine.config.maxDepth - stack.length)) { stack := stack }
  change (onStack action { stack := stack }).1 = _
  rw [onStack_apply]
  exact congrArg Prod.fst ran

theorem walked_single {stack : List String} {node : Node} {text : String}
    (printed : (engine.settle stack fun below => Render.node below sections node scope) = .ok text) :
    engine.walked scope [node] stack sections = .ok text := by
  unfold Engine.walked
  simp only [nodes_single]
  exact printed

theorem prints_text {stack : List String} (span : Text.Span) (text : String) :
    engine.walked scope [.text span text] stack sections = .ok text :=
  walked_single (settle_of_gives fun _ => .pure text)

theorem inline_text (scope : Scope) (stack : List String) (sections : Sections) (args content : String) :
    (Section.inline args content).text engine scope stack sections = .ok (escaped (scope.argument content)) :=
  settle_of_gives fun _ => (Gives.argument scope content).bind (.pure _)

/-- A section that no earlier one hides has been rendered with the sections before it, and what it gave is its
content. -/
theorem content_kept {stack last place : List String} {layers : List Layer} {part : Section}
    {earlier later : List (List String × Section)}
    (reached : gathered engine scope stack [] layers = .ok (last, sections))
    (split : placed stack layers = earlier ++ (place, part) :: later)
    (first : ∀ entry ∈ earlier, entry.2.name scope ≠ part.name scope) :
    ∃ sofar content, captured engine scope [] earlier = .ok sofar ∧
      part.text engine scope place sofar = .ok content ∧ sections.find? (part.name scope) = some content := by
  have run := captured_of_gathered reached
  rw [split] at run
  exact captured_first run rfl first

theorem Filling.call {stack : List String} {span : Text.Span} {args defaultSlot : String} {slots : List Slot}
    (filling : Filling engine stack (useIn scope args defaultSlot slots)) {text : String}
    (printed : engine.printed filling.inside filling.entered filling.body = .ok text) :
    engine.walked scope [.component span args defaultSlot slots] stack sections = .ok text := by
  have fits : ({ stack := stack } : Session engine).stack.length ≤ engine.config.maxDepth := filling.room.le
  exact walked_single ((call_settled fits scope sections span args defaultSlot slots filling.resolves).trans
    (filling.prints printed))

/-- On the way to the page nothing becomes of the text. -/
theorem Carries.prints {stack : List String} {place : Place} {before text behind : String}
    (carries : Carries engine stack place before text behind) (fits : stack.length ≤ engine.config.maxDepth) :
    place.prints engine stack = .ok (before ++ text ++ behind) := by
  induction carries with
  | node gives =>
    rw [String.empty_append, String.append_empty]
    exact walked_single (settle_of_gives gives)
  | @beside _ _ _ _ _ _ _ before text behind _ first _ last ih =>
    have inside : engine.walked _ _ _ _ = .ok (before ++ text ++ behind) := ih fits
    change engine.walked _ (_ ++ _ ++ _) _ _ = _
    rw [walked_append fits, walked_append fits, first, inside, last]
    exact congrArg Except.ok (by simp only [String.append_assoc])
  | block _ ih => exact ih fits
  | @inline stack scope sections args content =>
    rw [String.empty_append, String.append_empty]
    exact inline_text scope stack sections args content
  | page chain reached _ ih =>
    change engine.printed _ _ _ = _
    rw [Engine.printed_eq chain fits, reached]
    exact ih (gathered_fits reached fits).1
  | @captured stack last place scope template outer layers sections sofar part earlier later front before text behind
      back content chain reached split first ahead _ held _ rendered shown =>
    obtain ⟨top, places⟩ := gathered_fits reached fits
    obtain ⟨sofar', content', ahead', given, kept⟩ := content_kept reached split first
    cases ahead.symm.trans ahead'
    cases held.symm.trans kept
    -- What the section has printed is what the layout shows between `front` and `back`.
    have same : part.text engine scope place sofar = .ok (before ++ text ++ behind) :=
      rendered (places _ (split ▸ List.mem_append_right _ List.mem_cons_self))
    cases given.symm.trans same
    change engine.printed _ _ _ = _
    rw [Engine.printed_eq chain fits, reached]
    refine (shown top).trans (congrArg Except.ok ?_)
    simp only [String.append_assoc]
  | component filling _ ih => exact filling.call (ih filling.room)
  | @slot _ _ _ _ _ _ _ _ _ _ _ _ front before text behind back content filling split binds _ held _ rendered shown =>
    have room : filling.entered.length ≤ engine.config.maxDepth := filling.room
    obtain ⟨content', given, kept⟩ := filling.binds split binds
    cases held.symm.trans kept
    have same : engine.printed _ _ _ = .ok (before ++ text ++ behind) := rendered room
    cases given.symm.trans same
    refine filling.call ((shown room).trans (congrArg Except.ok ?_))
    simp only [String.append_assoc]

/-- What is printed escaped is no markup, says what the value says, and gets to the page unchanged. -/
structure Delivers (engine : Engine) : Prop where
  /-- The five entities of what an echo, the default of a yield or an inline section prints decode to the value. -/
  inert : ∀ {scope sections} (site : Site scope sections), site.value.isSafe = false →
    ∃ text, (∀ below : Below engine, Gives (node below sections site.node scope) text) ∧ Html.Inert text ∧
      Html.decode text = site.value.display
  /-- And so do those of what an inline section has as its content. -/
  inline : ∀ scope stack sections args content, (scope.argument content).isSafe = false →
    ∃ text, (Section.inline args content).text engine scope stack sections = .ok text ∧ Html.Inert text ∧
      Html.decode text = (scope.argument content).display
  /-- However many layouts there are, the content of a section is what the first section of its name has printed, and
  each node that names the section prints just that. -/
  content : ∀ {scope template layers outer stack last sections earlier later place part},
    Chain engine scope 0 template layers outer → stack.length ≤ engine.config.maxDepth →
    gathered engine scope stack [] layers = .ok (last, sections) →
    placed stack layers = earlier ++ (place, part) :: later →
    (∀ entry ∈ earlier, entry.2.name scope ≠ part.name scope) →
    engine.printed scope stack template = engine.walked scope outer.nodes last sections ∧
    ∃ sofar content, captured engine scope [] earlier = .ok sofar ∧ part.text engine scope place sofar = .ok content ∧
      ∀ inner node, named? inner node = some (part.name scope) →
        ∀ below : Below engine, Gives (Render.node below sections node inner) content
  /-- However many adapters there are, the variable of a slot has what the slot has printed, and where that is the value
  of an expression an echo prints just that. -/
  slot : ∀ {stack use earlier later name source bound} (filling : Filling engine stack use),
    use.slots = earlier ++ (name, source) :: later → Binds name bound later →
    ∃ content, engine.printed filling.outside filling.entered (Template.parse "" source) = .ok content ∧
      filling.inside.get? bound = some (.safe content) ∧
      ∀ (inner : Scope) expression, inner.get? bound = filling.inside.get? bound →
        Expr.parse (Text.trimmed expression) = .ok (.variable bound) → ∀ sections span escape,
        ∀ below : Below engine, Gives (node below sections (.echo span expression escape) inner) content
  /-- A text that is on its way through layouts, slots and components is part of what the page prints. -/
  carried : ∀ {stack place before text behind}, Carries engine stack place before text behind →
    stack.length ≤ engine.config.maxDepth → place.prints engine stack = .ok (before ++ text ++ behind)
  /-- So it is when a template is rendered by its name. -/
  rendered : ∀ {name template data before text behind}, Template.isName name = true →
    engine.config.expand name = .plain → engine.template? name = some template → 0 < engine.config.maxDepth →
    Carries engine [title template.name] (.page (engine.dataScope data) template) before text behind →
    ∀ evaluator, (engine.render name data evaluator).1 = .ok (before ++ text ++ behind)

theorem output_is_delivered (engine : Engine) : Delivers engine where
  inert site plain := ⟨_, fun _ => .site site, escaped_unsafe plain⟩
  inline scope stack sections args content plain :=
    ⟨_, inline_text scope stack sections args content, escaped_unsafe plain⟩
  content chain fits reached split first := by
    obtain ⟨sofar, content, ahead, given, kept⟩ := content_kept reached split first
    refine ⟨by rw [Engine.printed_eq chain fits, reached]; rfl, sofar, content, ahead, given, ?_⟩
    exact fun inner node names below => .captured names kept
  slot filling split binds := by
    obtain ⟨content, printed, held⟩ := filling.binds split binds
    refine ⟨content, printed, held, fun inner expression same parsed sections span escape below => .safe ?_ span escape⟩
    rw [Scope.value_of_parse parsed, Expr.eval, same, held]
    rfl
  carried carries fits := carries.prints fits
  rendered isName plain found room carries evaluator := by
    rw [Engine.render_fst isName plain found room]
    exact carries.prints room

end Stencil.Render

namespace Stencil
open Render Template

namespace Postcard

def base : Template where
  name := "base"
  source := ""
  nodes := [.text default "<", .yield default "'a'", .text default ">"]
  diagnostics := []

def box : Template where
  name := "box"
  source := ""
  nodes := [.text default "[", .echo default "slot" true, .text default "]"]
  diagnostics := []

/-- A page whose only section has a box around a text. -/
def page : Template where
  name := "page"
  source := ""
  nodes := [.extension default "'base'", .sectionBlock default "'a'" [.component default "'box'" Engine.Box.inside []]]
  diagnostics := []

def stage : Engine where
  templates := [("base", base), ("page", page)]
  components := [("box", .fragment box)]
  globals := .root [("x", .string "<b>")]

section
variable (scope : Scope)

theorem literal_base : stage.layoutName scope "'base'" = .ok "base" :=
  Engine.layoutName_literal (by decide +kernel) rfl rfl

theorem chain : Chain stage scope 0 page [⟨"base", page.parts⟩] base :=
  .extending rfl (.inl rfl) (literal_base scope) rfl (.outermost (.inl rfl))

end

/-- What the slot sees. -/
def shared : Scope := stage.globals.childWith []

theorem inside_nodes : (Template.parse "" Engine.Box.inside).nodes = [.echo ⟨0, 7⟩ "x" true] :=
  congrArg Prod.fst Engine.Box.read_inside

theorem carries_slot (stack : List String) :
    Carries stage stack (.page shared (Template.parse "" Engine.Box.inside)) "" "&lt;b&gt;" "" := by
  have value : shared.value "x" = .string "<b>" := by
    rw [Scope.value_of_parse Engine.Box.parsed_x, Expr.eval]
    rfl
  have same : escaped (shared.value "x") = "&lt;b&gt;" := by
    rw [value]
    decide +kernel
  refine .page (.outermost (.inl (by rw [inside_nodes]; rfl))) rfl ?_
  rw [inside_nodes]
  refine .node fun below => ?_
  have printed := @Gives.site stage shared [] below (.echo ⟨0, 7⟩ "x")
  exact same ▸ printed

/-- The box with its slot. -/
def filling (scope : Scope) : Filling stage ["page"] (useIn scope "'box'" Engine.Box.inside []) where
  resolved := "box"
  definition := .fragment box
  found := by rw [Engine.Box.use_of_page]; rfl
  hops := 0
  body := box
  last := ⟨"box", [], [("default", Engine.Box.inside)]⟩
  forwarded := by rw [Engine.Box.use_of_page]; exact .template _ _
  room := by decide
  contents := [("default", .safe "&lt;b&gt;")]
  filled := by
    have printed : stage.printed shared ["box", "page"] _ = .ok ("" ++ "&lt;b&gt;" ++ "") :=
      (carries_slot _).prints (by decide)
    rw [String.empty_append, String.append_empty] at printed
    rw [Engine.Box.use_of_page]
    change stage.filled shared ["box", "page"] [("default", Engine.Box.inside)] = _
    rw [Engine.filled, printed]
    rfl

theorem carries_section (scope : Scope) :
    Carries stage ["page"] (.part scope [] (.block "'a'" [.component default "'box'" Engine.Box.inside []]))
      ("[" ++ "" ++ "") "&lt;b&gt;" ("" ++ ("" ++ "]")) := by
  have slots : (useIn scope "'box'" Engine.Box.inside []).slots = [] ++ ("default", Engine.Box.inside) :: [] := by
    rw [Engine.Box.use_of_page]
    rfl
  have held : (filling scope).inside.get? "slot" = some (.safe "&lt;b&gt;") := rfl
  have value : (filling scope).inside.value "slot" = .safe "&lt;b&gt;" := by
    rw [Scope.value_of_parse Engine.Box.parsed_slot, Expr.eval, held]
    rfl
  have shown : Carries stage ["box", "page"] (.page (filling scope).inside box) ("[" ++ "") "&lt;b&gt;" ("" ++ "]") :=
    .page (.outermost (.inl rfl)) rfl
      (.beside (prints_text default "[") (.node fun _ => .safe value default true) (prints_text default "]"))
  exact .block (.slot (filling scope) slots ⟨by decide, by decide, nofun⟩ (carries_slot _) held shown)

/-- What the box prints in the slot of the section stands between the brackets of the layout. -/
theorem page_is_delivered : Delivers stage ∧
    ∀ evaluator, (stage.render "page" .null evaluator).1 = .ok "<[&lt;b&gt;]>" := by
  let scope := stage.dataScope .null
  have content : (Section.block "'a'" [.component default "'box'" Engine.Box.inside []]).text stage scope ["page"] [] =
      .ok "[&lt;b&gt;]" := (carries_section scope).prints (by decide)
  have reached : gathered stage scope ["page"] [] [⟨"base", page.parts⟩] =
      .ok (["base", "page"], [("a", "[&lt;b&gt;]")]) := by
    have parts : page.parts = [.block "'a'" [.component default "'box'" Engine.Box.inside []]] := rfl
    rw [gathered, parts, List.map_singleton, captured, content]
    rfl
  have shown : Carries stage ["base", "page"] (.body scope [("a", "[&lt;b&gt;]")] base.nodes)
      ("<" ++ "") "[&lt;b&gt;]" ("" ++ ">") :=
    .beside (prints_text default "<") (.node fun _ => .captured rfl rfl) (prints_text default ">")
  have whole : Carries stage ["page"] (.page scope page) _ "&lt;b&gt;" _ :=
    .captured (chain scope) reached rfl (List.forall_mem_nil _) rfl (carries_section scope) rfl shown
  have delivers := output_is_delivered stage
  have isName : Template.isName "page" = true := by decide
  have found : stage.template? "page" = some page := rfl
  exact ⟨delivers, fun evaluator =>
    @Delivers.rendered stage delivers "page" page .null _ _ _ isName rfl found (by decide) whole evaluator⟩

end Postcard
end Stencil
