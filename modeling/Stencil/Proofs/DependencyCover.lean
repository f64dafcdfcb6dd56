import Mathlib
import Stencil.Proofs.DependencyReach
import Stencil.Proofs.RenderEnding
import Stencil.Proofs.TemplateReferences

/-! A rendering comes upon nothing that the graph of dependencies does not tell of. Every text that it
reads, or reads again, is that of a template that the walk has found, so each name that it asks for
belongs to a lookup that the walk has taken. What is registered under any other name makes no difference. -/

namespace Stencil.Dependencies
open Template Render

variable {engine : Engine} {root : String}

/-- The template is one of the engine's, or one of its components is made of it. -/
inductive Holds (engine : Engine) (template : Template) : Prop where
  | template {name : String} (found : engine.template? name = some template)
  | component {name : String} (found : engine.component? name = some (.fragment template))

/-- All references can be followed without rendering anything. -/
structure Followable (engine : Engine) : Prop where
  unaliased : engine.config.aliases = []
  hostless : Hostless engine
  parsed : ∀ template, Holds engine template → template.nodes = (read template.source).1
  literal : ∀ template, Holds engine template → Literal template.source

/-- A name that a template and a component go by stands for the same source, and the parts of no default slot make a
reference where they meet. -/
structure Unmixed (engine : Engine) : Prop where
  single : ∀ name first second, engine.component? name = some (.fragment first) →
    engine.template? name = some second → first.source = second.source
  unglued : ∀ template, Holds engine template → Unglued template.source

def Ends (engine : Engine) (root : String) : Prop :=
  ∃ last, Steps engine (.start root) last ∧ last.step? engine = none

theorem Ends.explored (ends : Ends engine root) : ∃ lookups, Explored engine root (graph engine root) lookups := by
  obtain ⟨last, steps, stops⟩ := ends
  have same : graph engine root = last.graph := congrArg Walk.graph (finish_eq steps stops)
  obtain ⟨taken, progress⟩ := Progress.run steps
  exact ⟨_, same ▸ progress.explored stops⟩

theorem mem_sources {lookups : List Lookup} {source : String × Template} (mem : source ∈ sources engine lookups) :
    ∃ lookup ∈ lookups, find engine lookup.1 lookup.2 = .source source.1 source.2 := by
  induction lookups using List.reverseRecOn with
  | nil => cases mem
  | append_singleton lookups lookup ih =>
    have before (mem : source ∈ sources engine lookups) : ∃ other ∈ lookups ++ [lookup],
        find engine other.1 other.2 = .source source.1 source.2 := by
      obtain ⟨other, there, found⟩ := ih mem
      exact ⟨other, List.mem_append_left _ there, found⟩
    cases found : source? engine lookup with
    | none => exact before (sources_silent found ▸ mem)
    | some here =>
      by_cases known : here.1 ∈ (sources engine lookups).map Prod.fst
      · exact before (sources_known found known ▸ mem)
      · rw [sources_new found known] at mem
        rcases List.mem_append.1 mem with earlier | last
        · exact before earlier
        · cases List.mem_singleton.1 last
          exact ⟨lookup, by simp, source?_eq_some.1 found⟩

section Names
variable (unaliased : engine.config.aliases = [])
include unaliased

theorem expand_unaliased (reference : String) :
    engine.config.expand reference = .plain ∨ ∃ short, engine.config.expand reference = .unknown short := by
  unfold Config.expand
  rw [unaliased]
  split
  · exact .inl rfl
  · split
    · exact .inl rfl
    · exact .inr ⟨_, rfl⟩

theorem expanded_unaliased (reference : String) : expanded engine reference = reference := by
  unfold expanded
  rcases expand_unaliased unaliased reference with same | ⟨short, same⟩ <;> rw [same]

theorem stands_unaliased {reference name : String} (stands : Stands engine reference name) : name = reference := by
  unfold Stands resolveName at stands
  rcases expand_unaliased unaliased reference with same | ⟨short, same⟩
  · rw [same] at stands
    exact stands.of_pure.symm
  · rw [same] at stands
    obtain ⟨session, impossible⟩ := stands
    cases impossible

end Names

/-- What is found in a component that is rendered. -/
def finding (resolved : String) : Component → Finding
  | .fragment template => .source resolved template
  | .function _ => .closed
  | .adapter target _ => .forward target

/-- What is found for a name that a rendering takes for this. -/
def Finding.ofReached : Option (String × Component) → Finding
  | some (resolved, component) => finding resolved component
  | none => .missing

theorem findComponent_eq (names : List String) : findComponent engine names = .ofReached (engine.firstComponent? names) := by
  induction names with
  | nil => rfl
  | cons name names ih =>
    rw [Engine.firstComponent?, findComponent]
    cases engine.component? name with
    | some component => cases component <;> rfl
    | none =>
      cases engine.template? name with
      | some template => rfl
      | none => exact ih

theorem find_of_reached? {reference resolved : String} {component : Component} (unaliased : engine.config.aliases = [])
    (found : engine.reached? reference = some (resolved, component)) :
    find engine reference .component = finding resolved component := by
  unfold Engine.reached? at found
  rcases expand_unaliased unaliased reference with same | ⟨short, same⟩
  · rw [same] at found
    exact (findComponent_eq _).trans (congrArg Finding.ofReached found)
  · rw [same] at found
    cases found

theorem find_template {name : String} {kind : ReferenceKind} {template : Template} (other : kind ≠ .component)
    (found : engine.template? name = some template) : find engine name kind = .source name template := by
  rw [find, if_neg other, found]

theorem find_missing {name : String} {kind : ReferenceKind} (other : kind ≠ .component)
    (missing : engine.template? name = none) : find engine name kind = .missing := by
  rw [find, if_neg other, missing]

theorem candidates_subset_spellings (name : String) : engine.config.candidates name ⊆ spellings engine name := by
  have asItStands : [name] ⊆ spellings engine name := by
    unfold spellings
    dsimp only
    split
    · exact List.Subset.refl _
    · split <;> simp
  unfold Config.candidates
  dsimp only
  split
  · exact asItStands
  next outside =>
    rw [Bool.or_eq_true, not_or] at outside
    unfold spellings
    dsimp only
    rw [if_neg outside.1]
    split
    next bare stripped =>
      have within : (engine.config.defaultNamespace ++ ".").toList <+: name.toList :=
        ⟨bare, (Text.stripPrefix?_eq_some.1 stripped).symm⟩
      exact absurd (String.startsWith_string_iff.2 within) outside.2
    next => exact List.Subset.refl _

theorem Explored.spelled {graph : Graph} {lookups : List Lookup} (explored : Explored engine root graph lookups)
    {reference : String} (reached : Reached engine graph.edges root (reference, .component)) :
    ∀ name ∈ spellings engine reference, name ∈ graph.components := by
  intro name spelled
  rw [explored.components]
  obtain ⟨count, path⟩ := reached
  cases path with
  | @onward count via _ path inside =>
    unfold ahead at inside
    split at inside
    next resolved template found =>
      obtain ⟨edge, mem, same⟩ := List.mem_map.1 inside
      obtain ⟨rfl, component⟩ := Prod.mk.inj same
      exact .inl ⟨edge, (List.mem_filter.1 mem).1, component, spelled⟩
    next target found =>
      cases List.mem_singleton.1 inside
      exact .inr ⟨via, reference, ⟨count, path⟩, found, spelled⟩
    next => cases inside

/-- The walk has found the template, whatever else it has found under the same name. -/
theorem Holds.of_source {lookup : Lookup} {resolved : String} {template : Template}
    (found : find engine lookup.1 lookup.2 = .source resolved template) : Holds engine template :=
  (find_source found).elim .component .template

theorem same_source (unmixed : Unmixed engine) {first second : Lookup} {resolved : String} {template template' : Template}
    (found : find engine first.1 first.2 = .source resolved template)
    (found' : find engine second.1 second.2 = .source resolved template') : template.source = template'.source := by
  rcases find_source found with component | registered <;> rcases find_source found' with component' | registered'
  · cases component.symm.trans component'
    rfl
  · exact unmixed.single resolved _ _ component registered'
  · exact (unmixed.single resolved _ _ component' registered).symm
  · cases registered.symm.trans registered'
    rfl

section Cover
variable {graph : Graph} {lookups : List Lookup} (followable : Followable engine) (unmixed : Unmixed engine)
  (explored : Explored engine root graph lookups)
include followable unmixed explored

/-- The references of every template that is found lie ahead of the lookup that finds it. -/
theorem reached_reference {lookup : Lookup} {resolved : String} {template : Template}
    (reached : Reached engine graph.edges root lookup)
    (found : find engine lookup.1 lookup.2 = .source resolved template) {kind : ReferenceKind} {target : String}
    (mem : (kind, target) ∈ references template.source) : Reached engine graph.edges root (target, kind) := by
  have known : resolved ∈ (sources engine lookups).map Prod.fst :=
    ((sources_names lookups).2 resolved).2 ⟨lookup, (explored.reached lookup).2 reached, template, found⟩
  obtain ⟨⟨name, searched⟩, there, same⟩ := List.mem_map.1 known
  obtain rfl : name = resolved := same
  obtain ⟨first, _, finds⟩ := mem_sources there
  rw [same_source unmixed found finds] at mem
  have edge : (⟨name, kind, target⟩ : Edge) ∈ edgesOf engine name searched := by
    refine List.mem_map.2 ⟨(kind, target), mem, ?_⟩
    dsimp only
    rw [expanded_unaliased followable.unaliased]
  have searched : (⟨name, kind, target⟩ : Edge) ∈ graph.edges := by
    rw [explored.edges]
    exact List.mem_flatMap.2 ⟨_, there, edge⟩
  apply reached.onward
  simp only [ahead, found]
  exact List.mem_map.2 ⟨_, List.mem_filter.2 ⟨searched, decide_eq_true rfl⟩, rfl⟩

/-- A text that is rendered: the source of a template that the walk has found, or what is read again of it. -/
inductive Covered (engine : Engine) (root : String) (graph : Graph) (text : String) : Prop where
  | intro {lookup : Lookup} {resolved : String} {template : Template}
      (reached : Reached engine graph.edges root lookup)
      (found : find engine lookup.1 lookup.2 = .source resolved template)
      (embedded : Relation.ReflTransGen Embeds template.source text)

theorem reached_of_use {text : String} (covered : Covered engine root graph text) {node : Node} {kind : ReferenceKind}
    {args reference : String} (inside : Inside (read text).1 node) (use : use? node = some (kind, args))
    (names : Render.Names engine args reference) : Reached engine graph.edges root (reference, kind) := by
  obtain ⟨reached, found, embedded⟩ := covered
  have held := Holds.of_source found
  obtain ⟨target, literally, mem⟩ :=
    reference_of_use (followable.literal _ held) (unmixed.unglued _ held) embedded inside use
  obtain ⟨scope, names⟩ := names
  unfold nameArgument at names
  rw [literally] at names
  cases names.of_pure
  exact reached_reference followable unmixed explored reached found mem

end Cover

/-- What a rendering comes upon: what the walk has found, and no template under the hidden name. -/
def cover (engine : Engine) (root : String) (graph : Graph) (hidden : String) : Realm where
  asked name := name ≠ hidden
  node node := ∃ text, Covered engine root graph text ∧ Inside (read text).1 node
  reference reference := Reached engine graph.edges root (reference, .component)
  definition component := Known engine component ∧ ∃ lookup resolved, Reached engine graph.edges root lookup ∧
    find engine lookup.1 lookup.2 = finding resolved component
  text := Covered engine root graph

/-- The graph does not tell of the name. -/
structure Hidden (graph : Graph) (name : String) : Prop where
  template : name ∉ graph.templates
  missing : name ∉ graph.missing
  component : name ∉ graph.components

section Cover
variable {graph : Graph} {lookups : List Lookup} {hidden : String} (followable : Followable engine)
  (explored : Explored engine root graph lookups) (unseen : Hidden graph hidden)
include followable

theorem covered_nodes {lookup : Lookup} {resolved : String} {template : Template}
    (reached : Reached engine graph.edges root lookup)
    (found : find engine lookup.1 lookup.2 = .source resolved template) :
    ∀ node ∈ template.nodes, (cover engine root graph hidden).node node := by
  intro node mem
  rw [followable.parsed _ (.of_source found)] at mem
  exact ⟨template.source, .intro reached found .refl, .here mem⟩

include explored unseen

/-- What is reached as a template is one of the graph's, or missing there. -/
theorem cover_opens {name : String} {kind : ReferenceKind} (template : kind ≠ .component)
    (reached : Reached engine graph.edges root (name, kind)) : (cover engine root graph hidden).Opens engine name := by
  constructor
  · rintro rfl
    cases found : engine.template? name with
    | some body => exact unseen.template ((explored.templates _).2 ⟨_, body, reached, find_template template found⟩)
    | none => exact unseen.missing ((explored.missing _).2 ⟨kind, reached, find_missing template found⟩)
  · intro body found
    exact covered_nodes followable reached (find_template template found)

theorem cover_closed (unmixed : Unmixed engine) : (cover engine root graph hidden).Closed engine where
  children := by
    rintro outer ⟨text, covered, inside⟩ inner mem
    exact ⟨text, covered, inside.child mem⟩
  inclusion := by
    rintro span args ⟨text, covered, inside⟩ reference name names stands
    cases stands_unaliased followable.unaliased stands
    exact cover_opens followable explored unseen (by decide)
      (reached_of_use followable unmixed explored covered inside rfl names)
  extension := by
    rintro span args ⟨text, covered, inside⟩ reference name names stands
    cases stands_unaliased followable.unaliased stands
    exact cover_opens followable explored unseen (by decide)
      (reached_of_use followable unmixed explored covered inside rfl names)
  call := by
    rintro span args defaultSlot slots ⟨text, covered, inside⟩
    have embedded {piece : String} (embeds : Embeds text piece) : Covered engine root graph piece := by
      obtain ⟨reached, found, before⟩ := covered
      exact .intro reached found (before.tail embeds)
    exact ⟨reached_of_use followable unmixed explored covered inside rfl, embedded (.default inside),
      fun slot mem => embedded (.slot inside mem)⟩
  candidates := by
    rintro reference name reached stands _ mem rfl
    cases stands_unaliased followable.unaliased stands
    exact unseen.component (explored.spelled reached _ (candidates_subset_spellings _ mem))
  known within := within.1
  found reached returns :=
    ⟨known_of_component? returns, _, _, reached, find_of_reached? followable.unaliased returns.component?.symm⟩
  fragment := by
    rintro body ⟨_, lookup, resolved, reached, found⟩
    exact covered_nodes followable reached found
  adapter := by
    rintro target forward ⟨_, lookup, resolved, reached, found⟩
    apply reached.onward
    simp [ahead, found, finding]
  host within := absurd within.1 followable.hostless.not_known
  text covered node mem := ⟨_, covered, .here mem⟩

end Cover

theorem isNamed_of_found (found : (engine.template? root).isSome) {named : Bool}
    (returns : Returns (engine.isNamed root) named) : named = true := by
  unfold Engine.isNamed at returns
  split at returns
  · exact returns.of_pure.symm
  · obtain ⟨template, fetched, returns⟩ := returns.of_bind
    rw [← returns.of_pure, ← fetched.template?]
    exact found

/-- Engines that differ in the template of the hidden name alone render the root alike. -/
theorem render_covered {other : Engine} {graph : Graph} {lookups : List Lookup} {hidden : String}
    (followable : Followable engine) (unmixed : Unmixed engine) (explored : Explored engine root graph lookups)
    (unseen : Hidden graph hidden) (found : (engine.template? root).isSome)
    (alike : engine.Alike other (cover engine root graph hidden)) : other.render root = engine.render root := by
  have closed := cover_closed followable explored unseen unmixed
  have opens : (cover engine root graph hidden).Opens engine root :=
    cover_opens followable explored unseen (by decide) ⟨0, .start⟩
  funext data evaluator
  have steady : (alikeRules alike closed).Steady engine.config.maxDepth (engine.rendering root data)
      (other.rendering root data) := by
    simp only [Engine.rendering, alike.dataScope]
    apply (alikeRules alike closed).bind ((alikeRules alike closed).isNamed opens.1)
    intro named returned
    rw [isNamed_of_found found returned, if_pos rfl, if_pos rfl]
    apply onStack_alike alike closed
    intro left first second below
    apply Rules.named below
    intro name stands
    rw [stands_unaliased followable.unaliased stands]
    exact opens
  obtain ⟨same, ⟨_, texts, read, read'⟩, _⟩ := steady.2 { evaluator } { evaluator } rfl (Nat.zero_add _)
  exact Prod.ext same (read'.trans read.symm)

/-- A template under a name that the graph of the root does not tell of makes no difference to the rendering of the
root, whatever the data. -/
theorem hidden_templates_are_invisible (followable : Followable engine) (unmixed : Unmixed engine)
    (ends : Ends engine root) (found : (engine.template? root).isSome) {name : String}
    (hidden : Hidden (graph engine root) name) :
    (∀ source, (engine.registerTemplate name source).render root = engine.render root) ∧
      (engine.removeTemplate name).render root = engine.render root := by
  obtain ⟨lookups, explored⟩ := ends.explored
  constructor
  · intro source
    apply render_covered followable unmixed explored hidden found
    exact {
      config := rfl
      components := rfl
      directives := rfl
      globals := rfl
      maxDepth := rfl
      template? := fun other asked => by
        unfold Engine.template? Engine.registerTemplate
        rw [Fields.find?_insert, if_neg asked]
        rfl }
  · apply render_covered followable unmixed explored hidden found
    exact {
      config := rfl
      components := rfl
      directives := rfl
      globals := rfl
      maxDepth := rfl
      template? := fun other asked => by
        unfold Engine.template? Engine.removeTemplate
        rw [Fields.find?_erase _ asked]
        rfl }

/-! A template and a component of one name. The walk searches one of them only, which is enough if they have the same
source. -/

namespace Shelf

def page : String := "@include('card')@component('card')@endcomponent"

def shelf (template component : String) : Engine where
  templates := [("card", .parse "card" template), ("page", .parse "page" page)]
  components := [("card", .ofSource component)]

/-- What the walk has found in the end. -/
def last : Walk where
  graph := {
    templates := ["card", "page"]
    edges := [⟨"page", .inclusion, "card"⟩, ⟨"page", .component, "card"⟩]
    components := ["card", "components.card"] }
  visited := [("card", .component), ("card", .inclusion), ("page", .inclusion)]
  queue := []

theorem graph_of_steps {engine : Engine} (steps : Steps engine (.start "page") last) :
    Ends engine "page" ∧ Hidden (graph engine "page") "nav" := by
  have same : graph engine "page" = last.graph := congrArg Walk.graph (finish_eq steps rfl)
  rw [same]
  exact ⟨⟨last, steps, rfl⟩, by decide, by decide, by decide⟩

theorem tokenize_sources :
    tokenize page = [⟨.directive "include" (some "'card'"), ⟨0, 16⟩⟩, ⟨.directive "component" (some "'card'"), ⟨16, 34⟩⟩,
      ⟨.directive "endcomponent" none, ⟨34, 47⟩⟩] ∧
    tokenize "T" = [⟨.text "T", ⟨0, 1⟩⟩] ∧
    tokenize "@include('nav')" = [⟨.directive "include" (some "'nav'"), ⟨0, 15⟩⟩] := by
  decide +kernel

theorem read_page : read page = ([.inclusion ⟨0, 16⟩ "'card'", .component ⟨16, 47⟩ "'card'" "" []], []) := by
  apply items_iff_read.1
  rw [tokenize_sources.1]
  exact .leaf .inclusion (.block (.component .nil) .nil .nil)

theorem read_letter : read "T" = ([.text ⟨0, 1⟩ "T"], []) := by
  apply items_iff_read.1
  rw [tokenize_sources.2.1]
  exact .text nofun .nil

theorem read_inclusion : read "@include('nav')" = ([.inclusion ⟨0, 15⟩ "'nav'"], []) := by
  apply items_iff_read.1
  rw [tokenize_sources.2.2]
  exact .leaf .inclusion .nil

theorem literal_page : Literal page := by
  intro lexeme mem kind args refers
  rw [tokenize_sources.1] at mem
  rcases mem with _ | ⟨_, _ | ⟨_, _ | ⟨_, _⟩⟩⟩
  · cbv
  · cbv
  · obtain ⟨known⟩ := refers
    cases known
  · contradiction

theorem literal_letter : Literal "T" := by
  intro lexeme mem kind args refers
  rw [tokenize_sources.2.1] at mem
  cases List.mem_singleton.1 mem
  cases refers

theorem literal_inclusion : Literal "@include('nav')" := by
  intro lexeme mem kind args refers
  rw [tokenize_sources.2.2] at mem
  cases List.mem_singleton.1 mem
  cbv

theorem unglued_page : Unglued page := by
  apply unglued_of_empty
  intro span args defaultSlot slots inside
  rw [read_page] at inside
  rcases Inside.cons_iff.1 inside with impossible | within | later
  · cases impossible
  · exact absurd within Inside.not_nil
  · rcases Inside.single_iff.1 later with same | within
    · cases same
      exact ⟨rfl, rfl⟩
    · exact absurd within Inside.not_nil

theorem unglued_letter : Unglued "T" := by
  apply unglued_of_empty
  intro span args defaultSlot slots inside
  rw [read_letter] at inside
  rcases Inside.single_iff.1 inside with impossible | within
  · cases impossible
  · exact absurd within Inside.not_nil

variable {template component name : String}

theorem template_shelf {held : Template} (found : (shelf template component).template? name = some held) :
    name = "card" ∧ held = .parse "card" template ∨ name = "page" ∧ held = .parse "page" page := by
  simp only [Engine.template?, Engine.load?, shelf, Fields.find?] at found
  split at found
  next same => exact .inl ⟨same, (Option.some.inj found).symm⟩
  split at found
  next same => exact .inr ⟨same, (Option.some.inj found).symm⟩
  · cases found

theorem component_shelf {held : Component} (found : (shelf template component).component? name = some held) :
    name = "card" ∧ held = .ofSource component := by
  simp only [Engine.component?, shelf, Fields.find?] at found
  split at found
  next same => exact ⟨same, (Option.some.inj found).symm⟩
  · cases found

theorem holds_shelf {held : Template} (holds : Holds (shelf template component) held) :
    ∃ name, held = .parse name template ∨ held = .parse name component ∨ held = .parse name page := by
  cases holds with
  | template found =>
    rcases template_shelf found with ⟨_, rfl⟩ | ⟨_, rfl⟩
    · exact ⟨_, .inl rfl⟩
    · exact ⟨_, .inr (.inr rfl)⟩
  | component found =>
    cases (component_shelf found).2
    exact ⟨_, .inr (.inl rfl)⟩

theorem followable_shelf (first : Literal template) (second : Literal component) :
    Followable (shelf template component) where
  unaliased := rfl
  hostless name run found := by cases (component_shelf found).2
  parsed held holds := by
    obtain ⟨name, rfl | rfl | rfl⟩ := holds_shelf holds <;> rfl
  literal held holds := by
    obtain ⟨name, rfl | rfl | rfl⟩ := holds_shelf holds
    · exact first
    · exact second
    · exact literal_page

theorem unmixed_same : Unmixed (shelf "T" "T") where
  single name first second component template := by
    obtain ⟨rfl, same⟩ := component_shelf component
    cases same
    rcases template_shelf template with ⟨_, rfl⟩ | ⟨impossible, _⟩
    · rfl
    · exact absurd impossible (by decide)
  unglued held holds := by
    obtain ⟨name, rfl | rfl | rfl⟩ := holds_shelf holds
    · exact unglued_letter
    · exact unglued_letter
    · exact unglued_page

/-- What the component says makes no difference to the walk. -/
theorem advance_shelf : Walk.advance? (shelf "T" "T") 3 (.start "page") = some last ∧
    Walk.advance? (shelf "T" "@include('nav')") 3 (.start "page") = some last := by
  decide +kernel

theorem nav_is_invisible : Followable (shelf "T" "T") ∧ Unmixed (shelf "T" "T") ∧ Ends (shelf "T" "T") "page" ∧
    Hidden (graph (shelf "T" "T") "page") "nav" ∧
    (∀ source, ((shelf "T" "T").registerTemplate "nav" source).render "page" = (shelf "T" "T").render "page") ∧
    ((shelf "T" "T").removeTemplate "nav").render "page" = (shelf "T" "T").render "page" := by
  have followable := followable_shelf literal_letter literal_letter
  obtain ⟨ends, hidden⟩ := graph_of_steps (steps_of_advance? advance_shelf.1)
  exact ⟨followable, unmixed_same, ends, hidden,
    hidden_templates_are_invisible followable unmixed_same ends rfl hidden⟩

theorem render_without : ((shelf "T" "@include('nav')").render "page" .null .empty).1.toOption =
    some "T<!-- include not found: nav -->" := by
  simp only [shelf, Component.ofSource, parse_eq, read_page, read_letter, read_inclusion]
  cbv

theorem render_with : (((shelf "T" "@include('nav')").registerTemplate "nav" "T").render "page" .null .empty).1.toOption =
    some "TT" := by
  simp only [shelf, Component.ofSource, Engine.registerTemplate, parse_eq, read_page, read_letter, read_inclusion]
  cbv

/-- The source of the component is not searched, and what it includes is missed. -/
theorem nav_is_overlooked : Followable (shelf "T" "@include('nav')") ∧ Ends (shelf "T" "@include('nav')") "page" ∧
    ((shelf "T" "@include('nav')").template? "page").isSome ∧
    Hidden (graph (shelf "T" "@include('nav')") "page") "nav" ∧
    ((shelf "T" "@include('nav')").registerTemplate "nav" "T").render "page" ≠
      (shelf "T" "@include('nav')").render "page" := by
  obtain ⟨ends, hidden⟩ := graph_of_steps (steps_of_advance? advance_shelf.2)
  refine ⟨followable_shelf literal_letter literal_inclusion, ends, rfl, hidden, fun same => ?_⟩
  have outputs := render_with
  rw [same, render_without] at outputs
  exact absurd outputs (by decide)

end Shelf

end Stencil.Dependencies
