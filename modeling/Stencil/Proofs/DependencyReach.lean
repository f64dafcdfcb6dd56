import Mathlib.Data.Set.Card
import Mathlib.Data.Set.Finite.Lattice
import Mathlib.Logic.Relation
import Stencil.Proofs.DependencyWalk

/-! The graph of dependencies holds everything that can be reached from the root and nothing
else, in breadth-first order. Each lookup is taken once, and over finitely many names there
are only finitely many lookups, so the walk comes to an end whatever leads back to where. -/

namespace Stencil.Dependencies
open Template

variable {engine : Engine} {root : String}

def Offers (engine : Engine) (name : String) : Prop :=
  (engine.component? name).isSome ∨ (engine.template? name).isSome

/-- What can lie ahead of a lookup that finds this name. -/
def leads (engine : Engine) (name : String) : List Lookup :=
  (match engine.component? name with
    | some (.fragment template) => (edgesOf engine name template).map Edge.lookup
    | some (.adapter target _) => [(target, .component)]
    | _ => []) ++
  match engine.template? name with
    | some template => (edgesOf engine name template).map Edge.lookup
    | none => []

/-- Every lookup that a walk from the root can come upon. -/
def Within (engine : Engine) (root : String) : Set Lookup :=
  insert (root, .inclusion) (⋃ name ∈ {name | Offers engine name}, {next | next ∈ leads engine name})

theorem within_finite (finite : {name | Offers engine name}.Finite) : (Within engine root).Finite :=
  (finite.biUnion fun name _ => (leads engine name).finite_toSet).insert _

theorem within_of_leads {name : String} {next : Lookup} (offers : Offers engine name)
    (inside : next ∈ leads engine name) : next ∈ Within engine root :=
  Set.mem_insert_of_mem _ (Set.mem_biUnion offers inside)

theorem findComponent_cases (names : List String) :
    (∃ name ∈ names, ∃ template, findComponent engine names = .source name template ∧
      (engine.component? name = some (.fragment template) ∨ engine.template? name = some template)) ∨
    (∃ name ∈ names, ∃ target forward, findComponent engine names = .forward target ∧
      engine.component? name = some (.adapter target forward)) ∨
    findComponent engine names = .closed ∨ findComponent engine names = .missing := by
  induction names with
  | nil => exact .inr (.inr (.inr rfl))
  | cons name names ih =>
    unfold findComponent
    split
    next template found => exact .inl ⟨name, List.mem_cons_self, template, rfl, .inl found⟩
    next => exact .inr (.inr (.inl rfl))
    next target forward found => exact .inr (.inl ⟨name, List.mem_cons_self, target, forward, rfl, found⟩)
    next =>
      split
      next template found => exact .inl ⟨name, List.mem_cons_self, template, rfl, .inr found⟩
      next =>
        rcases ih with ⟨later, inside, rest⟩ | ⟨later, inside, rest⟩ | ends
        · exact .inl ⟨later, List.mem_cons_of_mem _ inside, rest⟩
        · exact .inr (.inl ⟨later, List.mem_cons_of_mem _ inside, rest⟩)
        · exact .inr (.inr ends)

theorem find_source {name resolved : String} {kind : ReferenceKind} {template : Template}
    (found : find engine name kind = .source resolved template) :
    engine.component? resolved = some (.fragment template) ∨ engine.template? resolved = some template := by
  unfold find at found
  split at found
  · rcases findComponent_cases (engine.config.candidates name) with
      ⟨_, _, _, same, has⟩ | ⟨_, _, _, _, same, _⟩ | same | same <;> rw [same] at found <;> cases found
    exact has
  · split at found
    next has =>
      cases found
      exact .inr has
    next => cases found

theorem find_forward {name target : String} {kind : ReferenceKind} (found : find engine name kind = .forward target) :
    ∃ adapter forward, engine.component? adapter = some (.adapter target forward) := by
  unfold find at found
  split at found
  · rcases findComponent_cases (engine.config.candidates name) with
      ⟨_, _, _, same, _⟩ | ⟨adapter, _, _, forward, same, has⟩ | same | same <;> rw [same] at found <;> cases found
    exact ⟨adapter, forward, has⟩
  · split at found <;> cases found

theorem within_of_source {lookup next : Lookup} {resolved : String} {template : Template}
    (found : find engine lookup.1 lookup.2 = .source resolved template)
    (inside : next ∈ (edgesOf engine resolved template).map Edge.lookup) : next ∈ Within engine root := by
  rcases find_source found with has | has
  · have offers : Offers engine resolved := .inl (by simp [has])
    refine within_of_leads offers (List.mem_append_left _ ?_)
    rwa [has]
  · have offers : Offers engine resolved := .inr (by simp [has])
    refine within_of_leads offers (List.mem_append_right _ ?_)
    rwa [has]

theorem within_of_forward {lookup : Lookup} {target : String}
    (found : find engine lookup.1 lookup.2 = .forward target) : (target, .component) ∈ Within engine root := by
  obtain ⟨adapter, forward, has⟩ := find_forward found
  have offers : Offers engine adapter := .inl (by simp [has])
  refine within_of_leads offers (List.mem_append_left _ ?_)
  rw [has]
  exact List.mem_singleton_self _

namespace Step

variable {walk next : Walk} (step : Step engine walk next)
  (within : ∀ lookup ∈ walk.queue, lookup ∈ Within engine root)
include step within

theorem stays : ∀ lookup ∈ next.queue, lookup ∈ Within engine root := by
  cases step with
  | again | known | closed | missing => exact fun lookup inside => within lookup (List.mem_cons_of_mem _ inside)
  | search fresh found new =>
    intro lookup inside
    rcases List.mem_append.1 inside with inside | inside
    · exact within lookup (List.mem_cons_of_mem _ inside)
    · exact within_of_source found inside
  | forward fresh found =>
    intro lookup inside
    rcases List.mem_append.1 inside with inside | inside
    · exact within lookup (List.mem_cons_of_mem _ inside)
    · cases List.mem_singleton.1 inside
      exact within_of_forward found

/-- A lookup is either taken from the queue for nothing or one of those not taken before. -/
theorem descends (finite : (Within engine root).Finite) :
    Prod.Lex (· < ·) (· < ·) ((Within engine root \ {lookup | lookup ∈ next.visited}).ncard, next.queue.length)
      ((Within engine root \ {lookup | lookup ∈ walk.visited}).ncard, walk.queue.length) := by
  have fewer {lookup : Lookup} {visited : List Lookup} (fresh : lookup ∉ visited)
      (inside : lookup ∈ Within engine root) :
      (Within engine root \ {item | item ∈ lookup :: visited}).ncard <
        (Within engine root \ {item | item ∈ visited}).ncard := by
    apply Set.ncard_lt_ncard _ finite.sdiff
    refine ⟨fun item rest => ⟨rest.1, fun seen => rest.2 (List.mem_cons_of_mem _ seen)⟩, fun all => ?_⟩
    exact (all ⟨inside, fresh⟩).2 List.mem_cons_self
  cases step with
  | again seen => exact .right _ (Nat.lt_succ_self _)
  | known fresh | search fresh | closed fresh | forward fresh | missing fresh =>
    exact .left _ _ (fewer fresh (within _ List.mem_cons_self))

end Step

def Steps (engine : Engine) : Walk → Walk → Prop :=
  Relation.ReflTransGen fun walk next => walk.step? engine = some next

/-- Where so many steps lead to, if as many can be taken. -/
def Walk.advance? (engine : Engine) : Nat → Walk → Option Walk
  | 0, walk => some walk
  | count + 1, walk => (walk.step? engine).bind (advance? engine count)

theorem steps_of_advance? {count : Nat} {walk last : Walk} (led : walk.advance? engine count = some last) :
    Steps engine walk last := by
  induction count generalizing walk with
  | zero =>
    cases led
    exact .refl
  | succ count ih =>
    obtain ⟨next, step, further⟩ := Option.bind_eq_some_iff.1 led
    exact .head step (ih further)

theorem walk_ends (finite : (Within engine root).Finite) (walk : Walk)
    (within : ∀ lookup ∈ walk.queue, lookup ∈ Within engine root) :
    ∃ last, Steps engine walk last ∧ last.step? engine = none := by
  cases step : walk.step? engine with
  | none => exact ⟨walk, .refl, step⟩
  | some next =>
    obtain ⟨last, steps, stops⟩ := walk_ends finite next ((step_of_step? step).stays within)
    exact ⟨last, .head step steps, stops⟩
termination_by ((Within engine root \ {lookup | lookup ∈ walk.visited}).ncard, walk.queue.length)
decreasing_by exact (step_of_step? step).descends within finite

theorem finish_eq {walk last : Walk} (steps : Steps engine walk last) (stops : last.step? engine = none) :
    walk.finish engine = last := by
  unfold Walk.finish
  induction steps using Relation.ReflTransGen.head_induction_on with
  | refl => rw [Walk.exhaust, stops]
  | head step _ ih =>
    rw [Walk.exhaust, step]
    exact ih

theorem Progress.run {last : Walk} (steps : Steps engine (.start root) last) :
    ∃ taken, Progress engine root taken last := by
  induction steps with
  | refl => exact ⟨[], .start root⟩
  | tail _ step ih =>
    obtain ⟨taken, progress⟩ := ih
    exact progress.step (step_of_step? step)

/-- What stands in front of an item was first met no later than the item. -/
theorem front_subset {α : Type} [BEq α] [LawfulBEq α] {first rest front back : List α} {item : α}
    (same : (first ++ rest).eraseDups = front ++ item :: back) (inside : item ∈ first) : front ⊆ first := by
  rw [List.eraseDups_append] at same
  rcases List.append_eq_append_iff.1 same with ⟨more, _, later⟩ | ⟨more, earlier, _⟩
  · have new : item ∈ (rest.removeAll first).eraseDups := by simp [later]
    rw [List.mem_eraseDups, List.removeAll, List.mem_filter] at new
    simp [inside] at new
  · intro other member
    rw [← List.mem_eraseDups, earlier]
    exact List.mem_append_left _ member

section Order
variable {edges : List Edge} {lookups : List Lookup}
  (order : lookups = ((root, .inclusion) :: lookups.flatMap (ahead engine edges)).eraseDups)
include order

theorem mem_of_path {count : Nat} {lookup : Lookup} (path : Path engine edges root count lookup) :
    lookup ∈ lookups := by
  induction path with
  | start =>
    rw [order, List.mem_eraseDups]
    exact List.mem_cons_self
  | onward _ inside ih =>
    rw [order, List.mem_eraseDups]
    exact List.mem_cons_of_mem _ (List.mem_flatMap.2 ⟨_, ih, inside⟩)

theorem path_of_sooner {count : Nat} {later : Lookup} (path : Path engine edges root count later)
    {front back : List Lookup} (split : lookups = front ++ later :: back) {sooner : Lookup} (inside : sooner ∈ front) :
    ∃ fewer ≤ count, Path engine edges root fewer sooner := by
  induction path generalizing front back sooner with
  | start =>
    have met : sooner ∈ [(root, ReferenceKind.inclusion)] :=
      front_subset (order.symm.trans split) List.mem_cons_self inside
    cases List.mem_singleton.1 met
    exact ⟨0, Nat.le_refl _, .start⟩
  | @onward count via later path leads ih =>
    obtain ⟨before, after, there⟩ := List.append_of_mem (mem_of_path order path)
    -- Whatever was met before `later` lies ahead of `via` or of a lookup taken before `via`.
    have parts : (((root, .inclusion) :: (before ++ [via]).flatMap (ahead engine edges)) ++
        after.flatMap (ahead engine edges)).eraseDups = front ++ later :: back := by
      rw [← split, List.cons_append, ← List.flatMap_append, List.append_assoc, List.singleton_append, ← there]
      exact order.symm
    have met := front_subset parts (by simp [leads]) inside
    rcases List.mem_cons.1 met with rfl | met
    · exact ⟨0, Nat.zero_le _, .start⟩
    · obtain ⟨earlier, member, ahead⟩ := List.mem_flatMap.1 met
      rcases List.mem_append.1 member with member | last
      · obtain ⟨fewer, le, shorter⟩ := ih there member
        exact ⟨fewer + 1, Nat.succ_le_succ le, shorter.onward ahead⟩
      · cases List.mem_singleton.1 last
        exact ⟨count + 1, Nat.le_refl _, path.onward ahead⟩

end Order

/-- The graph tells what a lookup came to. -/
def Accounts (engine : Engine) (graph : Graph) (lookup : Lookup) : Prop :=
  match find engine lookup.1 lookup.2 with
  | .source resolved _ => resolved ∈ graph.templates
  | .closed => True
  | .forward target => ∀ name ∈ spellings engine target, name ∈ graph.components
  | .missing => lookup.1 ∈ graph.missing

/-- The graph is what a breadth-first search finds that takes these lookups one after another. -/
structure Explored (engine : Engine) (root : String) (graph : Graph) (lookups : List Lookup) : Prop where
  /-- First comes the root, then what lies ahead of lookup after lookup, each once. -/
  order : lookups = ((root, .inclusion) :: lookups.flatMap (ahead engine graph.edges)).eraseDups
  reached : ∀ lookup, lookup ∈ lookups ↔ Reached engine graph.edges root lookup
  /-- No lookup is further from the root than a later one. -/
  breadthFirst : ∀ front later back, lookups = front ++ later :: back → ∀ sooner ∈ front, ∀ count,
    Path engine graph.edges root count later → ∃ fewer ≤ count, Path engine graph.edges root fewer sooner
  edges : graph.edges = (sources engine lookups).flatMap fun source => edgesOf engine source.1 source.2
  once : ((sources engine lookups).map Prod.fst).Nodup
  origins : ∀ edge ∈ graph.edges, edge.source ∈ graph.templates
  accounts : ∀ lookup, lookup = (root, .inclusion) ∨ (∃ edge ∈ graph.edges, lookup = edge.lookup) ∨
    (∃ via target, Reached engine graph.edges root via ∧ find engine via.1 via.2 = .forward target ∧
      lookup = (target, .component)) → Accounts engine graph lookup
  templates : ∀ name, name ∈ graph.templates ↔ ∃ lookup template,
    Reached engine graph.edges root lookup ∧ find engine lookup.1 lookup.2 = .source name template
  missing : ∀ name, name ∈ graph.missing ↔ ∃ kind,
    Reached engine graph.edges root (name, kind) ∧ find engine name kind = .missing
  components : ∀ name, name ∈ graph.components ↔
    (∃ edge ∈ graph.edges, edge.kind = .component ∧ name ∈ spellings engine edge.target) ∨
      ∃ lookup target, Reached engine graph.edges root lookup ∧ find engine lookup.1 lookup.2 = .forward target ∧
        name ∈ spellings engine target

theorem Progress.explored {taken : List Lookup} {last : Walk} (progress : Progress engine root taken last)
    (stops : last.step? engine = none) : Explored engine root last.graph last.visited.reverse := by
  have order : last.visited.reverse =
      ((root, .inclusion) :: last.visited.reverse.flatMap (ahead engine last.graph.edges)).eraseDups := by
    rw [← progress.order, step?_eq_none.1 stops, List.append_nil]
    exact progress.visited
  have reached (lookup : Lookup) : lookup ∈ last.visited ↔ Reached engine last.graph.edges root lookup := by
    constructor
    · intro visited
      rw [← List.mem_reverse, progress.visited, List.mem_eraseDups] at visited
      exact progress.reached lookup (List.mem_append_left _ visited)
    · rintro ⟨count, path⟩
      exact List.mem_reverse.1 (mem_of_path order path)
  have accounts (lookup : Lookup) (there : Reached engine last.graph.edges root lookup) :
      Accounts engine last.graph lookup := by
    rw [← reached] at there
    unfold Accounts
    split
    next resolved template found => exact (progress.templates resolved).2 ⟨lookup, there, template, found⟩
    next => trivial
    next target found =>
      exact fun name spelled => (progress.components name).2 (.inr ⟨lookup, there, target, found, spelled⟩)
    next found => exact (progress.missing lookup.1).2 ⟨lookup, there, rfl, found⟩
  exact {
    order
    reached := fun lookup => by rw [List.mem_reverse, reached]
    breadthFirst := fun front later back split sooner inside count path => path_of_sooner order path split inside
    edges := progress.edges
    once := (sources_names _).1
    origins := fun edge => progress.source_mem
    accounts := by
      rintro lookup (rfl | ⟨edge, inside, rfl⟩ | ⟨via, target, there, found, rfl⟩)
      · exact accounts _ ⟨0, .start⟩
      · obtain ⟨via, there, template, found⟩ := (progress.templates _).1 (progress.source_mem inside)
        apply accounts
        apply ((reached via).1 there).onward
        simp only [ahead, found]
        exact List.mem_map_of_mem (List.mem_filter.2 ⟨inside, by simp⟩)
      · apply accounts
        apply there.onward
        simp [ahead, found]
    templates := fun name => by
      rw [progress.templates]
      simp only [reached]
      grind
    missing := fun name => by
      rw [progress.missing]
      simp only [reached]
      grind
    components := fun name => by
      rw [progress.components]
      simp only [reached]
      grind }

/-- Where there are finitely many names the walk comes to an end, and the graph it has found by
then holds just what can be reached from the root. -/
theorem graph_is_reachability (finite : {name | Offers engine name}.Finite) (root : String) :
    (∃ last, Steps engine (.start root) last ∧ last.step? engine = none ∧ graph engine root = last.graph) ∧
      ∃ lookups, Explored engine root (graph engine root) lookups := by
  have within : ∀ lookup ∈ (Walk.start root).queue, lookup ∈ Within engine root := by
    intro lookup inside
    cases List.mem_singleton.1 inside
    exact Set.mem_insert _ _
  obtain ⟨last, steps, stops⟩ := walk_ends (within_finite finite) (.start root) within
  have same : graph engine root = last.graph := congrArg Walk.graph (finish_eq steps stops)
  obtain ⟨taken, progress⟩ := Progress.run steps
  refine ⟨⟨last, steps, stops, same⟩, last.visited.reverse, ?_⟩
  rw [same]
  exact progress.explored stops

/-- Only a loader can have a template for each of infinitely many names. -/
theorem offers_finite (loaded : {name | (engine.load? name).isSome}.Finite) : {name | Offers engine name}.Finite := by
  apply ((loaded.union engine.templates.names.finite_toSet).union engine.components.names.finite_toSet).subset
  rintro name (component | template)
  · obtain ⟨component, found⟩ := Option.isSome_iff_exists.1 component
    exact .inr (Fields.mem_names_of_find? found)
  · obtain ⟨template, found⟩ := Option.isSome_iff_exists.1 template
    rcases Option.or_eq_some_iff.1 found with registered | ⟨_, served⟩
    · exact .inl (.inr (Fields.mem_names_of_find? registered))
    · exact .inl (.inl (Option.isSome_iff_exists.2 ⟨template, served⟩))

/-- Two templates that include each other, one of them from the loader, and an adapter that leads
to itself. -/
def roundabout : Engine :=
  { templates := [("page", .parse "page" "@include('nav')@include('ghost')@component('box')@endcomponent")]
    components := [("box", .adapter "box" Instance.props)]
    loader := some fun name => if name = "nav" then some "@include('page')@include('nav')" else none }

theorem roundabout_finite : {name | Offers roundabout name}.Finite := by
  apply offers_finite
  apply (Set.finite_singleton "nav").subset
  intro name served
  by_contra other
  change ¬ name = "nav" at other
  simp [Engine.load?, roundabout, other] at served

theorem roundabout_reachability : {name | Offers roundabout name}.Finite ∧
    (∃ last, Steps roundabout (.start "page") last ∧ last.step? roundabout = none ∧
      graph roundabout "page" = last.graph) ∧
    ∃ lookups, Explored roundabout "page" (graph roundabout "page") lookups :=
  ⟨roundabout_finite, graph_is_reachability roundabout_finite "page"⟩

end Stencil.Dependencies
