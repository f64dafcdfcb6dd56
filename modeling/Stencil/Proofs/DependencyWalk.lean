import Mathlib.Data.List.Induction
import Stencil.Dependencies

/-! What a walk along references has found at any time. Between the lookups already taken and
those in the queue the walk holds the beginning of a breadth-first search: everything that
lies ahead of a lookup follows it in the order of its references, and what was there before is
left out. The graph holds what the lookups taken have found. -/

namespace Stencil.Dependencies
open Template

variable {engine : Engine}

theorem mem_noteComponent {components : Names} {name noted : String} :
    name ∈ noteComponent engine components noted ↔ name ∈ spellings engine noted ∨ name ∈ components := by
  unfold noteComponent
  generalize spellings engine noted = spelled
  induction spelled generalizing components with
  | nil => simp
  | cons head spelled ih =>
    rw [List.foldl_cons, ih, Names.mem_insert, List.mem_cons]
    grind

theorem mem_noteComponents {components : Names} {name : String} {uses : List String} :
    name ∈ uses.foldl (noteComponent engine) components ↔
      (∃ noted ∈ uses, name ∈ spellings engine noted) ∨ name ∈ components := by
  induction uses generalizing components with
  | nil => simp
  | cons head uses ih =>
    rw [List.foldl_cons, ih, mem_noteComponent]
    grind

theorem source_of_mem_edgesOf {resolved : String} {template : Template} {edge : Edge}
    (inside : edge ∈ edgesOf engine resolved template) : edge.source = resolved := by
  obtain ⟨reference, _, rfl⟩ := List.mem_map.1 inside
  rfl

/-- What one lookup does to a walk. -/
inductive Step (engine : Engine) : Walk → Walk → Prop where
  | again {graph : Graph} {visited queue : List Lookup} {lookup : Lookup} (seen : lookup ∈ visited) :
    Step engine ⟨graph, visited, lookup :: queue⟩ ⟨graph, visited, queue⟩
  | known {graph : Graph} {visited queue : List Lookup} {lookup : Lookup} {resolved : String} {template : Template}
      (fresh : lookup ∉ visited) (found : find engine lookup.1 lookup.2 = .source resolved template)
      (searched : resolved ∈ graph.templates) :
    Step engine ⟨graph, visited, lookup :: queue⟩ ⟨graph, lookup :: visited, queue⟩
  | search {graph : Graph} {visited queue : List Lookup} {lookup : Lookup} {resolved : String} {template : Template}
      (fresh : lookup ∉ visited) (found : find engine lookup.1 lookup.2 = .source resolved template)
      (new : resolved ∉ graph.templates) :
    Step engine ⟨graph, visited, lookup :: queue⟩
      ⟨{ graph with
          templates := graph.templates.insert resolved
          edges := graph.edges ++ edgesOf engine resolved template
          components := (((edgesOf engine resolved template).filter fun edge => edge.kind = .component).map
            Edge.target).foldl (noteComponent engine) graph.components },
        lookup :: visited, queue ++ (edgesOf engine resolved template).map Edge.lookup⟩
  | closed {graph : Graph} {visited queue : List Lookup} {lookup : Lookup} (fresh : lookup ∉ visited)
      (found : find engine lookup.1 lookup.2 = .closed) :
    Step engine ⟨graph, visited, lookup :: queue⟩ ⟨graph, lookup :: visited, queue⟩
  | forward {graph : Graph} {visited queue : List Lookup} {lookup : Lookup} {target : String}
      (fresh : lookup ∉ visited) (found : find engine lookup.1 lookup.2 = .forward target) :
    Step engine ⟨graph, visited, lookup :: queue⟩
      ⟨{ graph with components := noteComponent engine graph.components target }, lookup :: visited,
        queue ++ [(target, .component)]⟩
  | missing {graph : Graph} {visited queue : List Lookup} {lookup : Lookup} (fresh : lookup ∉ visited)
      (found : find engine lookup.1 lookup.2 = .missing) :
    Step engine ⟨graph, visited, lookup :: queue⟩
      ⟨{ graph with missing := graph.missing.insert lookup.1 }, lookup :: visited, queue⟩

theorem step_of_step? {walk next : Walk} (step : walk.step? engine = some next) : Step engine walk next := by
  obtain ⟨graph, visited, queue⟩ := walk
  cases queue with
  | nil => cases step
  | cons lookup queue =>
    simp only [Walk.step?, Walk.visit, Option.some.injEq] at step
    split at step
    next seen =>
      cases step
      exact .again seen
    next fresh =>
      split at step
      next resolved template found =>
        unfold Walk.search at step
        split at step
        next searched =>
          cases step
          exact .known fresh found searched
        next new =>
          cases step
          exact .search fresh found new
      next found =>
        cases step
        exact .closed fresh found
      next target found =>
        cases step
        exact .forward fresh found
      next found =>
        cases step
        exact .missing fresh found

theorem step?_eq_none {walk : Walk} : walk.step? engine = none ↔ walk.queue = [] := by
  unfold Walk.step?
  split
  next same => simp [same]
  next same => simp [same]

/-- The source that a lookup finds, with the name it is found under. -/
def source? (engine : Engine) (lookup : Lookup) : Option (String × Template) :=
  match find engine lookup.1 lookup.2 with
  | .source resolved template => some (resolved, template)
  | _ => none

/-- The sources that some lookups find. Of those found under one name the first one counts. -/
def sources (engine : Engine) (lookups : List Lookup) : List (String × Template) :=
  (lookups.filterMap (source? engine)).foldl
    (fun kept source => if source.1 ∈ kept.map Prod.fst then kept else kept ++ [source]) []

/-- Where a lookup leads to: along the references of the template that it finds, or to the target
of an adapter. -/
def ahead (engine : Engine) (edges : List Edge) (lookup : Lookup) : List Lookup :=
  match find engine lookup.1 lookup.2 with
  | .source resolved _ => (edges.filter fun edge => edge.source = resolved).map Edge.lookup
  | .forward target => [(target, .component)]
  | _ => []

/-- Some way with so many steps leads from the root to a lookup. -/
inductive Path (engine : Engine) (edges : List Edge) (root : String) : Nat → Lookup → Prop where
  | start : Path engine edges root 0 (root, .inclusion)
  | onward {count : Nat} {lookup next : Lookup} (path : Path engine edges root count lookup)
      (inside : next ∈ ahead engine edges lookup) : Path engine edges root (count + 1) next

def Reached (engine : Engine) (edges : List Edge) (root : String) (lookup : Lookup) : Prop :=
  ∃ count, Path engine edges root count lookup

theorem Reached.onward {edges : List Edge} {root : String} {lookup next : Lookup}
    (reached : Reached engine edges root lookup) (inside : next ∈ ahead engine edges lookup) :
    Reached engine edges root next := by
  obtain ⟨count, path⟩ := reached
  exact ⟨count + 1, path.onward inside⟩

theorem ahead_subset_append (edges more : List Edge) (lookup : Lookup) :
    ahead engine edges lookup ⊆ ahead engine (edges ++ more) lookup := by
  unfold ahead
  split
  · rw [List.filter_append, List.map_append]
    exact List.subset_append_left _ _
  · exact List.Subset.refl _
  · exact List.Subset.refl _

theorem Reached.append {edges : List Edge} {root : String} {lookup : Lookup}
    (reached : Reached engine edges root lookup) (more : List Edge) : Reached engine (edges ++ more) root lookup := by
  obtain ⟨count, path⟩ := reached
  refine ⟨count, ?_⟩
  induction path with
  | start => exact .start
  | onward _ inside ih => exact ih.onward (ahead_subset_append _ _ _ inside)

section Order
variable {α : Type} [BEq α] [LawfulBEq α]

theorem mem_iff_of_eraseDups_eq {first second : List α} (same : first.eraseDups = second.eraseDups) (item : α) :
    item ∈ first ↔ item ∈ second := by
  rw [← List.mem_eraseDups, same, List.mem_eraseDups]

theorem eraseDups_append_congr {first second : List α} (same : first.eraseDups = second.eraseDups) (rest : List α) :
    (first ++ rest).eraseDups = (second ++ rest).eraseDups := by
  have removed : rest.removeAll first = rest.removeAll second := by
    unfold List.removeAll
    apply List.filter_congr
    intro item _
    have := mem_iff_of_eraseDups_eq same item
    grind
  rw [List.eraseDups_append, List.eraseDups_append, same, removed]

theorem eraseDups_append_of_subset {first rest : List α} (inside : rest ⊆ first) :
    (first ++ rest).eraseDups = first.eraseDups := by
  have removed : rest.removeAll first = [] := by
    unfold List.removeAll
    apply List.filter_eq_nil_iff.2
    intro item member
    have := inside member
    grind
  rw [List.eraseDups_append, removed, List.eraseDups_nil, List.append_nil]

theorem eraseDups_append_new {first : List α} {item : α} (new : item ∉ first) :
    (first ++ [item]).eraseDups = first.eraseDups ++ [item] := by
  have removed : [item].removeAll first = [item] := by
    unfold List.removeAll
    apply List.filter_eq_self.2
    grind
  rw [List.eraseDups_append, removed]
  rfl

end Order

section Sources
variable {lookups : List Lookup} {lookup : Lookup}

theorem source?_eq_some {resolved : String} {template : Template} :
    source? engine lookup = some (resolved, template) ↔ find engine lookup.1 lookup.2 = .source resolved template := by
  unfold source?
  split <;> simp_all

theorem sources_silent (silent : source? engine lookup = none) :
    sources engine (lookups ++ [lookup]) = sources engine lookups := by
  simp [sources, List.filterMap_append, silent]

theorem sources_known {source : String × Template} (found : source? engine lookup = some source)
    (known : source.1 ∈ (sources engine lookups).map Prod.fst) :
    sources engine (lookups ++ [lookup]) = sources engine lookups := by
  unfold sources at known ⊢
  rw [List.filterMap_append, List.filterMap_cons_some found, List.foldl_append]
  exact if_pos known

theorem sources_new {source : String × Template} (found : source? engine lookup = some source)
    (new : source.1 ∉ (sources engine lookups).map Prod.fst) :
    sources engine (lookups ++ [lookup]) = sources engine lookups ++ [source] := by
  unfold sources at new ⊢
  rw [List.filterMap_append, List.filterMap_cons_some found, List.foldl_append]
  exact if_neg new

theorem sources_names (lookups : List Lookup) : ((sources engine lookups).map Prod.fst).Nodup ∧
    ∀ name, name ∈ (sources engine lookups).map Prod.fst ↔
      ∃ lookup ∈ lookups, ∃ template, find engine lookup.1 lookup.2 = .source name template := by
  induction lookups using List.reverseRecOn with
  | nil => simp [sources]
  | append_singleton lookups lookup ih =>
    obtain ⟨distinct, names⟩ := ih
    cases found : source? engine lookup with
    | none =>
      have silent (name : String) (template : Template) : find engine lookup.1 lookup.2 ≠ .source name template := by
        rw [Ne, ← source?_eq_some, found]
        nofun
      rw [sources_silent found]
      refine ⟨distinct, fun name => ?_⟩
      rw [names]
      simp [silent]
    | some source =>
      obtain ⟨resolved, template⟩ := source
      have finds := source?_eq_some.1 found
      by_cases known : resolved ∈ (sources engine lookups).map Prod.fst
      · rw [sources_known found known]
        refine ⟨distinct, fun name => ?_⟩
        rw [names]
        constructor
        · rintro ⟨earlier, inside, finding⟩
          exact ⟨earlier, List.mem_append_left _ inside, finding⟩
        · rintro ⟨other, inside, template', finding⟩
          rcases List.mem_append.1 inside with inside | last
          · exact ⟨other, inside, template', finding⟩
          · cases List.mem_singleton.1 last
            cases finds.symm.trans finding
            exact (names resolved).1 known
      · rw [sources_new found known, List.map_append]
        refine ⟨?_, fun name => ?_⟩
        · refine List.nodup_append.2 ⟨distinct, by simp, ?_⟩
          rintro earlier inside _ last rfl
          cases List.mem_singleton.1 last
          exact known inside
        · rw [List.mem_append, names]
          simp only [List.mem_append, or_and_right, exists_or]
          refine or_congr Iff.rfl ?_
          simp [finds, eq_comm]

end Sources

/-- Lookups are taken one after another. The walk has found what these find and has yet to take
what is queued. -/
structure Progress (engine : Engine) (root : String) (taken : List Lookup) (walk : Walk) : Prop where
  visited : walk.visited.reverse = taken.eraseDups
  order : (taken ++ walk.queue).eraseDups =
    ((root, .inclusion) :: walk.visited.reverse.flatMap (ahead engine walk.graph.edges)).eraseDups
  reached : ∀ lookup ∈ taken ++ walk.queue, Reached engine walk.graph.edges root lookup
  templates : ∀ name, name ∈ walk.graph.templates ↔
    ∃ lookup ∈ walk.visited, ∃ template, find engine lookup.1 lookup.2 = .source name template
  edges : walk.graph.edges =
    (sources engine walk.visited.reverse).flatMap fun source => edgesOf engine source.1 source.2
  missing : ∀ name, name ∈ walk.graph.missing ↔
    ∃ lookup ∈ walk.visited, lookup.1 = name ∧ find engine lookup.1 lookup.2 = .missing
  components : ∀ name, name ∈ walk.graph.components ↔
    (∃ edge ∈ walk.graph.edges, edge.kind = .component ∧ name ∈ spellings engine edge.target) ∨
      ∃ lookup ∈ walk.visited, ∃ target, find engine lookup.1 lookup.2 = .forward target ∧
        name ∈ spellings engine target

theorem Progress.start (root : String) : Progress engine root [] (Walk.start root) where
  visited := rfl
  order := rfl
  reached lookup inside := by
    cases List.mem_singleton.1 inside
    exact ⟨0, .start⟩
  templates name := by simp [Walk.start]
  edges := rfl
  missing name := by simp [Walk.start]
  components name := by simp [Walk.start]

namespace Progress

variable {root : String} {taken : List Lookup} {walk next : Walk}

theorem source_mem (progress : Progress engine root taken walk) {edge : Edge} (inside : edge ∈ walk.graph.edges) :
    edge.source ∈ walk.graph.templates := by
  rw [progress.edges] at inside
  obtain ⟨source, found, inside⟩ := List.mem_flatMap.1 inside
  rw [source_of_mem_edgesOf inside, progress.templates]
  obtain ⟨lookup, visited, finds⟩ := ((sources_names _).2 source.1).1 (List.mem_map_of_mem found)
  exact ⟨lookup, List.mem_reverse.1 visited, finds⟩

theorem mem_visited {graph : Graph} {visited queue : List Lookup}
    (progress : Progress engine root taken ⟨graph, visited, queue⟩) (lookup : Lookup) :
    lookup ∈ visited ↔ lookup ∈ taken := by
  rw [← @List.mem_eraseDups _ _ _ _ taken, ← progress.visited, List.mem_reverse]

section Fresh
variable {graph graph' : Graph} {visited queue onward : List Lookup} {lookup : Lookup} {resolved : String}
  {template : Template} (progress : Progress engine root taken ⟨graph, visited, lookup :: queue⟩)
include progress

theorem visited_fresh (fresh : lookup ∉ visited) : (lookup :: visited).reverse = (taken ++ [lookup]).eraseDups := by
  rw [List.reverse_cons, eraseDups_append_new (mt (progress.mem_visited lookup).2 fresh), ← progress.visited]

theorem order_onward {edges : List Edge}
    (kept : ∀ earlier ∈ visited, ahead engine edges earlier = ahead engine graph.edges earlier)
    (leads : ahead engine edges lookup = onward) :
    (taken ++ [lookup] ++ (queue ++ onward)).eraseDups =
      ((root, .inclusion) :: (lookup :: visited).reverse.flatMap (ahead engine edges)).eraseDups := by
  have same : visited.reverse.flatMap (ahead engine edges) = visited.reverse.flatMap (ahead engine graph.edges) := by
    unfold List.flatMap
    rw [List.map_congr_left fun earlier inside => kept earlier (List.mem_reverse.1 inside)]
  have order := eraseDups_append_congr progress.order onward
  simpa [same, leads] using order

theorem reached_onward {edges : List Edge} (more : ∃ later, edges = graph.edges ++ later)
    (leads : ahead engine edges lookup = onward) :
    ∀ item ∈ taken ++ [lookup] ++ (queue ++ onward), Reached engine edges root item := by
  obtain ⟨later, rfl⟩ := more
  have before (item : Lookup) (inside : item ∈ taken ++ lookup :: queue) :
      Reached engine (graph.edges ++ later) root item := (progress.reached item inside).append later
  intro item inside
  rw [← List.append_assoc, List.mem_append] at inside
  rcases inside with inside | inside
  · exact before item (by simpa using inside)
  · rw [← leads] at inside
    exact (before lookup (by simp)).onward inside

theorem ahead_kept (new : resolved ∉ graph.templates) : ∀ earlier ∈ visited,
    ahead engine (graph.edges ++ edgesOf engine resolved template) earlier = ahead engine graph.edges earlier := by
  intro earlier inside
  unfold ahead
  split
  next other template' finds =>
    have different : resolved ≠ other := by
      rintro rfl
      exact new ((progress.templates resolved).2 ⟨earlier, inside, template', finds⟩)
    have none : (edgesOf engine resolved template).filter (fun edge => edge.source = other) = [] := by
      apply List.filter_eq_nil_iff.2
      intro edge member
      simpa [source_of_mem_edgesOf member] using different
    rw [List.filter_append, none, List.append_nil]
  next => rfl
  next => rfl

theorem ahead_searched (found : find engine lookup.1 lookup.2 = .source resolved template)
    (new : resolved ∉ graph.templates) :
    ahead engine (graph.edges ++ edgesOf engine resolved template) lookup =
      (edgesOf engine resolved template).map Edge.lookup := by
  have none : graph.edges.filter (fun edge => edge.source = resolved) = [] := by
    apply List.filter_eq_nil_iff.2
    intro edge member same
    simp only [decide_eq_true_eq] at same
    exact new (same ▸ progress.source_mem member)
  have all : (edgesOf engine resolved template).filter (fun edge => edge.source = resolved) =
      edgesOf engine resolved template := by
    apply List.filter_eq_self.2
    intro edge member
    simpa using source_of_mem_edgesOf member
  simp only [ahead, found]
  rw [List.filter_append, none, all, List.nil_append]

/-- A template that another lookup has found already adds nothing. -/
theorem known (fresh : lookup ∉ visited) (found : find engine lookup.1 lookup.2 = .source resolved template)
    (searched : resolved ∈ graph.templates) :
    Progress engine root (taken ++ [lookup]) ⟨graph, lookup :: visited, queue⟩ := by
  obtain ⟨earlier, inside, template', finds⟩ := (progress.templates resolved).1 searched
  have order : taken ++ lookup :: queue = taken ++ [lookup] ++ queue := by simp
  exact {
    visited := progress.visited_fresh fresh
    order := by
      -- The references stand under the resolved name, so the earlier lookup has put them all in the queue.
      have repeats : ahead engine graph.edges lookup = ahead engine graph.edges earlier := by
        simp [ahead, found, finds]
      have absorbed : ahead engine graph.edges lookup ⊆ visited.reverse.flatMap (ahead engine graph.edges) := by
        intro next leads
        rw [repeats] at leads
        exact List.mem_flatMap.2 ⟨earlier, List.mem_reverse.2 inside, leads⟩
      rw [← order, progress.order, List.reverse_cons, List.flatMap_append, ← List.cons_append]
      symm
      apply eraseDups_append_of_subset
      simpa using List.subset_cons_of_subset _ absorbed
    reached := by simpa only [order] using progress.reached
    templates := fun name => by
      rw [progress.templates]
      simp only [List.mem_cons, exists_eq_or_imp, found]
      constructor
      · exact .inr
      · rintro (⟨_, same⟩ | later)
        · cases same
          exact ⟨earlier, inside, template', finds⟩
        · exact later
    edges := by
      have there : resolved ∈ (sources engine visited.reverse).map Prod.fst :=
        ((sources_names _).2 resolved).2 ⟨earlier, List.mem_reverse.2 inside, template', finds⟩
      simpa [sources_known (source?_eq_some.2 found) there] using progress.edges
    missing := fun name => by simpa [found] using progress.missing name
    components := fun name => by simpa [found] using progress.components name }

theorem search (fresh : lookup ∉ visited) (found : find engine lookup.1 lookup.2 = .source resolved template)
    (new : resolved ∉ graph.templates) :
    Progress engine root (taken ++ [lookup]) ⟨{ graph with
      templates := graph.templates.insert resolved
      edges := graph.edges ++ edgesOf engine resolved template
      components := (((edgesOf engine resolved template).filter fun edge => edge.kind = .component).map
        Edge.target).foldl (noteComponent engine) graph.components },
      lookup :: visited, queue ++ (edgesOf engine resolved template).map Edge.lookup⟩ where
  visited := progress.visited_fresh fresh
  order := progress.order_onward (progress.ahead_kept new) (progress.ahead_searched found new)
  reached := progress.reached_onward ⟨_, rfl⟩ (progress.ahead_searched found new)
  templates name := by
    rw [Names.mem_insert, progress.templates]
    simp [found, eq_comm]
  edges := by
    have absent : resolved ∉ (sources engine visited.reverse).map Prod.fst := by
      intro inside
      obtain ⟨earlier, inside, template', finds⟩ := ((sources_names _).2 resolved).1 inside
      exact new ((progress.templates resolved).2 ⟨earlier, List.mem_reverse.1 inside, template', finds⟩)
    simpa [sources_new (source?_eq_some.2 found) absent] using progress.edges
  missing name := by simpa [found] using progress.missing name
  components name := by
    rw [mem_noteComponents, progress.components]
    simp only [List.mem_map, List.mem_filter, decide_eq_true_eq, List.mem_append, List.mem_cons, exists_eq_or_imp,
      found]
    grind

/-- No template is found, so only the other two tables can grow. -/
theorem sourceless (fresh : lookup ∉ visited) (silent : source? engine lookup = none)
    (edges : graph'.edges = graph.edges) (templates : graph'.templates = graph.templates)
    (leads : ahead engine graph.edges lookup = onward)
    (missing : ∀ name, name ∈ graph'.missing ↔
      (lookup.1 = name ∧ find engine lookup.1 lookup.2 = .missing) ∨ name ∈ graph.missing)
    (components : ∀ name, name ∈ graph'.components ↔ name ∈ graph.components ∨
      ∃ target, find engine lookup.1 lookup.2 = .forward target ∧ name ∈ spellings engine target) :
    Progress engine root (taken ++ [lookup]) ⟨graph', lookup :: visited, queue ++ onward⟩ where
  visited := progress.visited_fresh fresh
  order := by
    rw [← edges] at leads
    exact progress.order_onward (fun _ _ => by rw [edges]) leads
  reached := by
    rw [← edges] at leads
    exact progress.reached_onward ⟨[], by rw [edges, List.append_nil]⟩ leads
  templates name := by
    have none (template : Template) : find engine lookup.1 lookup.2 ≠ .source name template := by
      rw [Ne, ← source?_eq_some, silent]
      nofun
    rw [templates, progress.templates]
    simp [none]
  edges := by simpa [edges, sources_silent silent] using progress.edges
  missing name := by
    rw [missing, progress.missing]
    simp only [List.mem_cons, exists_eq_or_imp]
  components name := by
    rw [components, progress.components, edges]
    simp only [List.mem_cons, exists_eq_or_imp]
    grind

end Fresh

theorem step (progress : Progress engine root taken walk) (step : Step engine walk next) :
    ∃ taken, Progress engine root taken next := by
  cases step with
  | @again graph visited queue lookup seen =>
    have order : taken ++ lookup :: queue = taken ++ [lookup] ++ queue := by simp
    have absorbed : (taken ++ [lookup]).eraseDups = taken.eraseDups :=
      eraseDups_append_of_subset (List.cons_subset.2 ⟨(progress.mem_visited lookup).1 seen, List.nil_subset _⟩)
    exact ⟨taken ++ [lookup], { progress with
      visited := progress.visited.trans absorbed.symm
      order := by simpa only [order] using progress.order
      reached := by simpa only [order] using progress.reached }⟩
  | known fresh found searched => exact ⟨_, progress.known fresh found searched⟩
  | search fresh found new => exact ⟨_, progress.search fresh found new⟩
  | @closed graph visited queue lookup fresh found =>
    rw [← List.append_nil queue]
    exact ⟨_, progress.sourceless fresh (by simp [source?, found]) rfl rfl (by simp [ahead, found]) (by simp [found])
      (by simp [found])⟩
  | forward fresh found =>
    exact ⟨_, progress.sourceless fresh (by simp [source?, found]) rfl rfl (by simp [ahead, found]) (by simp [found])
      (by simp [found, mem_noteComponent, or_comm])⟩
  | @missing graph visited queue lookup fresh found =>
    rw [← List.append_nil queue]
    exact ⟨_, progress.sourceless fresh (by simp [source?, found]) rfl rfl (by simp [ahead, found])
      (by simp [found, Names.mem_insert, eq_comm]) (by simp [found])⟩

end Progress
end Stencil.Dependencies
