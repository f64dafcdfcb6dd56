import Stencil.Dependencies
import Stencil.Proofs.RenderEnding

/-! Where the source of a template is kept makes no difference: it may be registered or left
to a loader. Everything that asks for a template asks for it by name and gets the same in
both cases, so renderings and dependencies cannot tell engines apart that have the same
sources. -/

namespace Stencil

namespace Fields

variable {α : Type}

theorem find?_insertAll_filter (kept : String → Bool) (entries : List (String × α)) {fields all : Fields α}
    {name : String} (same : fields.find? name = if kept name then all.find? name else none) :
    (fields.insertAll (entries.filter fun entry => kept entry.1)).find? name =
      if kept name then (all.insertAll entries).find? name else none := by
  induction entries generalizing fields all with
  | nil => exact same
  | cons entry entries ih =>
    obtain ⟨key, value⟩ := entry
    by_cases keeps : kept key
    · rw [List.filter_cons_of_pos (by simpa using keeps)]
      apply ih
      rw [find?_insert, find?_insert, same]
      by_cases hit : name = key
      · subst hit
        simp [keeps]
      · simp [hit]
    · rw [List.filter_cons_of_neg (by simpa using keeps)]
      apply ih
      rw [find?_insert, same]
      by_cases hit : name = key
      · subst hit
        simp [keeps]
      · simp [hit]

end Fields

namespace Engine

def registering (engine : Engine) (entries : List (String × String)) : Engine :=
  entries.foldl (fun engine (name, source) => engine.registerTemplate name source) engine

/-- Apart from the templates everything stays as it is. -/
theorem registering_rest (engine : Engine) (entries : List (String × String)) :
    (engine.registering entries).config = engine.config ∧
      (engine.registering entries).components = engine.components ∧
      (engine.registering entries).directives = engine.directives ∧
      (engine.registering entries).globals = engine.globals ∧
      (engine.registering entries).load? = engine.load? := by
  induction entries generalizing engine with
  | nil => exact ⟨rfl, rfl, rfl, rfl, rfl⟩
  | cons entry entries ih => exact ih (engine.registerTemplate entry.1 entry.2)

theorem find?_registering (entries : List (String × String)) {engine : Engine} {sources : Fields String}
    {name : String} (same : engine.templates.find? name = (sources.find? name).map (Template.parse name)) :
    (engine.registering entries).templates.find? name =
      ((sources.insertAll entries).find? name).map (Template.parse name) := by
  induction entries generalizing engine sources with
  | nil => exact same
  | cons entry entries ih =>
    apply @ih (engine.registerTemplate entry.1 entry.2) (sources.insert entry.1 entry.2)
    unfold registerTemplate
    rw [Fields.find?_insert, Fields.find?_insert, same]
    split
    next hit => rw [hit]; rfl
    next => rfl

/-- Nothing is registered, and the loader has the sources of the names that it knows. Of two
sources with one name the later one counts. -/
def loading (base : Engine) (entries : List (String × String)) (known : String → Bool) : Engine :=
  { base with
    templates := []
    loader := some fun name => if known name then (Fields.ofEntries entries).find? name else none }

/-- The sources of some names are registered. The loader knows the others, and may share some of
those registered. -/
def divided (base : Engine) (entries : List (String × String)) (registered shared : String → Bool) : Engine :=
  (base.loading entries fun name => !registered name || shared name).registering
    (entries.filter fun entry => registered entry.1)

def preloaded (base : Engine) (entries : List (String × String)) : Engine :=
  registering { base with templates := [], loader := none } entries

variable (base : Engine) (entries : List (String × String)) (registered shared : String → Bool)

theorem template?_divided (name : String) : (base.divided entries registered shared).template? name =
    ((Fields.ofEntries entries).find? name).map (Template.parse name) := by
  have nothing : Fields.find? ([] : Fields String) name = if registered name then Fields.find? [] name else none := by
    split <;> rfl
  have kept := Fields.find?_insertAll_filter registered entries nothing
  unfold divided Engine.template?
  rw [(registering_rest _ _).2.2.2.2, @find?_registering _ _ [] name rfl, kept]
  unfold loading load?
  cases here : registered name with
  | false => simp [here]
  | true =>
    change (((Fields.ofEntries entries).find? name).map _).or _ = _
    cases missing : (Fields.ofEntries entries).find? name <;> simp [missing]

theorem template?_preloaded (name : String) : (base.preloaded entries).template? name =
    ((Fields.ofEntries entries).find? name).map (Template.parse name) := by
  unfold preloaded Engine.template?
  rw [(registering_rest _ _).2.2.2.2, @find?_registering _ _ [] name rfl]
  exact Option.or_none

theorem divided_twin : (base.preloaded entries).Twin (base.divided entries registered shared) := by
  obtain ⟨config, components, directives, globals, -⟩ :=
    registering_rest { base with templates := [], loader := none } entries
  obtain ⟨config', components', directives', globals', -⟩ :=
    registering_rest (base.loading entries fun name => !registered name || shared name)
      (entries.filter fun entry => registered entry.1)
  have same : (base.divided entries registered shared).config = (base.preloaded entries).config :=
    config'.trans config.symm
  exact {
    config := by rw [same]
    components := components'.trans components.symm
    directives := directives'.trans directives.symm
    globals := globals'.trans globals.symm
    template? := fun name => by rw [template?_divided, template?_preloaded]
    maxDepth := by rw [same] }

end Engine

namespace Dependencies

variable {engine other : Engine} (kin : engine.Kin other)
include kin

theorem findComponent_kin (names : List String) : findComponent other names = findComponent engine names := by
  induction names with
  | nil => rfl
  | cons name names ih =>
    unfold findComponent
    rw [kin.component?, kin.template?, ih]

theorem find_kin (name : String) (kind : ReferenceKind) : find other name kind = find engine name kind := by
  unfold find
  rw [findComponent_kin kin, kin.candidates, kin.template?]

theorem edgesOf_kin (resolved : String) (template : Template) :
    edgesOf other resolved template = edgesOf engine resolved template := by
  unfold edgesOf expanded
  simp only [kin.expand]

theorem noteComponent_kin : noteComponent other = noteComponent engine := by
  unfold noteComponent spellings
  rw [kin.config]

theorem step?_kin : Walk.step? other = Walk.step? engine := by
  funext walk
  unfold Walk.step? Walk.visit Walk.search
  simp only [find_kin kin, edgesOf_kin kin, noteComponent_kin kin]

theorem graph_kin (root : String) : graph other root = graph engine root := by
  unfold graph Walk.finish
  rw [step?_kin kin]

end Dependencies

namespace Engine

/-- Neither rendering nor the search for dependencies tells the two engines apart. -/
structure Interchangeable (engine other : Engine) : Prop where
  answer : ∀ (request : Request) evaluator evaluator',
    (request.answer other evaluator').1 = (request.answer engine evaluator).1
  graph : ∀ root, Dependencies.graph other root = Dependencies.graph engine root

theorem Twin.interchangeable {engine other : Engine} (twin : engine.Twin other) : Interchangeable engine other where
  answer request evaluator evaluator' := by
    rw [request.answer_eq_run, request.answer_eq_run]
    exact ((request.action_twin twin engine.config.maxDepth).2 { evaluator } { evaluator := evaluator' } rfl
      (Nat.zero_add _)).1
  graph := Dependencies.graph_kin twin.toKin

theorem sources_are_interchangeable (base : Engine) (entries : List (String × String))
    (registered shared registered' shared' : String → Bool) :
    Interchangeable (base.divided entries registered shared) (base.divided entries registered' shared') ∧
      Interchangeable (base.preloaded entries) (base.divided entries registered shared) := by
  have first := (base.divided_twin entries registered shared).interchangeable
  have second := (base.divided_twin entries registered' shared').interchangeable
  refine ⟨⟨fun request evaluator evaluator' => ?_, fun root => ?_⟩, first⟩
  · rw [first.answer request evaluator evaluator, second.answer request evaluator evaluator']
  · rw [first.graph, second.graph]

end Engine
end Stencil
