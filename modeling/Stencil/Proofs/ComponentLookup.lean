import Stencil.Proofs.DependencyCover
import Stencil.Proofs.LiteralArguments

/-! The walk along the references looks components up by rules of its own, but comes to what a rendering comes to:
the same definition under the same name. Only the target of an adapter is looked up as it stands, while a rendering
expands its alias first. -/

namespace Stencil.Dependencies
open Template Render

variable {engine : Engine}

/-- Nothing that the engine has goes by a name that an alias could stand in. -/
def Unmarked (engine : Engine) : Prop :=
  ∀ name, Config.aliasMark <:+: name.toList → engine.component? name = none ∧ engine.template? name = none

/-- Whether a component or a template goes by the name. -/
def defines (engine : Engine) (name : String) : Bool :=
  (engine.component? name).isSome || (engine.template? name).isSome

/-- The lookup finds what a rendering comes to by the reference, whatever went before: a definition of the same kind,
and under the first of the names tried by the lookup that has one. -/
def FoundAlike (engine : Engine) (reference : String) (lookup : Lookup) : Prop :=
  ∀ session : Session engine, ∃ reached, (component? reference session).1 = .ok reached ∧
    find engine lookup.1 lookup.2 = .ofReached reached ∧
    (engine.config.candidates lookup.1).find? (defines engine) = reached.map Prod.fst

theorem find?_defines (names : List String) :
    names.find? (defines engine) = (engine.firstComponent? names).map Prod.fst := by
  induction names with
  | nil => rfl
  | cons name names ih =>
    rw [List.find?_cons, Engine.firstComponent?, ih]
    unfold defines
    cases engine.component? name with
    | some component => rfl
    | none => cases engine.template? name <;> rfl

/-- Both try the same names when the rendering expands the reference to the name of the lookup. -/
theorem foundAlike_of_reached {reference name : String}
    (reached : engine.reached? reference = engine.firstComponent? (engine.config.candidates name)) :
    FoundAlike engine reference (name, .component) := by
  intro session
  refine ⟨_, component?_fst reference session, ?_, ?_⟩
  · rw [reached]
    exact (if_pos rfl).trans (findComponent_eq _)
  · rw [reached]
    exact find?_defines _

theorem marked_of_unknown {reference short : String} (unknown : engine.config.expand reference = .unknown short) :
    Config.aliasMark <:+: reference.toList := by
  unfold Config.expand at unknown
  split at unknown
  · cases unknown
  next before after cut => exact ⟨before, after, (Text.cutFirst?_eq_append cut).symm⟩

theorem marked_of_candidate {name candidate : String} (marked : Config.aliasMark <:+: name.toList)
    (mem : candidate ∈ engine.config.candidates name) : Config.aliasMark <:+: candidate.toList := by
  unfold Config.candidates at mem
  dsimp only at mem
  split at mem
  · rwa [List.mem_singleton.1 mem]
  · rcases List.mem_pair.1 mem with rfl | rfl
    · exact marked
    · rw [String.toList_append]
      exact marked.trans (List.suffix_append _ _).isInfix

theorem firstComponent?_none {names : List String}
    (absent : ∀ name ∈ names, engine.component? name = none ∧ engine.template? name = none) :
    engine.firstComponent? names = none := by
  induction names with
  | nil => rfl
  | cons name names ih =>
    obtain ⟨component, template⟩ := absent name List.mem_cons_self
    rw [Engine.firstComponent?, component, template]
    exact ih fun other later => absent other (List.mem_cons_of_mem _ later)

/-- What has an unknown alias is found nowhere, not even as it stands. -/
theorem unknown_missing (unmarked : Unmarked engine) {reference short : String}
    (unknown : engine.config.expand reference = .unknown short) :
    engine.reached? reference = engine.firstComponent? (engine.config.candidates reference) := by
  have marked := marked_of_unknown unknown
  rw [firstComponent?_none fun _ mem => unmarked _ (marked_of_candidate marked mem), Engine.reached?, unknown]

theorem reference_foundAlike (unmarked : Unmarked engine) (reference : String) :
    FoundAlike engine reference (expanded engine reference, .component) := by
  apply foundAlike_of_reached
  cases expansion : engine.config.expand reference with
  | plain => simp only [Engine.reached?, expanded, expansion]
  | expanded name => simp only [Engine.reached?, expanded, expansion]
  | unknown short => simpa only [expanded, expansion] using unknown_missing unmarked expansion

theorem target_foundAlike (unmarked : Unmarked engine) {target : String}
    (unaliased : ∀ name, engine.config.expand target ≠ .expanded name) :
    FoundAlike engine target (target, .component) := by
  apply foundAlike_of_reached
  cases expansion : engine.config.expand target with
  | plain => simp only [Engine.reached?, expansion]
  | expanded name => exact absurd expansion (unaliased name)
  | unknown short => exact unknown_missing unmarked expansion

/-- Where the walk goes on to a component, be it one that a source names in quotes or the target of an adapter, it
finds what a rendering comes to. The target must not have an alias that stands for something. -/
theorem components_are_found_alike (unmarked : Unmarked engine) (lookup : Lookup) :
    (∀ resolved template, find engine lookup.1 lookup.2 = .source resolved template →
      ∀ name, (.component, name) ∈ references template.source →
        (expanded engine name, .component) ∈ ahead engine (edgesOf engine resolved template) lookup ∧
          FoundAlike engine name (expanded engine name, .component)) ∧
    (∀ target, find engine lookup.1 lookup.2 = .forward target →
      (∀ edges, ahead engine edges lookup = [(target, .component)]) ∧
        ((∀ name, engine.config.expand target ≠ .expanded name) →
          FoundAlike engine target (target, .component))) := by
  constructor
  · intro resolved template found name named
    have edge : ⟨resolved, .component, expanded engine name⟩ ∈ edgesOf engine resolved template :=
      List.mem_map.2 ⟨(.component, name), named, rfl⟩
    refine ⟨?_, reference_foundAlike unmarked name⟩
    simp only [ahead, found]
    exact List.mem_map.2 ⟨_, List.mem_filter.2 ⟨edge, decide_eq_true rfl⟩, rfl⟩
  · intro target found
    exact ⟨fun edges => by simp only [ahead, found], target_foundAlike unmarked⟩

/-! An alias that leads to a component, once from a source and once from an adapter. -/

namespace Signpost

def page : String := "@component('ui::button')"

def signpost : Engine where
  config := { aliases := [("ui", "widgets")] }
  templates := [("components.button", .parse "components.button" "B"), ("page", .parse "page" page),
    ("widgets.button", .parse "widgets.button" "W")]
  components := [("aliased", .adapter "ui::button" Instance.props), ("plain", .adapter "button" Instance.props)]

theorem references_page : references page = [(.component, "ui::button")] := by cbv

theorem unmarked : Unmarked signpost := by
  intro name marked
  have apart (other : String) (clean : ¬ Config.aliasMark <:+: other.toList) : name ≠ other := by
    rintro rfl
    exact clean marked
  constructor
  · simp [signpost, Engine.component?, Fields.find?, apart "aliased" (by decide), apart "plain" (by decide)]
  · simp [signpost, Engine.template?, Engine.load?, Fields.find?, apart "components.button" (by decide),
      apart "page" (by decide), apart "widgets.button" (by decide)]

theorem expand_alias : signpost.config.expand "ui::button" = .expanded "widgets.button" := by cbv

theorem expand_plain : signpost.config.expand "button" = .plain := by cbv

theorem button_is_found_alike : Unmarked signpost ∧
    (expanded signpost "ui::button", .component) = ("widgets.button", ReferenceKind.component) ∧
    FoundAlike signpost "ui::button" (expanded signpost "ui::button", .component) ∧
    FoundAlike signpost "button" ("button", .component) := by
  have sought := components_are_found_alike unmarked ("page", .inclusion)
  have passed := components_are_found_alike unmarked ("plain", .component)
  have unaliased (name : String) : signpost.config.expand "button" ≠ .expanded name := by
    rw [expand_plain]
    nofun
  refine ⟨unmarked, by rw [expanded, expand_alias], ?_, (passed.2 "button" rfl).2 unaliased⟩
  exact (sought.1 "page" (.parse "page" page) rfl "ui::button" (by simp [Template.parse, references_page])).2

/-- A rendering expands the alias of the target of an adapter, and the walk does not. -/
theorem target_is_overlooked : Unmarked signpost ∧ find signpost "aliased" .component = .forward "ui::button" ∧
    (∀ session : Session signpost, (component? "ui::button" session).1 =
      .ok (some ("widgets.button", .fragment (.parse "widgets.button" "W")))) ∧
    find signpost "ui::button" .component = .missing ∧
    ¬ FoundAlike signpost "ui::button" ("ui::button", .component) := by
  have reached : signpost.reached? "ui::button" = some ("widgets.button", .fragment (.parse "widgets.button" "W")) := by
    have tried : signpost.config.candidates "widgets.button" = ["widgets.button", "components.widgets.button"] := by cbv
    simp only [Engine.reached?, expand_alias, tried]
    rfl
  have missing : find signpost "ui::button" .component = .missing := rfl
  have comes (session : Session signpost) := (component?_fst "ui::button" session).trans (congrArg _ reached)
  refine ⟨unmarked, rfl, comes, missing, fun alike => ?_⟩
  obtain ⟨_, given, found, -⟩ := alike {}
  cases (comes {}).symm.trans given
  cases missing.symm.trans found

end Signpost

end Stencil.Dependencies
