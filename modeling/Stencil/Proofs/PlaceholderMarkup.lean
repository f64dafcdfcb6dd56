import Stencil.Proofs.DependencyCover
import Stencil.Proofs.PrintedData
import Stencil.Proofs.SourceCharacters

/-! Which markup a page may have whose source has none. Every text from the data is escaped on its way into
the output, so what is left are the comments that stand for what could not be rendered, and the names in them. -/

namespace Stencil

/-- Neither opens nor closes a tag or a comment. -/
def Mild (text : String) : Prop := '<' ∉ text.toList ∧ '>' ∉ text.toList

instance (text : String) : Decidable (Mild text) := inferInstanceAs (Decidable (_ ∧ _))

namespace Mild

theorem of_subset {text source : String} (mild : Mild source) (subset : text.toList ⊆ source.toList) : Mild text :=
  ⟨fun mem => mild.1 (subset mem), fun mem => mild.2 (subset mem)⟩

theorem of_flatMap {write : Char → List Char} (mild : ∀ c, '<' ∉ write c ∧ '>' ∉ write c) (text : List Char) :
    Mild (String.ofList (text.flatMap write)) := by
  unfold Mild
  simp only [String.toList_ofList, List.mem_flatMap, not_exists, not_and]
  exact ⟨fun c _ => (mild c).1, fun c _ => (mild c).2⟩

theorem escape (text : String) : Mild (Html.escape text) := by
  apply of_flatMap
  intro c
  unfold Html.entity
  split
  case h_6 other other' _ _ =>
    simp only [List.mem_singleton]
    exact ⟨fun same => other same.symm, fun same => other' same.symm⟩
  all_goals decide

theorem inert (text : String) : Mild (Directive.inert text) := by
  apply of_flatMap
  intro c
  unfold Directive.inertChar
  split
  case h_5 other other' _ _ =>
    simp only [List.mem_singleton]
    exact ⟨fun same => other same.symm, fun same => other' same.symm⟩
  all_goals decide

end Mild

namespace Query

variable {α β : Type}

/-- Whatever the answers are, the query comes to one of these results. -/
def Ends (allowed : α → Prop) : Query α → Prop
  | .done result => allowed result
  | .evaluate _ next => ∀ value, (next value).Ends allowed

theorem Ends.bind {allowed : β → Prop} {query : Query α} {next : α → Query β} (rest : ∀ result, (next result).Ends allowed) :
    (query >>= next).Ends allowed := by
  induction query with
  | done result => exact rest result
  | evaluate text further ih => exact ih

theorem Ends.resultBy {allowed : α → Prop} {query : Query α} (ends : query.Ends allowed) (expression : String → Value) :
    allowed (query.resultBy expression) := by
  induction query with
  | done result => exact ends
  | evaluate text next ih => exact ih _ (ends _)

end Query

namespace Directive

/-- A text that a directive comes to has no markup. -/
def Tame (result : Except DirectiveError String) : Prop := ∀ text, result = .ok text → Mild text

theorem tame_ok {text : String} (mild : Mild text) : Tame (.ok text) := by
  rintro _ ⟨⟩
  exact mild

theorem tame_error (error : DirectiveError) : Tame (.error error) := fun _ same => by cases same

theorem json_tame (call : Call) : (json call).Ends Tame := by
  apply Query.Ends.bind
  intro result
  cases result with
  | error => exact tame_error _
  | ok value => exact .bind fun _ => tame_ok (.inert _)

theorem classList_tame (call : Call) : (classList call).Ends Tame := by
  apply Query.Ends.bind
  intro result
  cases result with
  | error => exact tame_error _
  | ok value =>
    dsimp only
    split
    · exact tame_ok (.escape _)
    · exact tame_error _

theorem date_tame (now : Calendar.Moment) (call : Call) : (date now call).Ends Tame := by
  apply Query.Ends.bind
  intro value
  apply Query.Ends.bind
  intro pattern
  dsimp only
  split
  · exact tame_error _
  · split
    · exact tame_ok (.escape _)
    · exact tame_error _

/-- The directives of every engine print no markup, and neither do their names. -/
theorem builtin_tame {now : Calendar.Moment} {name : String} {handler : Handler}
    (found : (builtins now).find? name = some handler) : Mild name ∧ ∀ call, (handler call).Ends Tame := by
  simp only [builtins, Fields.find?] at found
  split at found
  next same =>
    cases found
    exact ⟨same ▸ by decide, classList_tame⟩
  split at found
  next same =>
    cases found
    exact ⟨same ▸ by decide, date_tame now⟩
  split at found
  next same =>
    cases found
    exact ⟨same ▸ by decide, json_tame⟩
  · cases found

end Directive

namespace Render
open Template Dependencies

/-- What a comment of the engine says before the name. -/
def problems : List String := ["include not found", "component not found", "component error", "directive error"]

/-- Text without markup and comments of the engine. A name in a comment has no markup or is one of those named. -/
inductive Interleaved (named : String → Prop) : String → Prop where
  | mild {text : String} (mild : Mild text) : Interleaved named text
  | placeholder {problem name : String} (known : problem ∈ problems) (fits : Mild name ∨ named name) :
      Interleaved named (comment problem name)
  | append {first second : String} (before : Interleaved named first) (after : Interleaved named second) :
      Interleaved named (first ++ second)

/-- A comment of the engine whose name has no markup. -/
def Placeholder (text : String) : Prop := ∃ problem ∈ problems, ∃ name, Mild name ∧ text = comment problem name

/-- No sign of markup stands anywhere but at the ends of the comments of the engine. -/
structure Guarded (text : String) : Prop where
  opens : ∀ front back, text.toList = front ++ '<' :: back → ∃ own, Placeholder own ∧ own.toList <+: '<' :: back
  closes : ∀ front back, text.toList = front ++ '>' :: back → ∃ own, Placeholder own ∧ own.toList <:+ front ++ ['>']

theorem comment_toList (problem name : String) : ∃ inside, (comment problem name).toList = '<' :: (inside ++ ['>']) ∧
    ∀ c ∈ inside, c ∈ problem.toList ∨ c ∈ name.toList ∨ c ∈ ['!', '-', ' ', ':'] := by
  refine ⟨"!-- ".toList ++ problem.toList ++ ": ".toList ++ name.toList ++ " --".toList, ?_, fun c mem => ?_⟩
  · unfold comment
    simp only [String.toList_append, List.append_assoc]
    rfl
  · have marks : "!-- ".toList ++ ": ".toList ++ " --".toList ⊆ ['!', '-', ' ', ':'] := by decide
    obtain ⟨first, second⟩ := List.append_subset.1 marks
    obtain ⟨opening, colon⟩ := List.append_subset.1 first
    simp only [List.mem_append] at mem
    rcases mem with (((mem | mem) | mem) | mem) | mem
    · exact .inr (.inr (opening mem))
    · exact .inl mem
    · exact .inr (.inr (colon mem))
    · exact .inr (.inl mem)
    · exact .inr (.inr (second mem))

namespace Guarded

theorem of_mild {text : String} (mild : Mild text) : Guarded text where
  opens _ _ same := absurd (same ▸ List.mem_append_right _ List.mem_cons_self) mild.1
  closes _ _ same := absurd (same ▸ List.mem_append_right _ List.mem_cons_self) mild.2

/-- A comment has its signs at its ends only. -/
theorem of_placeholder {problem name : String} (known : problem ∈ problems) (mild : Mild name) :
    Guarded (comment problem name) := by
  obtain ⟨inside, whole, drawn⟩ := comment_toList problem name
  have quiet : ∀ problem ∈ problems, Mild problem := by decide
  have signs : ∀ c ∈ ['!', '-', ' ', ':'], c ≠ '<' ∧ c ≠ '>' := by simp
  have other (c : Char) (mem : c ∈ inside) : c ≠ '<' ∧ c ≠ '>' := by
    rcases drawn c mem with there | there | there
    · exact ⟨fun same => (quiet _ known).1 (same ▸ there), fun same => (quiet _ known).2 (same ▸ there)⟩
    · exact ⟨fun same => mild.1 (same ▸ there), fun same => mild.2 (same ▸ there)⟩
    · exact signs c there
  have own : Placeholder (comment problem name) := ⟨problem, known, name, mild, rfl⟩
  constructor
  · intro front back same
    cases front with
    | nil => exact ⟨_, own, same ▸ List.prefix_refl _⟩
    | cons c front =>
      rw [whole] at same
      have later : '<' ∈ inside ++ ['>'] := (List.cons.inj same).2 ▸ List.mem_append_right _ List.mem_cons_self
      rcases List.mem_append.1 later with mem | mem
      · exact absurd rfl (other _ mem).1
      · exact absurd (List.mem_singleton.1 mem) (by decide)
  · intro front back same
    refine ⟨_, own, ?_⟩
    rcases List.eq_nil_or_concat back with rfl | ⟨back, c, rfl⟩
    · exact same ▸ List.suffix_refl _
    · rw [whole] at same
      have before : '<' :: inside = front ++ '>' :: back := by
        have split : ('<' :: inside) ++ ['>'] = (front ++ '>' :: back) ++ [c] := by simpa using same
        exact (List.append_inj' split rfl).1
      have earlier : '>' ∈ '<' :: inside := before ▸ List.mem_append_right _ List.mem_cons_self
      rcases List.mem_cons.1 earlier with impossible | mem
      · exact absurd impossible (by decide)
      · exact absurd rfl (other _ mem).2

theorem append {first second : String} (before : Guarded first) (after : Guarded second) : Guarded (first ++ second) := by
  constructor
  · intro front back same
    rw [String.toList_append] at same
    rcases List.append_eq_append_iff.1 same with ⟨more, rfl, later⟩ | ⟨more, earlier, rest⟩
    · exact after.opens more back later
    · cases more with
      | nil => exact after.opens [] back (by simpa using rest.symm)
      | cons c more =>
        obtain ⟨rfl, rfl⟩ := List.cons.inj rest
        obtain ⟨own, known, inside⟩ := before.opens front more earlier
        exact ⟨own, known, inside.trans (List.prefix_append (_ :: more) _)⟩
  · intro front back same
    rw [String.toList_append] at same
    rcases List.append_eq_append_iff.1 same with ⟨more, rfl, later⟩ | ⟨more, earlier, rest⟩
    · obtain ⟨own, known, inside⟩ := after.closes more back later
      exact ⟨own, known, inside.trans (by rw [List.append_assoc]; exact List.suffix_append _ _)⟩
    · cases more with
      | nil =>
        obtain ⟨own, known, inside⟩ := after.closes [] back (by simpa using rest.symm)
        exact ⟨own, known, inside.trans (List.suffix_append _ _)⟩
      | cons c more =>
        obtain ⟨rfl, rfl⟩ := List.cons.inj rest
        exact before.closes front more earlier

end Guarded

namespace Interleaved
variable {named : String → Prop}

/-- Where no name has markup, the comments are all there is of it. -/
theorem guarded (quiet : ∀ name, named name → Mild name) {text : String} (interleaved : Interleaved named text) :
    Guarded text := by
  induction interleaved with
  | mild mild => exact .of_mild mild
  | placeholder known fits => exact .of_placeholder known (fits.elim id (quiet _))
  | append _ _ ih ih' => exact ih.append ih'

theorem escaped {value : Value} (trusts : value.Trusts (Interleaved named)) : Interleaved named (Render.escaped value) := by
  cases value with
  | safe text => exact Value.Trusts.safe.1 trusts
  | _ => exact .mild (.escape _)

end Interleaved

section Scopes
variable {trusted : String → Prop} {scope : Scope} (bound : scope.Trusts trusted)
include bound

theorem trusts_within {fields : Fields Value} (all : ∀ field ∈ fields, field.2.Trusts trusted) :
    (scope.childWith fields).Trusts trusted := by
  intro name value found
  rw [Scope.get?_childWith] at found
  rcases Option.or_eq_some_iff.1 found with here | ⟨_, outside⟩
  · exact Value.Trusts.find? all here
  · exact bound name value outside

theorem trusts_insert (name : String) {value : Value} (trusts : value.Trusts trusted) :
    (scope.insert name value).Trusts trusted := by
  intro other found' found
  rw [Scope.get?_insert] at found
  split at found
  · cases found
    exact trusts
  · exact bound other found' found

theorem trusts_slots {contents : Fields Value} (all : ∀ field ∈ contents, field.2.Trusts trusted) :
    (bindSlots scope contents).Trusts trusted := by
  unfold bindSlots
  refine trusts_insert ?_ "slots" (Value.Trusts.object.2 all)
  induction contents generalizing scope with
  | nil => exact bound
  | cons field contents ih =>
    obtain ⟨name, content⟩ := field
    obtain ⟨here, others⟩ := List.forall_mem_cons.1 all
    apply ih _ others
    dsimp only
    split
    · exact trusts_insert (trusts_insert bound "slot" here) "content" here
    · exact trusts_insert bound name here

end Scopes

/-- A source without markup and without raw interpolations. -/
structure Quiet (source : String) : Prop where
  mild : Mild source
  escaped : ¬ rawMarks.1 <:+: source.toList

/-- The names that the node may have in a comment are mild or among those named, and the body of a component makes
no raw interpolation where its parts meet. -/
structure Careful (engine : Engine) (named : String → Prop) (node : Node) : Prop where
  inclusion : ∀ span args, node = .inclusion span args → ∀ scope name, engine.layoutName scope args = .ok name →
    Mild name ∨ named name
  call : ∀ span args defaultSlot slots, node = .component span args defaultSlot slots → ∀ scope,
    Mild (nameIn scope ((Argument.list args).headD "")) ∨ named (nameIn scope ((Argument.list args).headD ""))
  unglued : ∀ span args defaultSlot slots, node = .component span args defaultSlot slots →
    ¬ rawMarks.1 <:+: defaultSlot.toList

/-- A node that prints no markup of its own but in comments. -/
structure Harmless (engine : Engine) (named : String → Prop) (node : Node) : Prop extends Careful engine named node where
  text : ∀ span text, node = .text span text → Mild text
  directive : ∀ span name args raw, node = .directive span name args raw → Mild raw
  echo : ∀ span expression, node ≠ .echo span expression false

section Sources
variable {engine : Engine} {named : String → Prop}

theorem Harmless.of_quiet {source : String} (quiet : Quiet source) {node : Node} (inside : Inside (read source).1 node)
    (careful : Careful engine named node) : Harmless engine named node where
  toCareful := careful
  text := by
    rintro span text rfl
    exact quiet.mild.of_subset ((drawn_of_read inside).verbatim text (List.mem_singleton_self _))
  directive := by
    rintro span name args raw rfl
    exact quiet.mild.of_subset ((drawn_of_read inside).verbatim raw (List.mem_singleton_self _))
  echo span expression same := quiet.escaped ((drawn_of_read inside).raw span expression same)

theorem holds_of_firstComponent? {names : List String} {name : String} {body : Template}
    (found : engine.firstComponent? names = some (name, .fragment body)) : Holds engine body := by
  induction names with
  | nil => cases found
  | cons candidate names ih =>
    unfold Engine.firstComponent? at found
    split at found
    next registered =>
      cases found
      exact .component registered
    next =>
      split at found
      next template =>
        cases found
        exact .template template
      next => exact ih found

theorem holds_of_reached? {reference name : String} {body : Template}
    (found : engine.reached? reference = some (name, .fragment body)) : Holds engine body := by
  unfold Engine.reached? at found
  split at found
  · exact holds_of_firstComponent? found
  · exact holds_of_firstComponent? found
  · cases found

/-- All templates have been read from sources without markup and without raw interpolations. -/
def QuietSources (engine : Engine) : Prop :=
  ∀ template, Holds engine template → template.nodes = (read template.source).1 ∧ Quiet template.source

/-- What a quiet source brings in stands in a quiet source again. -/
theorem harmless_throughout (sources : QuietSources engine) {source : String} (quiet : Quiet source) {node : Node}
    (mem : node ∈ (read source).1) (careful : Throughout engine (Careful engine named) node) :
    Throughout engine (Harmless engine named) node := by
  let among (node : Node) : Prop :=
    (∃ source, Quiet source ∧ Inside (read source).1 node) ∧ Throughout engine (Careful engine named) node
  have held {template : Template} (holds : Holds engine template) {node : Node} (mem : node ∈ template.nodes) :
      ∃ source, Quiet source ∧ Inside (read source).1 node :=
    ⟨template.source, (sources template holds).2, .here ((sources template holds).1 ▸ mem)⟩
  refine @Throughout.of_closed engine among _ ?_ ?_ node ⟨⟨source, quiet, .here mem⟩, careful⟩
  · rintro outer inner ⟨⟨source, quiet, inside⟩, careful⟩ brings
    refine ⟨?_, careful.brought brings⟩
    have drawn := drawn_of_read inside
    cases brings with
    | child mem => exact ⟨source, quiet, inside.child mem⟩
    | inclusion _ found mem | extension _ found mem => exact held (.template found) mem
    | component reached mem => exact held (holds_of_reached? reached) mem
    | unnamed mem =>
      have mild := quiet.mild.of_subset (drawn.verbatim _ (List.mem_singleton_self _))
      exact ⟨_, ⟨mild, careful.here.unglued _ _ _ _ rfl⟩, .here mem⟩
    | slot there mem =>
      have piece := drawn.slots _ there
      exact ⟨_, ⟨quiet.mild.of_subset piece.subset, fun mark => quiet.escaped (mark.trans piece)⟩, .here mem⟩
  · rintro node ⟨⟨source, quiet, inside⟩, careful⟩
    exact .of_quiet quiet inside careful.here

end Sources

section Laws
variable {engine : Engine} {named : String → Prop}

/-- One rendering, of which nothing varies. -/
def guarding (engine : Engine) (named : String → Prop) : Variation Unit engine where
  globals _ := engine.globals
  trusted := Interleaved named
  prints texts := Interleaved named (texts ())
  sees scopes := (scopes ()).Trusts (Interleaved named)
  holds _ texts := Interleaved named (texts ())
  node := Throughout engine (Harmless engine named)

theorem value_trusts {scope : Scope} (bound : scope.Trusts (Interleaved named)) (text : String) :
    (scope.value text).Trusts (Interleaved named) :=
  Evaluator.evaluate_fst scope text .empty ▸ Evaluator.evaluate_trusts bound text .empty

theorem argument_trusts {scope : Scope} (bound : scope.Trusts (Interleaved named)) (text : String) :
    (scope.argument text).Trusts (Interleaved named) :=
  Evaluator.argument_fst scope text .empty ▸ Evaluator.read_trusts bound (Argument.read text.toList) .empty

theorem directive_guarded {now : Calendar.Moment} (builtin : engine.directives = Directive.builtins now) (name : String)
    {raw : String} (mild : Mild raw) (args : Option String) (scopes : Unit → Scope) :
    Uniform (guarding engine named).prints fun i =>
      (Render.directive name args raw (scopes i) : Render (engine.sharing ((guarding engine named).globals i)) String) := by
  unfold Render.directive
  simp only [Engine.directives_sharing]
  cases found : engine.directives.find? name with
  | none => exact .pure (.mild mild)
  | some handler =>
    rw [builtin] at found
    obtain ⟨known, tame⟩ := Directive.builtin_tame found
    apply Uniform.bind (.evaluating fun i evaluator =>
      Query.run_fst (scopes i) (handler ⟨name, args.getD "", scopes i⟩) evaluator)
    rintro _ rfl
    obtain ⟨result, given⟩ : ∃ result, ∀ i, (handler ⟨name, args.getD "", scopes i⟩).resultBy (scopes i).value = result :=
      ⟨(handler ⟨name, args.getD "", scopes ()⟩).resultBy (scopes ()).value, fun _ => rfl⟩
    have mild := (tame ⟨name, args.getD "", scopes ()⟩).resultBy (scopes ()).value
    simp only [given] at mild ⊢
    cases result with
    | ok text => exact .pure (.mild (mild text rfl))
    | error => exact .pure (.placeholder (by decide) (.inl known))

theorem guarding_lawful (fragmentary : engine.Fragmentary) {now : Calendar.Moment}
    (builtin : engine.directives = Directive.builtins now) (shared : engine.globals.Trusts (Interleaved named)) :
    (guarding engine named).Lawful where
  nothing := .mild (by decide)
  append := .append
  escaped := .escaped
  shared := shared
  within seen all := trusts_within seen all
  insert name _ seen trusts := trusts_insert seen name trusts
  slots seen held := trusts_slots seen fun field mem => by
    obtain ⟨part, there, rfl⟩ := List.mem_map.1 mem
    exact Value.Trusts.safe.2 (held part there)
  children within inner mem := within.brought (.child mem)
  evaluated _ text _ _ seen := ⟨_, value_trusts seen text, fun _ => rfl⟩
  given _ text _ _ seen := ⟨_, argument_trusts seen text, fun _ => rfl⟩
  text within := .mild (within.here.text _ _ rfl)
  echo := by
    intro span expression escape scopes within seen
    cases escape with
    | true => exact .escaped (value_trusts seen expression)
    | false => exact absurd rfl (within.here.echo span expression)
  directive within _ := directive_guarded builtin _ (within.here.directive _ _ _ _ rfl) _ _
  inclusion := by
    intro span args scopes reference name within _ named resolved
    have layout : engine.layoutName (scopes ()) args = .ok name := (congrArg engine.resolved (named ())).trans resolved
    exact ⟨.placeholder (by decide) (within.here.inclusion _ _ rfl _ _ layout),
      fun template found node mem => within.brought (.inclusion layout found mem)⟩
  extension := by
    intro span args scopes reference name within _ named resolved template found node mem
    have layout : engine.layoutName (scopes ()) args = .ok name := (congrArg engine.resolved (named ())).trans resolved
    exact within.brought (.extension layout found mem)
  call := by
    intro span args defaultSlot slots scopes name within _ named
    have fits := within.here.call _ _ _ _ rfl (scopes ())
    rw [named ()] at fits
    refine ⟨.placeholder (by decide) fits, .placeholder (by decide) fits, fun resolved component reached => ?_⟩
    obtain ⟨body, rfl⟩ := fragmentary.reached reached
    rw [← named ()] at reached
    exact ⟨body, rfl, fun node mem => within.brought (.component reached mem)⟩
  filled within _ named entry mem := .inl ⟨within.read_again (named () ▸ mem), fun _ printed => printed⟩

end Laws

end Render

namespace Engine
open Render Template Dependencies

variable {engine : Engine}

/-- The sources that come with a request. -/
inductive Request.Written (engine : Engine) : Request → String → Prop where
  | inline (source : String) (data : Value) : Written engine (.inline source data) source
  | unnamed {reference : String} (unnamed : ¬ engine.Named reference) (data : Value) :
      Written engine (.render reference data) reference
  | slot {name : String} {props : Value} {slots : Fields String} {entry : String × String} (mem : entry ∈ slots) :
      Written engine (.component name props slots) entry.2

def Request.data : Request → Value
  | .render _ data | .inline _ data => data
  | .component _ props _ => props

/-- The nodes that a request begins with. -/
inductive Request.Opens (engine : Engine) : Request → Node → Prop where
  | render {reference : String} {data : Value} {node : Node} (opens : (Page.named reference).Opens engine node) :
      Opens engine (.render reference data) node
  | inline {source : String} {data : Value} {node : Node} (opens : (Page.inline source).Opens engine node) :
      Opens engine (.inline source data) node
  | component {name resolved : String} {props : Value} {slots : Fields String} {body : Template} {node : Node}
      (reached : engine.reached? name = some (resolved, .fragment body)) (mem : node ∈ body.nodes) :
      Opens engine (.component name props slots) node
  | slot {name : String} {props : Value} {slots : Fields String} {entry : String × String} {node : Node}
      (there : entry ∈ slots) (mem : node ∈ (read entry.2).1) : Opens engine (.component name props slots) node

/-- What is known of a request before it is rendered. -/
structure Request.Guards (request : Request) (engine : Engine) (named : String → Prop) : Prop where
  quiet : ∀ source, request.Written engine source → Quiet source
  careful : ∀ node, request.Opens engine node → Throughout engine (Careful engine named) node
  name : ∀ name props slots, request = .component name props slots → Mild name ∨ named name
  unmarked : request.data.safeTexts = []

/-- The markup of a text is that of the engine's comments and of the names in them. -/
structure Escapes (named : String → Prop) (text : String) : Prop where
  interleaved : Interleaved named text
  guarded : (∀ name, named name → Mild name) → Guarded text

section Requests
variable {named : String → Prop} {request : Request} (sources : QuietSources engine) (guards : request.Guards engine named)
include sources guards

theorem Request.Guards.harmless {node : Node} (opens : request.Opens engine node) :
    Throughout engine (Harmless engine named) node := by
  have careful := guards.careful node opens
  have held {template : Template} (holds : Holds engine template) (mem : node ∈ template.nodes) :
      Throughout engine (Harmless engine named) node := by
    obtain ⟨same, quiet⟩ := sources template holds
    exact harmless_throughout sources quiet (same ▸ mem) careful
  cases opens with
  | render opens =>
    cases opens with
    | named _ found mem => exact held (.template found) mem
    | unnamed unnamed mem => exact harmless_throughout sources (guards.quiet _ (.unnamed unnamed _)) mem careful
  | inline opens =>
    cases opens with
    | inline mem => exact harmless_throughout sources (guards.quiet _ (.inline _ _)) mem careful
  | component reached mem => exact held (holds_of_reached? reached) mem
  | slot there mem => exact harmless_throughout sources (guards.quiet _ (.slot there)) mem careful

theorem Request.Guards.uniform (fragmentary : engine.Fragmentary) (lawful : (guarding engine named).Lawful) :
    Uniform (guarding engine named).prints fun i => request.action (engine.sharing ((guarding engine named).globals i)) := by
  have globals : engine.globals.Trusts (Interleaved named) := lawful.shared
  have fields : ∀ field ∈ request.data.fields, field.2.Trusts (Interleaved named) := by
    have plain := guards.unmarked
    cases given : request.data with
    | object fields => exact Value.Trusts.object.1 (.of_unmarked (given ▸ plain))
    | _ => exact List.forall_mem_nil _
  have seen : (guarding engine named).sees fun _ => engine.globals.childWith request.data.fields :=
    trusts_within globals fields
  cases request with
  | render reference data =>
    exact page_uniform lawful (.named reference) (fun node opens => guards.harmless sources (.render opens)) seen
  | inline source data =>
    exact page_uniform lawful (.inline source) (fun node opens => guards.harmless sources (.inline opens)) seen
  | component name props slots =>
    have fits := guards.name name props slots rfl
    refine .onStack fun left => Variation.component_uniform (Variation.below_uniform lawful left)
      (.placeholder (by decide) fits) (.placeholder (by decide) fits) (fun resolved component reached => ?_) fields
      fun entry mem => .inl ⟨fun node inside => guards.harmless sources (.slot mem inside), fun _ printed => printed⟩
    obtain ⟨body, rfl⟩ := fragmentary.reached reached
    exact ⟨body, rfl, fun node mem => guards.harmless sources (.component reached mem)⟩

end Requests

/-- Data without marks puts no markup into a page whose sources have none, except through the names in the comments
for what has not been found or has failed. -/
theorem data_brings_no_markup (fragmentary : engine.Fragmentary) {now : Calendar.Moment}
    (builtin : engine.directives = Directive.builtins now) (sources : QuietSources engine)
    (shared : ∀ name value, engine.globals.get? name = some value → value.safeTexts = []) (named : String → Prop)
    (request : Request) (guards : request.Guards engine named) (evaluator : Evaluator) :
    (∃ text, (request.answer engine evaluator).1 = .ok text ∧ Escapes named text) ∨
      ∃ error, (request.answer engine evaluator).1 = .error (.failed error) := by
  have lawful : (guarding engine named).Lawful :=
    guarding_lawful fragmentary builtin fun name value found => .of_unmarked (shared name value found)
  rcases request_varies fragmentary (guards.uniform sources fragmentary lawful) with
    ⟨texts, printed, answers⟩ | ⟨error, fails⟩
  · exact .inl ⟨texts (), answers () evaluator, printed, fun mild => printed.guarded mild⟩
  · exact .inr ⟨error, fails () evaluator⟩

/-! The page whose component prints its slot, and one that names what it includes by a variable. -/

namespace Box

theorem quiet_framing : QuietSources (box framing) := by
  rintro template (⟨found⟩ | ⟨found⟩)
  · cases found
  · simp only [box, component?, Fields.find?] at found
    split at found
    · cases found
      exact ⟨rfl, by decide, by decide⟩
    · cases found

theorem framing_careful : ∀ node, (Page.inline page).Opens (box framing) node →
    Throughout (box framing) (Careful (box framing) fun _ => False) node := by
  have other {node : Node} (plain : use? node = none) : Careful (box framing) (fun _ => False) node := by
    refine ⟨?_, ?_, ?_⟩
    · rintro _ _ rfl
      cases plain
    · rintro _ _ _ _ rfl
      cases plain
    · rintro _ _ _ _ rfl
      cases plain
  refine throughout_framing ⟨nofun, ?_, ?_⟩ (other rfl) fun node mem => ?_
  · rintro _ _ _ _ same scope
    obtain ⟨_, rfl, _, _⟩ := Node.component.inj same
    have name : nameIn scope ((Argument.list "'box'").headD "") = "box" := by cbv
    rw [name]
    exact .inl (by decide)
  · rintro _ _ _ _ same
    obtain ⟨_, _, rfl, _⟩ := Node.component.inj same
    decide
  · rw [read_framing] at mem
    simp only [List.mem_cons, List.not_mem_nil, or_false] at mem
    rcases mem with rfl | rfl | rfl <;> exact other rfl

/-- Data with markup in it. -/
def marked : Value := .ofJson (.object [("x", .string "--><b>")])

theorem marked_guards : (Request.inline page marked).Guards (box framing) fun _ => False where
  quiet := by
    rintro _ ⟨⟩
    exact ⟨by decide, by decide⟩
  careful := by
    intro node opens
    cases opens with
    | inline opens => exact framing_careful node opens
  name := nofun
  unmarked := Value.ofJson_unmarked _

theorem framed_data_brings_no_markup : (box framing).Fragmentary ∧
    (box framing).directives = Directive.builtins moment ∧ QuietSources (box framing) ∧
    (∀ name value, (box framing).globals.get? name = some value → value.safeTexts = []) ∧
    (Request.inline page marked).Guards (box framing) (fun _ => False) ∧
    ∀ evaluator, (∃ text, ((Request.inline page marked).answer (box framing) evaluator).1 = .ok text ∧
        Escapes (fun _ => False) text) ∨
      ∃ error, ((Request.inline page marked).answer (box framing) evaluator).1 = .error (.failed error) :=
  ⟨fragmentary framing, rfl, quiet_framing, nofun, marked_guards,
    data_brings_no_markup (fragmentary framing) rfl quiet_framing nofun _ _ marked_guards⟩

end Box

namespace Sought

def empty : Engine := Engine.new {} Box.moment

def page : String := "@include(n)"

def data : Value := .ofJson (.object [("n", .string "--><b>")])

theorem tokenize_page : tokenize page = [⟨.directive "include" (some "n"), ⟨0, 11⟩⟩] := by cbv

theorem read_page : read page = ([.inclusion ⟨0, 11⟩ "n"], []) := by
  apply items_iff_read.1
  rw [tokenize_page]
  exact .leaf .inclusion .nil

theorem name_in : nameIn (empty.dataScope data) ((Argument.list "n").headD "") = "--><b>" := by
  have first : (Argument.list "n").headD "" = "n" := by cbv
  have quoted : Argument.stringLiteral? "n".toList = none := by cbv
  have parsed : Expr.parse (Text.trimmed "n") = .ok (.variable "n") :=
    Expr.parse_trimmed_name ⟨"n", by decide, by decide⟩
  have value : (empty.dataScope data).value "n" = .string "--><b>" := by
    rw [Scope.value_of_parse parsed]
    rfl
  unfold nameIn
  rw [first, quoted, Evaluator.evaluate_fst, value]
  rfl

theorem page_gives (left : Nat) : Gives (Render.source (levels empty left) page (empty.dataScope data))
    "<!-- include not found: --><b> -->" := by
  have resolved : empty.resolved "--><b>" = .ok "--><b>" := by cbv
  have parts : (Argument.list "n")[1]? = none := by cbv
  have named : Gives (Render.nameArgument (empty.dataScope data) ((Argument.list "n").headD "") : Render empty String) "--><b>" :=
    name_in ▸ nameArgument_run (empty.dataScope data) _
  have missing : Gives (Render.template? "--><b>" : Render empty _) none := .template? "--><b>"
  have found : Gives (Render.resolveName "--><b>" : Render empty String) "--><b>" := fun session =>
    ⟨session, (resolveName_run "--><b>" session).trans (congrArg (·, session) resolved), rfl⟩
  have printed : Gives (Render.node (levels empty left) [] (.inclusion ⟨0, 11⟩ "n") (empty.dataScope data))
      (comment "include not found" "--><b>") := by
    apply named.bind
    apply found.bind
    rw [parts]
    exact .bind (.pure []) (missing.bind (.pure _))
  exact .source read_page rfl (printed.nodes_cons .nodes_nil)

theorem not_guarded : ¬ Guarded "<!-- include not found: --><b> -->" := by
  intro guarded
  obtain ⟨own, ⟨problem, _, name, _, rfl⟩, rest, same⟩ :=
    guarded.opens "<!-- include not found: -->".toList "b> -->".toList (by decide)
  unfold comment at same
  simp only [String.toList_append, List.append_assoc] at same
  exact absurd (List.cons.inj (List.cons.inj same).2).1 (by decide)

/-- A name that comes from the data stands in the comment as it is. -/
theorem name_brings_markup : empty.Fragmentary ∧ empty.directives = Directive.builtins Box.moment ∧ QuietSources empty ∧
    Quiet page ∧ data.safeTexts = [] ∧ (∀ name value, empty.globals.get? name = some value → value.safeTexts = []) ∧
    ∃ text, (∀ evaluator, ((Request.inline page data).answer empty evaluator).1 = .ok text) ∧ ¬ Guarded text := by
  refine ⟨nofun, rfl, ?_, ⟨by decide, by decide⟩, Value.ofJson_unmarked _, nofun, _, fun evaluator => ?_, not_guarded⟩
  · rintro template (⟨found⟩ | ⟨found⟩) <;> cases found
  · obtain ⟨after, ran, _⟩ := page_gives 32 { evaluator }
    exact congrArg Prod.fst ran

end Sought
end Engine
end Stencil
