import Mathlib
import Stencil.Proofs.ComponentContainment
import Stencil.Proofs.ExpressionPassage
import Stencil.Proofs.PhraseReading
import Stencil.Proofs.RenderVariation

/-! A text that is only printed. Where it varies, what is printed varies in the places where it stands and
nowhere else: no rendered text is read again, neither as source nor as an expression. A slot that prints it
holds what it has printed as a value, so the variables that the slot is bound to must do no more than print
either. -/

namespace Stencil.Render
open Template

variable {engine : Engine} {globals : String → Scope}

/-- A text with another one standing in some places of it, escaped. -/
def Woven (texts : String → String) : Prop :=
  ∃ pieces : List String, pieces ≠ [] ∧ ∀ text, texts text = (Html.escape text).intercalate pieces

theorem intercalate_joined (text first second : String) (front back : List String) :
    text.intercalate (front ++ (first ++ second) :: back) =
      text.intercalate (front ++ [first]) ++ text.intercalate (second :: back) := by
  induction front with
  | nil =>
    rw [List.nil_append, List.nil_append, String.intercalate_singleton]
    cases back with
    | nil => rw [String.intercalate_singleton, String.intercalate_singleton]
    | cons piece back => simp only [String.intercalate_cons_cons, String.append_assoc]
  | cons piece front ih =>
    rw [List.cons_append, List.cons_append, String.intercalate_cons_of_ne_nil (by simp),
      String.intercalate_cons_of_ne_nil (by simp), ih]
    simp only [String.append_assoc]

namespace Woven

theorem fixed (text : String) : Woven fun _ => text := ⟨[text], nofun, fun _ => String.intercalate_singleton.symm⟩

theorem place : Woven Html.escape := by
  refine ⟨["", ""], nofun, fun text => ?_⟩
  rw [String.intercalate_cons_cons, String.intercalate_singleton, String.empty_append, String.append_empty]

theorem append {first second : String → String} (before : Woven first) (after : Woven second) :
    Woven fun text => first text ++ second text := by
  obtain ⟨pieces, some, same⟩ := before
  obtain ⟨pieces', some', same'⟩ := after
  obtain ⟨front, last, rfl⟩ := (List.eq_nil_or_concat pieces).resolve_left some
  obtain ⟨head, back, rfl⟩ := List.exists_cons_of_ne_nil some'
  refine ⟨front ++ (last ++ head) :: back, by simp, fun text => ?_⟩
  dsimp only
  rw [same, same', intercalate_joined, List.concat_eq_append]

end Woven

/-- The texts that a node evaluates for another purpose than to print their values. -/
def expressions (node : Node) : List String :=
  evaluated node ++ (given node).flatMap (fun text => (Argument.read text.toList).expressions) ++
    match node with
    | .directive _ _ args _ =>
      (Argument.list (args.getD "")).flatMap fun part => part :: (Argument.read part.toList).expressions
    | _ => []

/-- The variables that a slot is bound to. -/
def boundNames (name : String) : List String := if name = defaultSlotName then ["slot", "content"] else [name]

/-- How far a text spreads that is printed. -/
structure Spread where
  /-- The variable that has the text. -/
  varied : String
  /-- The variables that may hold what a slot has printed of it. -/
  content : String → Prop
  /-- Whether there are such slots. -/
  boxed : Prop
  /-- The object of all slots goes by a name of its own. -/
  apart : boxed → varied ≠ "slots" ∧ ¬ content "slots"

namespace Spread

variable (spread : Spread)

/-- The variables whose values may vary. -/
def Hides (name : String) : Prop := name = spread.varied ∨ spread.content name ∨ spread.boxed ∧ name = "slots"

/-- No variable that may vary is one of the expression. -/
def Free (text : String) : Prop := ∀ name, Mentions text name → ¬ spread.Hides name

/-- The expression is a variable that may vary, or one of the slots, as a whole. -/
inductive Whole (expression : String) (escape : Bool) : Prop where
  | alone {name : String} (parsed : Expr.parse (Text.trimmed expression) = .ok (.variable name))
      (known : name = spread.varied ∨ spread.content name) (escaped : name = spread.varied → escape = true)
  | slot {key : String} (parsed : Expr.parse (Text.trimmed expression) = .ok (.member (.variable "slots") key))
      (boxed : spread.boxed)
  | quoted {key : String}
      (parsed : Expr.parse (Text.trimmed expression) = .ok (.index (.variable "slots") (.literal (.string key))))
      (boxed : spread.boxed)

/-- What varies is printed by the node or is none of its business. -/
structure Prints (node : Node) : Prop where
  expressions : ∀ text ∈ expressions node, spread.Free text
  echo : ∀ span expression escape, node = .echo span expression escape →
    spread.Free expression ∨ spread.Whole expression escape

/-- Nothing that varies is any of the node's business. -/
structure Ignores (node : Node) : Prop where
  expressions : ∀ text ∈ expressions node, spread.Free text
  echo : ∀ span expression escape, node = .echo span expression escape → spread.Free expression

/-- What a variable is bound to. -/
inductive Shows (name : String) : (String → Option Value) → Prop where
  | fixed (value : Option Value) : Shows name fun _ => value
  | varied (same : name = spread.varied) : Shows name fun text => some (.string text)
  | content {texts : String → String} (known : spread.content name) (woven : Woven texts) :
      Shows name fun text => some (.safe (texts text))
  | slots {contents : Fields (String → String)} (boxed : spread.boxed) (same : name = "slots")
      (woven : ∀ part ∈ contents, Woven part.2) : Shows name fun text => some (.object (contentsUnder contents text))

def Sees (scopes : String → Scope) : Prop := ∀ name, spread.Shows name fun text => (scopes text).get? name

variable {spread}

theorem Shows.same {name : String} {bound : String → Option Value} (shows : spread.Shows name bound)
    (visible : ¬ spread.Hides name) (first second : String) : bound first = bound second := by
  cases shows with
  | fixed => rfl
  | varied same => exact absurd (.inl same) visible
  | content known => exact absurd (.inr (.inl known)) visible
  | slots boxed same => exact absurd (.inr (.inr ⟨boxed, same⟩)) visible

/-- A value as it is printed. -/
def shown (escape : Bool) (value : Value) : String := if escape then escaped value else value.display

theorem Shows.woven {name : String} {bound : String → Option Value} (shows : spread.Shows name bound)
    (known : name = spread.varied ∨ spread.content name) {escape : Bool} (escaped : name = spread.varied → escape = true) :
    Woven fun text => shown escape ((bound text).getD .null) := by
  cases shows with
  | fixed => exact .fixed _
  | varied same =>
    rw [escaped same]
    exact .place
  | content _ woven => cases escape <;> exact woven
  | slots boxed same =>
    obtain ⟨other, other'⟩ := spread.apart boxed
    rcases known with rfl | known
    · exact absurd same other
    · exact absurd (same ▸ known) other'

theorem find?_contentsUnder {ι : Type} (contents : Fields (ι → String)) (i : ι) (name : String) :
    Fields.find? (contentsUnder contents i) name = (contents.find? name).map fun texts => .safe (texts i) := by
  induction contents with
  | nil => rfl
  | cons part contents ih =>
    obtain ⟨other, texts⟩ := part
    change Fields.find? ((other, Value.safe (texts i)) :: contentsUnder contents i) name = _
    unfold Fields.find?
    split
    · rfl
    · exact ih

theorem Shows.slot_woven {bound : String → Option Value} (shows : spread.Shows "slots" bound) (boxed : spread.boxed)
    (key : String) (escape : Bool) :
    Woven fun text => shown escape (Expr.memberOf ((bound text).getD .null) key) := by
  obtain ⟨other, other'⟩ := spread.apart boxed
  cases shows with
  | fixed => exact .fixed _
  | varied same => exact absurd same.symm other
  | content known => exact absurd known other'
  | @slots contents _ _ woven =>
    have found (text : String) : Expr.memberOf (.object (contentsUnder contents text)) key =
        ((contents.find? key).map fun texts => Value.safe (texts text)).getD .null := by
      rw [← find?_contentsUnder]
      rfl
    simp only [Option.getD_some, found]
    cases there : contents.find? key with
    | none => exact .fixed (shown escape .null)
    | some texts => cases escape <;> exact woven _ (Fields.mem_of_find? there)

theorem Sees.value {scopes : String → Scope} (seen : spread.Sees scopes) {text : String} (free : spread.Free text) :
    ∃ value, ∀ given, (scopes given).value text = value :=
  ⟨(scopes "").value text, fun _ => Scope.value_congr fun name mentioned => (seen name).same (free name mentioned) _ _⟩

theorem Sees.argument {scopes : String → Scope} (seen : spread.Sees scopes) {text : String}
    (free : ∀ part ∈ (Argument.read text.toList).expressions, spread.Free part) :
    ∃ value, ∀ given, (scopes given).argument text = value := by
  refine ⟨(scopes "").argument text, fun given => Argument.valueBy_congr _ fun part mem => ?_⟩
  obtain ⟨value, same⟩ := seen.value (free part mem)
  rw [same, same]

theorem Sees.echo {scopes : String → Scope} (seen : spread.Sees scopes) {expression : String} {escape : Bool}
    (whole : spread.Whole expression escape) : Woven fun text => shown escape ((scopes text).value expression) := by
  cases whole with
  | @alone name parsed known escaped =>
    simp only [Scope.value_of_parse parsed, Expr.eval]
    exact (seen name).woven known escaped
  | @slot key parsed boxed =>
    simp only [Scope.value_of_parse parsed, Expr.eval]
    exact (seen "slots").slot_woven boxed key escape
  | @quoted key parsed boxed =>
    have same (text : String) : (scopes text).value expression =
        Expr.memberOf (((scopes text).get? "slots").getD .null) key := by
      rw [Scope.value_of_parse parsed, Expr.eval, Expr.eval, Expr.eval]
      cases ((scopes text).get? "slots").getD .null <;> rfl
    simp only [same]
    exact (seen "slots").slot_woven boxed key escape

/-- What a slot has printed either does not vary, or it may only be bound where it may vary. -/
def Holds (spread : Spread) (name : String) (texts : String → String) : Prop :=
  (∃ text, texts = fun _ => text) ∨
    spread.boxed ∧ Woven texts ∧ ∀ bound ∈ boundNames name, bound = "slots" ∨ spread.content bound

theorem Holds.woven {name : String} {texts : String → String} (holds : spread.Holds name texts) : Woven texts := by
  obtain ⟨text, rfl⟩ | ⟨_, woven, _⟩ := holds
  · exact .fixed text
  · exact woven

theorem Holds.shows {name : String} {texts : String → String} (holds : spread.Holds name texts) {bound : String}
    (mem : bound ∈ boundNames name) (other : bound ≠ "slots") :
    spread.Shows bound fun text => some (.safe (texts text)) := by
  obtain ⟨text, rfl⟩ | ⟨_, woven, known⟩ := holds
  · exact .fixed (some (.safe text))
  · exact .content ((known bound mem).resolve_left other) woven

section Scopes
variable {scopes : String → Scope}

theorem Sees.within (seen : spread.Sees scopes) (fields : Fields Value) :
    spread.Sees fun text => (scopes text).childWith fields := by
  intro name
  simp only [Scope.get?_childWith]
  cases fields.find? name with
  | none => exact seen name
  | some value => exact .fixed (some value)

theorem Sees.insert (seen : spread.Sees scopes) (name : String) (value : Value) :
    spread.Sees fun text => (scopes text).insert name value := by
  intro other
  simp only [Scope.get?_insert]
  split
  · exact .fixed (some value)
  · exact seen other

/-- The object of all slots is bound last, so until then its name is left out. -/
theorem shows_bound (seen : ∀ name, name ≠ "slots" → spread.Shows name fun text => (scopes text).get? name)
    {bound : String} {values : String → Value} (shows : bound ≠ "slots" → spread.Shows bound fun text => some (values text)) :
    ∀ name, name ≠ "slots" → spread.Shows name fun text => ((scopes text).insert bound (values text)).get? name := by
  intro name other
  simp only [Scope.get?_insert]
  split
  next same => exact same ▸ shows (same ▸ other)
  next => exact seen name other

theorem shows_contents {contents : Fields (String → String)} (held : ∀ part ∈ contents, spread.Holds part.1 part.2)
    (seen : ∀ name, name ≠ "slots" → spread.Shows name fun text => (scopes text).get? name) :
    ∀ name, name ≠ "slots" → spread.Shows name fun text =>
      ((contentsUnder contents text).foldl (fun scope (name, content) =>
        if name = defaultSlotName then (scope.insert "slot" content).insert "content" content
        else scope.insert name content) (scopes text)).get? name := by
  induction contents generalizing scopes with
  | nil => exact seen
  | cons part contents ih =>
    obtain ⟨name, texts⟩ := part
    obtain ⟨here, others⟩ := List.forall_mem_cons.1 held
    by_cases unnamed : name = defaultSlotName
    · have first := here.shows (by simp [boundNames, unnamed] : "slot" ∈ boundNames name)
      have second := here.shows (by simp [boundNames, unnamed] : "content" ∈ boundNames name)
      have both := shows_bound (shows_bound seen first) second
      simpa only [contentsUnder, List.map_cons, List.foldl_cons, if_pos unnamed] using ih others both
    · have named := here.shows (by simp [boundNames, unnamed] : name ∈ boundNames name)
      simpa only [contentsUnder, List.map_cons, List.foldl_cons, if_neg unnamed] using ih others (shows_bound seen named)

theorem Sees.slots (seen : spread.Sees scopes) {contents : Fields (String → String)}
    (held : ∀ part ∈ contents, spread.Holds part.1 part.2) :
    spread.Sees fun text => bindSlots (scopes text) (contentsUnder contents text) := by
  intro name
  unfold bindSlots
  simp only [Scope.get?_insert]
  by_cases all : name = "slots"
  · simp only [if_pos all]
    by_cases boxed : spread.boxed
    · exact .slots boxed all fun part mem => (held part mem).woven
    · have same (text : String) : contentsUnder contents text = contentsUnder contents "" := by
        apply List.map_congr_left
        rintro ⟨slot, texts⟩ mem
        obtain ⟨_, fixed⟩ := (held _ mem).resolve_right fun given => boxed given.1
        dsimp only at fixed ⊢
        rw [fixed]
      simp only [same]
      exact .fixed _
  · simp only [if_neg all]
    exact shows_contents held (fun name _ => seen name) name all

end Scopes

end Spread

/-- What a directive of every engine evaluates of its arguments. -/
def Reads (raw text : String) : Prop :=
  ∃ part ∈ Argument.list raw, text = part ∨ text ∈ (Argument.read part.toList).expressions

section Builtins
variable (call : Call) (index : Nat)

theorem value?_asks : (call.value? index).Asks (Reads call.raw) := by
  unfold Call.value?
  cases found : call.parts[index]? with
  | none => exact trivial
  | some part =>
    exact (Argument.evaluate_asks _ fun text mem => ⟨part, List.mem_of_getElem? found, .inr mem⟩).bind fun _ => trivial

theorem required_asks : (call.required index).Asks (Reads call.raw) := by
  apply (value?_asks call index).bind
  intro result
  cases result <;> exact trivial

theorem string?_asks : (call.string? index).Asks (Reads call.raw) := by
  unfold Call.string?
  cases found : call.parts[index]? with
  | none => exact trivial
  | some part =>
    dsimp only
    split
    · exact trivial
    · exact ⟨⟨part, List.mem_of_getElem? found, .inl rfl⟩, fun _ => trivial⟩

theorem json_asks : (Directive.json call).Asks (Reads call.raw) := by
  apply (required_asks call 0).bind
  intro result
  cases result with
  | error => exact trivial
  | ok value => exact (value?_asks call 1).bind fun _ => trivial

theorem classList_asks : (Directive.classList call).Asks (Reads call.raw) := by
  apply (required_asks call 0).bind
  intro result
  cases result with
  | error => exact trivial
  | ok value =>
    dsimp only
    split <;> exact trivial

theorem date_asks (now : Calendar.Moment) : (Directive.date now call).Asks (Reads call.raw) := by
  apply (value?_asks call 0).bind
  intro value
  apply (string?_asks call 1).bind
  intro pattern
  dsimp only
  split
  · exact trivial
  · split <;> exact trivial

end Builtins

/-- A directive of every engine reads its arguments, and looks at the scope only where it evaluates them. -/
theorem builtin_query {now : Calendar.Moment} {name : String} {handler : Handler}
    (found : (Directive.builtins now).find? name = some handler) (raw : String) :
    ∃ query, (∀ scope, handler ⟨name, raw, scope⟩ = query) ∧ query.Asks (Reads raw) := by
  simp only [Directive.builtins, Fields.find?] at found
  split at found
  · cases found
    exact ⟨Directive.classList ⟨name, raw, {}⟩, fun _ => rfl, classList_asks ⟨name, raw, {}⟩⟩
  split at found
  · cases found
    exact ⟨Directive.date now ⟨name, raw, {}⟩, fun _ => rfl, date_asks ⟨name, raw, {}⟩ now⟩
  split at found
  · cases found
    exact ⟨Directive.json ⟨name, raw, {}⟩, fun _ => rfl, json_asks ⟨name, raw, {}⟩⟩
  · cases found

/-- The first node brings in the second one, if the names that it evaluates come out right. -/
inductive Brings (engine : Engine) : Node → Node → Prop where
  | child {outer inner : Node} (mem : inner ∈ outer.children) : Brings engine outer inner
  | inclusion {span : Text.Span} {args name : String} {scope : Scope} {template : Template} {inner : Node}
      (named : engine.layoutName scope args = .ok name) (found : engine.template? name = some template)
      (mem : inner ∈ template.nodes) : Brings engine (.inclusion span args) inner
  | extension {span : Text.Span} {args name : String} {scope : Scope} {template : Template} {inner : Node}
      (named : engine.layoutName scope args = .ok name) (found : engine.template? name = some template)
      (mem : inner ∈ template.nodes) : Brings engine (.extension span args) inner
  | component {span : Text.Span} {args defaultSlot resolved : String} {slots : List Slot} {scope : Scope}
      {body : Template} {inner : Node}
      (reached : engine.reached? (nameIn scope ((Argument.list args).headD "")) = some (resolved, .fragment body))
      (mem : inner ∈ body.nodes) : Brings engine (.component span args defaultSlot slots) inner
  | unnamed {span : Text.Span} {args defaultSlot : String} {slots : List Slot} {inner : Node}
      (mem : inner ∈ (read defaultSlot).1) : Brings engine (.component span args defaultSlot slots) inner
  | slot {span : Text.Span} {args defaultSlot : String} {slots : List Slot} {slot : Slot} {inner : Node}
      (there : slot ∈ slots) (mem : inner ∈ (read slot.raw).1) : Brings engine (.component span args defaultSlot slots) inner

/-- Holds of a node and of all that it may bring in. -/
def Throughout (engine : Engine) (fits : Node → Prop) (outer : Node) : Prop :=
  ∀ inner, Relation.ReflTransGen (Brings engine) outer inner → fits inner

theorem Throughout.here {fits : Node → Prop} {node : Node} (throughout : Throughout engine fits node) : fits node :=
  throughout node .refl

theorem Throughout.brought {fits : Node → Prop} {outer inner : Node} (throughout : Throughout engine fits outer)
    (brings : Brings engine outer inner) : Throughout engine fits inner :=
  fun last path => throughout last (.head brings path)

theorem Throughout.of_closed {among fits : Node → Prop}
    (closed : ∀ outer inner, among outer → Brings engine outer inner → among inner) (fit : ∀ node, among node → fits node)
    {node : Node} (here : among node) : Throughout engine fits node := by
  intro last path
  apply fit
  induction path with
  | refl => exact here
  | tail _ brings ih => exact closed _ _ ih brings

theorem entry_of_slotTextsIn {scope : Scope} {slots : List Slot} {texts : Fields String} {entry : String × String}
    (mem : entry ∈ slotTextsIn scope texts slots) : entry ∈ texts ∨ ∃ slot ∈ slots, entry.2 = slot.raw := by
  induction slots generalizing texts with
  | nil => exact .inl mem
  | cons slot slots ih =>
    rcases ih mem with before | ⟨other, there, same⟩
    · rcases Fields.mem_insert before with rfl | before
      · exact .inr ⟨slot, List.mem_cons_self, rfl⟩
      · exact .inl before
    · exact .inr ⟨other, List.mem_cons_of_mem _ there, same⟩

theorem entry_of_unnamedTexts {defaultSlot : String} {entry : String × String} (mem : entry ∈ unnamedTexts defaultSlot) :
    entry = (defaultSlotName, defaultSlot) := by
  unfold unnamedTexts at mem
  split at mem
  · cases mem
  · exact List.mem_singleton.1 mem

/-- The text of a slot brings in what it is read as. -/
theorem Throughout.read_again {fits : Node → Prop} {span : Text.Span} {args defaultSlot : String} {slots : List Slot}
    (throughout : Throughout engine fits (.component span args defaultSlot slots)) {scope : Scope} {entry : String × String}
    (mem : entry ∈ slotTextsIn scope (unnamedTexts defaultSlot) slots) :
    ∀ node ∈ (read entry.2).1, Throughout engine fits node := by
  intro node inside
  rcases entry_of_slotTextsIn mem with unnamed | ⟨slot, there, same⟩
  · cases entry_of_unnamedTexts unnamed
    exact throughout.brought (.unnamed inside)
  · exact throughout.brought (.slot there (same ▸ inside))

namespace Spread

variable {spread : Spread}

/-- Nothing that varies is any business of the text or of what it may bring in. -/
def Clear (spread : Spread) (engine : Engine) (text : String) : Prop :=
  ∀ node ∈ (read text).1, Throughout engine spread.Ignores node

/-- The node only prints what varies, and a slot in which it may be printed is bound to variables of which the
same is known. -/
structure Covers (spread : Spread) (engine : Engine) (node : Node) : Prop extends spread.Prints node where
  slots : ∀ span args defaultSlot slots, node = .component span args defaultSlot slots →
    ∀ scope, ∀ entry ∈ slotTextsIn scope (unnamedTexts defaultSlot) slots, spread.Clear engine entry.2 ∨
      spread.boxed ∧ ∀ bound ∈ boundNames entry.1, bound = "slots" ∨ spread.content bound

/-- What is printed over the data, and by which nodes. -/
def variation (spread : Spread) (engine : Engine) (globals : String → Scope) (prints : (String → String) → Prop)
    (fits : Node → Prop) : Variation String engine where
  globals
  trusted _ := True
  prints
  sees := spread.Sees
  holds name texts := prints texts ∧ spread.Holds name texts
  node := Throughout engine fits

/-- What a variation needs to know of its nodes. -/
structure Suits (spread : Spread) (engine : Engine) (globals : String → Scope) (prints : (String → String) → Prop)
    (fits : Node → Prop) : Prop where
  fixed : ∀ text, prints fun _ => text
  append : ∀ {first second}, prints first → prints second → prints fun text => first text ++ second text
  expressions : ∀ {node}, fits node → ∀ text ∈ expressions node, spread.Free text
  echo : ∀ {span expression escape}, fits (.echo span expression escape) → ∀ {scopes}, spread.Sees scopes →
    prints fun text => shown escape ((scopes text).value expression)
  filled : ∀ {span args defaultSlot slots}, Throughout engine fits (.component span args defaultSlot slots) →
    ∀ scope, ∀ entry ∈ slotTextsIn scope (unnamedTexts defaultSlot) slots,
      (spread.variation engine globals prints fits).Fills entry.1 entry.2

section Laws
variable {prints : (String → String) → Prop} {fits : Node → Prop}

theorem Suits.directive (suits : spread.Suits engine globals prints fits) {now : Calendar.Moment}
    (builtin : engine.directives = Directive.builtins now) {span : Text.Span} {name raw : String} {args : Option String}
    (within : fits (.directive span name args raw)) {scopes : String → Scope} (seen : spread.Sees scopes) :
    Uniform prints fun text =>
      (Render.directive name args raw (scopes text) : Render (engine.sharing (globals text)) String) := by
  unfold Render.directive
  simp only [Engine.directives_sharing]
  cases found : engine.directives.find? name with
  | none => exact .pure (suits.fixed raw)
  | some handler =>
    rw [builtin] at found
    obtain ⟨query, same, asks⟩ := builtin_query found (args.getD "")
    have free (text : String) (read : Reads (args.getD "") text) : spread.Free text := by
      obtain ⟨part, mem, given⟩ := read
      apply suits.expressions within
      refine List.mem_append_right _ (List.mem_flatMap.2 ⟨part, mem, ?_⟩)
      rcases given with rfl | inside
      · exact List.mem_cons_self
      · exact List.mem_cons_of_mem _ inside
    have result (given : String) : query.resultBy (scopes given).value = query.resultBy (scopes "").value := by
      refine Query.resultBy_congr asks fun text read => ?_
      obtain ⟨value, fixed⟩ := seen.value (free text read)
      rw [fixed, fixed]
    simp only [same]
    apply Uniform.bind (.evaluating fun given evaluator => (Query.run_fst (scopes given) query evaluator).trans (result given))
    rintro _ rfl
    cases query.resultBy (scopes "").value <;> exact .pure (suits.fixed _)

theorem Suits.lawful (suits : spread.Suits engine globals prints fits) (fragmentary : engine.Fragmentary)
    {now : Calendar.Moment} (builtin : engine.directives = Directive.builtins now) (shared : spread.Sees globals) :
    (spread.variation engine globals prints fits).Lawful where
  nothing := suits.fixed ""
  append first second := suits.append first second
  escaped _ := suits.fixed _
  shared := shared
  within seen _ := seen.within _
  insert name _ seen _ := seen.insert name _
  slots seen held := seen.slots fun part mem => (held part mem).2
  children within inner mem := within.brought (.child mem)
  evaluated within text mem _ seen := by
    obtain ⟨value, same⟩ := seen.value (suits.expressions within.here text
      (List.mem_append_left _ (List.mem_append_left _ mem)))
    exact ⟨value, fun _ _ => trivial, same⟩
  given within text mem _ seen := by
    obtain ⟨value, same⟩ := seen.argument fun part inside => suits.expressions within.here part
      (List.mem_append_left _ (List.mem_append_right _ (List.mem_flatMap.2 ⟨text, mem, inside⟩)))
    exact ⟨value, fun _ _ => trivial, same⟩
  text _ := suits.fixed _
  echo within seen := suits.echo within.here seen
  directive within seen := suits.directive builtin within.here seen
  inclusion := by
    intro span args scopes reference name within _ named resolved
    have layout : engine.layoutName (scopes "") args = .ok name := (congrArg engine.resolved (named "")).trans resolved
    exact ⟨suits.fixed _, fun template found node mem => within.brought (.inclusion layout found mem)⟩
  extension := by
    intro span args scopes reference name within _ named resolved template found node mem
    have layout : engine.layoutName (scopes "") args = .ok name := (congrArg engine.resolved (named "")).trans resolved
    exact within.brought (.extension layout found mem)
  call := by
    intro span args defaultSlot slots scopes name within _ named
    refine ⟨suits.fixed _, suits.fixed _, fun resolved component reached => ?_⟩
    obtain ⟨body, rfl⟩ := fragmentary.reached reached
    rw [← named ""] at reached
    exact ⟨body, rfl, fun node mem => within.brought (.component reached mem)⟩
  filled within _ named entry mem := suits.filled within _ entry (named "" ▸ mem)

end Laws

/-- What never varies. -/
def Fixed (texts : String → String) : Prop := ∃ text, texts = fun _ => text

theorem suits_ignores : spread.Suits engine globals Fixed spread.Ignores where
  fixed text := ⟨text, rfl⟩
  append := by
    rintro _ _ ⟨first, rfl⟩ ⟨second, rfl⟩
    exact ⟨first ++ second, rfl⟩
  expressions ignores := ignores.expressions
  echo ignores _ seen := by
    obtain ⟨value, same⟩ := seen.value (ignores.echo _ _ _ rfl)
    simp only [same]
    exact ⟨_, rfl⟩
  filled within scope entry mem := .inl ⟨within.read_again mem, fun texts fixed => ⟨fixed, .inl fixed⟩⟩

theorem suits_covers (fragmentary : engine.Fragmentary) {now : Calendar.Moment}
    (builtin : engine.directives = Directive.builtins now) (shared : spread.Sees globals) :
    spread.Suits engine globals Woven (spread.Covers engine) where
  fixed := .fixed
  append first second := first.append second
  expressions covers := covers.expressions
  echo covers _ seen := by
    rcases covers.echo _ _ _ rfl with free | whole
    · obtain ⟨value, same⟩ := seen.value free
      simp only [same]
      exact .fixed _
    · exact seen.echo whole
  filled within scope entry mem := by
    rcases within.here.slots _ _ _ _ rfl scope entry mem with clear | ⟨boxed, known⟩
    · have lawful := suits_ignores.lawful fragmentary builtin shared
      refine .inr fun left scopes seen => (@Variation.fragment_uniform _ _ _ lawful left
        (Variation.below_uniform lawful left) (.parse "" entry.2) clear _ seen).mono ?_
      rintro _ ⟨text, rfl⟩
      exact ⟨.fixed text, .inl ⟨text, rfl⟩⟩
    · exact .inl ⟨within.read_again mem, fun texts woven => ⟨woven, .inr ⟨boxed, woven, known⟩⟩⟩

end Spread
end Stencil.Render

namespace Stencil.Engine
open Render Template

variable {engine : Engine} {spread : Spread}

/-- Where a variable is bound: in the data of a call or in the data that all calls share. -/
inductive Home where
  | call
  | shared

def Home.globals (home : Home) (engine : Engine) (name text : String) : Scope :=
  match home with
  | .call => engine.globals
  | .shared => engine.globals.insert name (.string text)

def Home.data (home : Home) (data : Value) (name text : String) : Value :=
  match home with
  | .call => .object (data.fields.insert name (.string text))
  | .shared => data

theorem Home.sees_globals (home : Home) : spread.Sees (home.globals engine spread.varied) := by
  intro name
  cases home with
  | call => exact .fixed (engine.globals.get? name)
  | shared =>
    simp only [globals, Scope.get?_insert]
    split
    next same => exact .varied same
    next => exact .fixed (engine.globals.get? name)

theorem Home.sees_data (home : Home) (data : Value) :
    spread.Sees fun text => (home.globals engine spread.varied text).childWith (home.data data spread.varied text).fields := by
  cases home with
  | call =>
    intro name
    have fields (text : String) : (Home.call.data data spread.varied text).fields =
        data.fields.insert spread.varied (.string text) := rfl
    simp only [Scope.get?_childWith, fields, Fields.find?_insert]
    by_cases same : name = spread.varied
    · simp only [if_pos same]
      exact .varied same
    · simp only [if_neg same]
      exact .fixed ((data.fields.find? name).or (engine.globals.get? name))
  | shared => exact (sees_globals .shared).within data.fields

/-- What a variable is bound to that is only printed, be it itself or in the content of slots, is put into the
output wherever it is printed, escaped, and has no other influence. -/
theorem printed_data_is_never_read (fragmentary : engine.Fragmentary) {now : Calendar.Moment}
    (builtin : engine.directives = Directive.builtins now) (spread : Spread) (page : Page)
    (covers : ∀ node, page.Opens engine node → Throughout engine (spread.Covers engine) node) (home : Home) (data : Value) :
    (∃ pieces, ∀ text evaluator, ((page.request (home.data data spread.varied text)).answer
        (engine.sharing (home.globals engine spread.varied text)) evaluator).1 = .ok ((Html.escape text).intercalate pieces)) ∨
      ∃ error, ∀ text evaluator, ((page.request (home.data data spread.varied text)).answer
        (engine.sharing (home.globals engine spread.varied text)) evaluator).1 = .error (.failed error) := by
  have shared := @Home.sees_globals engine spread home
  have lawful := (Spread.suits_covers fragmentary builtin shared).lawful fragmentary builtin shared
  rcases request_varies fragmentary (page_uniform lawful page covers (home.sees_data data)) with
    ⟨texts, ⟨pieces, _, same⟩, answers⟩ | failed
  · exact .inl ⟨pieces, fun text evaluator => same text ▸ answers text evaluator⟩
  · exact .inr failed

/-! A page with a component whose default slot prints a variable. -/

namespace Box

def moment : Calendar.Moment := { days := 0, second := 0 }

def page : String := "@component('box')\x7b\x7b x \x7d\x7d@endcomponent"

def inside : String := "\x7b\x7b x \x7d\x7d"

def box (body : String) : Engine := { Engine.new {} moment with components := [("box", .ofSource body)] }

/-- Prints the slot. -/
def framing : String := "[\x7b\x7b slot \x7d\x7d]"

/-- Prints something else if the slot is not empty. -/
def choosing : String := "@if(slot)Y@endif"

theorem parse_box : Expr.parse (Text.trimmed "'box'") = .ok (.literal (.string "box")) := by cbv

theorem tokenize_sources :
    tokenize page = [⟨.directive "component" (some "'box'"), ⟨0, 17⟩⟩, ⟨.echo "x" false, ⟨17, 24⟩⟩,
      ⟨.directive "endcomponent" none, ⟨24, 37⟩⟩] ∧
    tokenize inside = [⟨.echo "x" false, ⟨0, 7⟩⟩] ∧
    tokenize framing = [⟨.text "[", ⟨0, 1⟩⟩, ⟨.echo "slot" false, ⟨1, 11⟩⟩, ⟨.text "]", ⟨11, 12⟩⟩] ∧
    tokenize choosing =
      [⟨.directive "if" (some "slot"), ⟨0, 9⟩⟩, ⟨.text "Y", ⟨9, 10⟩⟩, ⟨.directive "endif" none, ⟨10, 16⟩⟩] := by
  decide +kernel

theorem read_page : read page = ([.component ⟨0, 37⟩ "'box'" inside []], []) := by
  apply items_iff_read.1
  rw [tokenize_sources.1]
  have text : Text.slice page.toList ⟨17, 24⟩ ++ [] = inside.toList := by cbv
  have divided : Divided page.toList [.echo ⟨17, 24⟩ "x" true] inside.toList [] := text ▸ .other (fun _ _ same => by cases same) .nil
  have within : Items page.toList [⟨.echo "x" false, ⟨17, 24⟩⟩] [.echo ⟨17, 24⟩ "x" true] := .leaf .echo .nil
  exact .block (.component divided) within .nil

theorem read_inside : read inside = ([.echo ⟨0, 7⟩ "x" true], []) := by
  apply items_iff_read.1
  rw [tokenize_sources.2.1]
  exact .leaf .echo .nil

theorem read_framing : read framing = ([.text ⟨0, 1⟩ "[", .echo ⟨1, 11⟩ "slot" true, .text ⟨11, 12⟩ "]"], []) := by
  apply items_iff_read.1
  rw [tokenize_sources.2.2.1]
  exact .text nofun (.leaf .echo (.text nofun .nil))

theorem read_choosing : read choosing = ([.conditional ⟨0, 16⟩ [("slot", [.text ⟨9, 10⟩ "Y"])] none], []) := by
  apply items_iff_read.1
  rw [tokenize_sources.2.2.2]
  have within : Items choosing.toList [⟨.text "Y", ⟨9, 10⟩⟩] [.text ⟨9, 10⟩ "Y"] := .text nofun .nil
  exact .conditional (.last within) .nil

theorem fragmentary (body : String) : (box body).Fragmentary := by
  intro name component found
  simp only [box, component?, Fields.find?] at found
  split at found
  · cases found
    exact ⟨_, rfl⟩
  · cases found

section Nodes
variable {body : String} (quiet : ∀ node ∈ (read body).1, ∀ inner, Brings (box body) node inner → inner ∈ node.children)
  (shallow : ∀ node ∈ (read body).1, ∀ inner ∈ node.children, ∀ last, ¬ Brings (box body) inner last)
include quiet shallow

/-- The nodes of the page are those of the component, with what they have inside, and that of the slot. -/
theorem throughout_page {fits : Node → Prop} (call : fits (.component ⟨0, 37⟩ "'box'" inside []))
    (slot : fits (.echo ⟨0, 7⟩ "x" true)) (printed : ∀ node ∈ (read body).1, fits node ∧ ∀ inner ∈ node.children, fits inner) :
    ∀ node, (Page.inline page).Opens (box body) node → Throughout (box body) fits node := by
  intro node opens
  cases opens with
  | inline mem =>
    rw [read_page] at mem
    cases List.mem_singleton.1 mem
    let among (node : Node) : Prop := node = .component ⟨0, 37⟩ "'box'" inside [] ∨ node = .echo ⟨0, 7⟩ "x" true ∨
      ∃ outer ∈ (read body).1, node = outer ∨ node ∈ outer.children
    refine @Throughout.of_closed (box body) among fits ?_ ?_ _ (.inl rfl)
    · rintro outer inner (rfl | rfl | ⟨first, there, rfl | within⟩) brings
      · cases brings with
        | child mem => cases mem
        | @component _ _ _ resolved _ _ found _ reached mem =>
          have known : (box body).reached? "box" = some ("box", .ofSource body) := rfl
          have name (scope : Scope) : nameIn scope ((Argument.list "'box'").headD "") = "box" := by cbv
          rw [name, known] at reached
          cases reached
          exact .inr (.inr ⟨inner, mem, .inl rfl⟩)
        | unnamed mem =>
          rw [read_inside] at mem
          exact .inr (.inl (List.mem_singleton.1 mem))
        | slot there => cases there
      · cases brings with
        | child mem => cases mem
      · exact .inr (.inr ⟨_, there, .inr (quiet _ there inner brings)⟩)
      · exact absurd brings (shallow _ there _ within _)
    · rintro node (rfl | rfl | ⟨outer, there, rfl | within⟩)
      · exact call
      · exact slot
      · exact (printed _ there).1
      · exact (printed outer there).2 node within

end Nodes

theorem expressions_page : expressions (.component ⟨0, 37⟩ "'box'" inside []) = ["'box'"] := by
  have parts : Argument.list "'box'" = ["'box'"] := by cbv
  simp only [expressions, evaluated, given, parts]
  rfl

theorem free_page (spread : Spread) : ∀ text ∈ expressions (.component ⟨0, 37⟩ "'box'" inside []), spread.Free text := by
  rw [expressions_page]
  intro text mem name mentioned
  cases List.mem_singleton.1 mem
  obtain ⟨whole, parsed, among⟩ := mentioned
  rw [parse_box] at parsed
  cases parsed
  cases among

theorem parsed_x : Expr.parse (Text.trimmed "x") = .ok (.variable "x") :=
  Expr.parse_trimmed_name ⟨"x", by decide, by decide⟩

theorem parsed_slot : Expr.parse (Text.trimmed "slot") = .ok (.variable "slot") :=
  Expr.parse_trimmed_name ⟨"slot", by decide, by decide⟩

/-- The variable of the page, and those of the slot that prints it. -/
def spreading : Spread where
  varied := "x"
  content name := name = "slot" ∨ name = "content"
  boxed := True
  apart _ := ⟨by decide, by decide⟩

theorem framing_covers_page : spreading.Covers (box framing) (.component ⟨0, 37⟩ "'box'" inside []) where
  expressions := free_page spreading
  echo := nofun
  slots := by
    intro _ _ defaultSlot slots same scope entry mem
    obtain ⟨_, _, rfl, rfl⟩ := Node.component.inj same
    have unnamed : entry ∈ unnamedTexts inside := mem
    cases entry_of_unnamedTexts unnamed
    refine .inr ⟨trivial, fun bound there => .inr ?_⟩
    have names : boundNames defaultSlotName = ["slot", "content"] := rfl
    simpa only [names, spreading, List.mem_cons, List.not_mem_nil, or_false] using there

/-- Each of the nodes of the component stands by itself. -/
theorem throughout_framing {fits : Node → Prop} (call : fits (.component ⟨0, 37⟩ "'box'" inside []))
    (slot : fits (.echo ⟨0, 7⟩ "x" true)) (printed : ∀ node ∈ (read framing).1, fits node) :
    ∀ node, (Page.inline page).Opens (box framing) node → Throughout (box framing) fits node := by
  have here : ∀ node ∈ (read framing).1, node.children = [] ∧ ∀ inner, ¬ Brings (box framing) node inner := by
    rw [read_framing]
    simp only [List.forall_mem_cons]
    refine ⟨⟨rfl, ?_⟩, ⟨rfl, ?_⟩, ⟨rfl, ?_⟩, List.forall_mem_nil _⟩ <;>
      · rintro inner ⟨⟩
        contradiction
  have alone (node : Node) (mem : node ∈ (read framing).1) (inner : Node) : inner ∉ node.children := by
    rw [(here node mem).1]
    exact List.not_mem_nil
  exact throughout_page (fun node mem inner brings => absurd brings ((here node mem).2 inner))
    (fun node mem inner within => absurd within (alone node mem inner)) call slot
    fun node mem => ⟨printed node mem, fun inner within => absurd within (alone node mem inner)⟩

theorem framing_covers : ∀ node, (Page.inline page).Opens (box framing) node →
    Throughout (box framing) (spreading.Covers (box framing)) node := by
  have text (span : Text.Span) (text : String) : spreading.Covers (box framing) (.text span text) :=
    { expressions := List.forall_mem_nil _, echo := nofun, slots := nofun }
  have echo (span : Text.Span) {name : String} (parsed : Expr.parse (Text.trimmed name) = .ok (.variable name))
      (known : name = "x" ∨ spreading.content name) : spreading.Covers (box framing) (.echo span name true) :=
    { expressions := List.forall_mem_nil _
      echo := by
        rintro _ _ _ ⟨⟩
        exact .inr (.alone parsed known fun _ => rfl)
      slots := nofun }
  refine throughout_framing framing_covers_page (echo _ parsed_x (.inl rfl)) fun node mem => ?_
  rw [read_framing] at mem
  simp only [List.mem_cons, List.not_mem_nil, or_false] at mem
  rcases mem with rfl | rfl | rfl
  · exact text _ _
  · exact echo _ parsed_slot (.inr (.inl rfl))
  · exact text _ _

theorem framed_data_is_never_read : (box framing).Fragmentary ∧ (box framing).directives = Directive.builtins moment ∧
    (∀ node, (Page.inline page).Opens (box framing) node → Throughout (box framing) (spreading.Covers (box framing)) node) ∧
    ((∃ pieces, ∀ text evaluator, (((Page.inline page).request .null).answer
        ((box framing).sharing (Home.shared.globals (box framing) "x" text)) evaluator).1 =
          .ok ((Html.escape text).intercalate pieces)) ∨
      ∃ error, ∀ text evaluator, (((Page.inline page).request .null).answer
        ((box framing).sharing (Home.shared.globals (box framing) "x" text)) evaluator).1 = .error (.failed error)) :=
  ⟨fragmentary framing, rfl, framing_covers,
    printed_data_is_never_read (fragmentary framing) rfl spreading (.inline page) framing_covers .shared .null⟩

/-- The same page, where nothing is known of the variables that a slot is bound to. -/
def plainly : Spread := { varied := "x", content := fun _ => False, boxed := False, apart := nofun }

theorem use_of_page (scope : Scope) : useIn scope "'box'" inside [] = ⟨"box", [], [("default", inside)]⟩ := by
  have filled : (Text.trim inside.toList).isEmpty = false := by cbv
  have name : nameIn scope ((Argument.list "'box'").headD "") = "box" := by cbv
  have parts : (Argument.list "'box'")[1]? = none := by cbv
  unfold useIn
  simp only [name, parts, filled]
  rfl

section Choice
variable {globals : Scope} {text : String} (bound : globals.get? "x" = some (.string text)) (left : Nat)
include bound

theorem inside_gives : Gives (Render.source (levels ((box choosing).sharing globals) left) inside (globals.childWith []))
    (Html.escape text) := by
  have value : (globals.childWith []).value "x" = .string text := by
    rw [Scope.value_of_parse parsed_x, Expr.eval, Scope.get?_childWith]
    exact congrArg (Option.getD · Value.null) bound
  have printed := @Gives.echo ((box choosing).sharing globals) (levels _ left) (globals.childWith []) [] ⟨0, 7⟩ "x" true
  rw [value] at printed
  have all := printed.nodes_cons .nodes_nil
  rw [String.append_empty] at all
  exact .source read_inside rfl all

theorem choosing_gives : Gives (Render.template (levels ((box choosing).sharing globals) left) (Template.parse "" choosing)
    ⟨"box", [], [("default", inside)]⟩) (if (Html.escape text).isEmpty then "" else "Y") := by
  let scope := bindSlots (globals.childWith []) [("default", .safe (Html.escape text))]
  have value : scope.value "slot" = .safe (Html.escape text) := by
    rw [Scope.value_of_parse parsed_slot, Expr.eval]
    rfl
  have contents : Gives (Render.slotContents (levels ((box choosing).sharing globals) left) (globals.childWith [])
      [("default", inside)]) [("default", .safe (Html.escape text))] :=
    (inside_gives bound left).bind (.bind (.pure []) (.pure _))
  have condition := @Gives.condition ((box choosing).sharing globals) scope "slot"
  rw [value] at condition
  have chosen : Gives (Render.node (levels ((box choosing).sharing globals) left) []
      (.conditional ⟨0, 16⟩ [("slot", [.text ⟨9, 10⟩ "Y"])] none) scope) (if (Html.escape text).isEmpty then "" else "Y") := by
    apply condition.bind
    rw [Value.isTruthy]
    cases (Html.escape text).isEmpty with
    | true => exact .pure ""
    | false =>
      have said : Gives (Render.node (levels ((box choosing).sharing globals) left) [] (.text ⟨9, 10⟩ "Y") scope) "Y" := .pure "Y"
      exact said.nodes_cons .nodes_nil
  have all := chosen.nodes_cons .nodes_nil
  rw [String.append_empty] at all
  exact contents.bind (.source read_choosing rfl all)

theorem page_answer (evaluator : Evaluator) :
    (((Page.inline page).request .null).answer ((box choosing).sharing globals) evaluator).1 =
      .ok (if (Html.escape text).isEmpty then "" else "Y") := by
  let scope := globals.childWith []
  let before : Session ((box choosing).sharing globals) := { evaluator }
  have resolves : Resolves ((box choosing).sharing globals) (useIn scope "'box'" inside []).name := by
    rw [use_of_page]
    exact nofun
  obtain ⟨after, kept, same⟩ := call_run scope "'box'" inside [] before resolves
  rw [use_of_page] at same
  have room : after.stack.length < 32 := by
    rw [kept]
    exact Nat.zero_lt_succ 31
  have called := (congrArg Prod.fst (same (levels _ 32))).trans
    (@component_prints _ _ _ _ _ _ _ _ rfl (choosing_gives bound 31) _ room)
  have nodes : (Template.parse "" page).nodes = [.component ⟨0, 37⟩ "'box'" inside []] := congrArg Prod.fst read_page
  have plain : extension? (Template.parse "" page).nodes = none := by
    rw [nodes]
    rfl
  have whole := @fragment_printing _ before (Template.parse "" page) scope plain
  rw [nodes] at whole
  refine whole.trans ?_
  unfold printing
  rw [onStack_apply]
  have level : ((box choosing).sharing globals).config.maxDepth - before.stack.length = 32 := rfl
  rw [level]
  exact single_prints called

end Choice

theorem apart {pieces : List String} (blank : "" = (Html.escape "").intercalate pieces) :
    "Y" ≠ (Html.escape "a").intercalate pieces := by
  intro given
  have letter : Html.escape "a" = "a" := by decide
  rw [letter] at given
  match pieces with
  | [] => exact absurd given (by decide)
  | [piece] =>
    rw [String.intercalate_singleton] at blank given
    exact absurd (blank.trans given.symm) (by decide)
  | first :: second :: others =>
    have among : 'a' ∈ "Y".toList := by
      rw [given, String.intercalate_cons_cons]
      simp
    exact absurd among (by decide)

theorem choosing_prints (node : Node) (opens : (Page.inline page).Opens (box choosing) node) :
    Throughout (box choosing) plainly.Prints node := by
  have quiet (node : Node) (mem : node ∈ (read choosing).1) (inner : Node) (brings : Brings (box choosing) node inner) :
      inner ∈ node.children := by
    rw [read_choosing] at mem
    cases List.mem_singleton.1 mem
    cases brings
    assumption
  have within (node : Node) (mem : node ∈ (read choosing).1) : node.children = [.text ⟨9, 10⟩ "Y"] := by
    rw [read_choosing] at mem
    cases List.mem_singleton.1 mem
    rfl
  have shallow (node : Node) (mem : node ∈ (read choosing).1) (inner : Node) (inside : inner ∈ node.children) (last : Node) :
      ¬ Brings (box choosing) inner last := by
    rw [within node mem] at inside
    cases List.mem_singleton.1 inside
    rintro ⟨⟩
    contradiction
  refine throughout_page quiet shallow { expressions := free_page plainly, echo := nofun } ?_ ?_ node opens
  · exact
      { expressions := List.forall_mem_nil _
        echo := by
          rintro _ _ _ ⟨⟩
          exact .inr (.alone parsed_x (.inl rfl) fun _ => rfl) }
  · intro node mem
    rw [within node mem]
    rw [read_choosing] at mem
    cases List.mem_singleton.1 mem
    refine ⟨{ expressions := ?_, echo := nofun }, ?_⟩
    · intro text mem name mentioned
      cases List.mem_singleton.1 mem
      obtain ⟨whole, parsed, among⟩ := mentioned
      rw [parsed_slot] at parsed
      cases parsed
      cases List.mem_singleton.1 among
      rintro (same | other | ⟨boxed, _⟩)
      · exact absurd same (by decide)
      · exact other
      · exact boxed
    · rintro inner inside
      cases List.mem_singleton.1 inside
      exact { expressions := List.forall_mem_nil _, echo := nofun }

/-- A component that asks whether its slot is empty is told something of what the slot prints. -/
theorem slot_tells_of_data : (box choosing).Fragmentary ∧ (box choosing).directives = Directive.builtins moment ∧
    (∀ node, (Page.inline page).Opens (box choosing) node → Throughout (box choosing) plainly.Prints node) ∧
    ¬ ((∃ pieces, ∀ text evaluator, (((Page.inline page).request .null).answer
        ((box choosing).sharing (Home.shared.globals (box choosing) "x" text)) evaluator).1 =
          .ok ((Html.escape text).intercalate pieces)) ∨
      ∃ error, ∀ text evaluator, (((Page.inline page).request .null).answer
        ((box choosing).sharing (Home.shared.globals (box choosing) "x" text)) evaluator).1 = .error (.failed error)) := by
  have bound (text : String) : (Home.shared.globals (box choosing) "x" text).get? "x" = some (.string text) :=
    (Scope.get?_insert _ _ _ _).trans (if_pos rfl)
  have answer (text : String) := page_answer (bound text) .empty
  refine ⟨fragmentary choosing, rfl, choosing_prints, ?_⟩
  rintro (⟨pieces, printed⟩ | ⟨error, failed⟩)
  · have blank := Except.ok.inj ((answer "").symm.trans (printed "" .empty))
    have letter := Except.ok.inj ((answer "a").symm.trans (printed "a" .empty))
    rw [if_pos (by decide)] at blank
    rw [if_neg (by decide)] at letter
    exact apart blank letter
  · exact nomatch (answer "").symm.trans (failed "" .empty)

end Box

end Stencil.Engine
