import Stencil.Proofs.EscapedOutput
import Stencil.Proofs.LiteralObjects

/-! The variables of a component's template. It sees the props over the shared data, each slot under the slot's name
and all of them in one object. The slots are bound in the order of their names, and the default slot goes by two names
of its own: it comes behind a slot called `content`, whose name it takes, and ahead of one called `slot`. -/

namespace Stencil

open Render Template

variable {engine : Engine} {scope : Scope} {stack : List String}

namespace Fields
variable {α : Type} {fields earlier later : Fields α} {name : String} {value : α}

theorem exists_split_of_find? (found : fields.find? name = some value) :
    ∃ earlier later, fields = earlier ++ (name, value) :: later := List.append_of_mem (mem_of_find? found)

theorem contains_of_mem_names (mem : name ∈ fields.names) : fields.contains name = true := by
  induction fields with
  | nil => cases mem
  | cons field fields ih =>
    unfold contains find?
    by_cases same : name = field.1
    · rw [if_pos same]
      rfl
    · rw [if_neg same]
      exact ih ((List.mem_cons.1 mem).resolve_left same)

theorem Sorted.lt_later (sorted : Sorted (earlier ++ (name, value) :: later)) : ∀ other ∈ later.names, name < other := by
  intro other mem
  obtain ⟨field, among, rfl⟩ := List.mem_map.1 mem
  exact (List.pairwise_cons.1 (List.pairwise_append.1 sorted).2.1).1 field among

theorem not_mem_later (unknown : fields.contains name = false) {other : String}
    (split : fields = earlier ++ (other, value) :: later) : name ∉ later.names := by
  intro mem
  obtain ⟨field, among, rfl⟩ := List.mem_map.1 mem
  have known : field.1 ∈ fields.names :=
    List.mem_map_of_mem (split ▸ List.mem_append_right _ (List.mem_cons_of_mem _ among))
  rw [contains_of_mem_names known] at unknown
  cases unknown

end Fields

namespace Engine
variable {slots : Fields String}

/-- The rendered slots go by the names of the slots. -/
theorem find?_filled {contents : Fields Value} (filled : engine.filled scope stack slots = .ok contents) (name : String) :
    match slots.find? name with
    | none => contents.find? name = none
    | some text => ∃ content, engine.printed scope stack (Template.parse "" text) = .ok content ∧
        contents.find? name = some (.safe content) := by
  induction slots generalizing contents with
  | nil =>
    cases filled
    rfl
  | cons slot slots ih =>
    obtain ⟨content, rest, printed, others, rfl⟩ := filled_cons filled
    unfold Fields.find?
    by_cases same : name = slot.1
    · rw [if_pos same, if_pos same]
      exact ⟨content, printed, rfl⟩
    · rw [if_neg same, if_neg same]
      exact ih others

theorem failing_slot {halt : Halt} (failed : engine.filled scope stack slots = .error halt) :
    ∃ slot ∈ slots, engine.printed scope stack (Template.parse "" slot.2) = .error halt := by
  induction slots with
  | nil => cases failed
  | cons slot slots ih =>
    unfold filled at failed
    cases printed : engine.printed scope stack (Template.parse "" slot.2) with
    | error other =>
      rw [printed] at failed
      cases failed
      exact ⟨slot, List.mem_cons_self, printed⟩
    | ok content =>
      cases others : engine.filled scope stack slots with
      | error other =>
        rw [printed, others] at failed
        cases failed
        obtain ⟨later, mem, failed⟩ := ih others
        exact ⟨later, List.mem_cons_of_mem _ mem, failed⟩
      | ok rest =>
        rw [printed, others] at failed
        cases failed

end Engine

namespace Render

theorem get?_bindSlots_other {contents : Fields Value} {bound : String} (apart : bound ≠ "slots")
    (other : ∀ name ∈ contents.names, bound ∉ boundNames name) (scope : Scope) :
    (bindSlots scope contents).get? bound = scope.get? bound := by
  change (Scope.insert (contents.foldl bindSlot scope) "slots" _).get? bound = _
  rw [Scope.get?_insert, if_neg apart]
  induction contents generalizing scope with
  | nil => rfl
  | cons slot contents ih =>
    obtain ⟨first, others⟩ := List.forall_mem_cons.1 other
    rw [List.foldl_cons, ih others, bindSlot_other first]

theorem get?_bindSlots_all (scope : Scope) (contents : Fields Value) :
    (bindSlots scope contents).get? "slots" = some (.object contents) := by
  unfold bindSlots
  rw [Scope.get?_insert, if_pos rfl]

section Binds
variable {earlier later : Fields String} {name source : String}
  (sorted : Fields.Sorted (earlier ++ (name, source) :: later))
include sorted

/-- A slot keeps its name unless the default slot, which comes later, takes it. -/
theorem Binds.named (other : name ≠ defaultSlotName) (apart : name ≠ "slots")
    (free : name = "content" → defaultSlotName ∉ later.names) : Binds name name later where
  among := by
    rw [boundNames, if_neg other]
    exact List.mem_singleton_self name
  apart := apart
  kept next mem taken := by
    have below := sorted.lt_later next mem
    unfold boundNames at taken
    split at taken
    next unnamed =>
      subst unnamed
      simp only [List.mem_cons, List.not_mem_nil, or_false] at taken
      rcases taken with rfl | rfl
      · exact absurd below (by decide)
      · exact free rfl mem
    next =>
      obtain rfl := List.mem_singleton.1 taken
      exact String.lt_irrefl _ below

/-- The two names of the default slot are its own unless a later slot goes by them. -/
theorem Binds.unnamed (own : name = defaultSlotName) {bound : String} (among : bound ∈ boundNames defaultSlotName)
    (free : bound ∉ later.names) : Binds name bound later where
  among := own ▸ among
  apart := by
    have either : bound = "slot" ∨ bound = "content" := by simpa [boundNames] using among
    rcases either with rfl | rfl <;> decide
  kept next mem taken := by
    have below := sorted.lt_later next mem
    unfold boundNames at taken
    split at taken
    next again => exact String.lt_irrefl _ (own.trans again.symm ▸ below)
    next =>
      obtain rfl := List.mem_singleton.1 taken
      exact free mem

end Binds
end Render

namespace Instance
variable (engine : Engine) (stack : List String) (use : Instance)

/-- What the slots of a component see. -/
def outside : Scope := engine.globals.childWith use.props

/-- There is a slot of the name, and it prints the content. -/
def Fills (name content : String) : Prop := ∃ text, use.slots.find? name = some text ∧
  engine.printed (use.outside engine) stack (Template.parse "" text) = .ok content

/-- What the template of a component sees of its slots, its props and the shared data. -/
structure Exposed (inside : Scope) : Prop where
  /-- Every slot has been rendered. -/
  filled : ∀ name, use.slots.contains name = true → ∃ content, use.Fills engine stack name content
  /-- A slot goes by its name, except that one called `content` does not next to a default slot. -/
  named : ∀ {name content}, use.Fills engine stack name content → name ≠ defaultSlotName → name ≠ "slots" →
    (name = "content" → use.slots.contains defaultSlotName = false) → inside.get? name = some (.safe content)
  /-- A slot called `slot` keeps its name to itself. -/
  slot : ∀ {content}, use.Fills engine stack defaultSlotName content → use.slots.contains "slot" = false →
    inside.get? "slot" = some (.safe content)
  /-- A slot called `content` does not. -/
  content : ∀ {content}, use.Fills engine stack defaultSlotName content →
    inside.get? "content" = some (.safe content)
  /-- One object has all slots, whatever they are called. -/
  slots : ∀ {name content}, use.Fills engine stack name content → ∀ key : Expr, (key.eval inside).text? = some name →
    (Expr.index (.variable "slots") key).eval inside = .safe content
  /-- And it has nothing else. -/
  missing : ∀ {name}, use.slots.contains name = false → ∀ key : Expr, (key.eval inside).text? = some name →
    (Expr.index (.variable "slots") key).eval inside = .null
  /-- All other variables are props, with shared data behind them. -/
  others : ∀ name, name ≠ "slots" → (∀ slot ∈ use.slots.names, name ∉ boundNames slot) →
    inside.get? name = (use.props.find? name).or (engine.globals.get? name)

variable {engine stack use} {contents : Fields Value}

theorem eval_slots {inside : Scope} (bound : inside.get? "slots" = some (.object contents)) {key : Expr} {name : String}
    (text : (key.eval inside).text? = some name) :
    (Expr.index (.variable "slots") key).eval inside = (contents.find? name).getD .null := by
  rw [Expr.eval, Expr.eval, bound]
  change Expr.indexed (.object contents) (key.eval inside) = _
  cases value : key.eval inside with
  | string | safe =>
    rw [value] at text
    cases text
    rfl
  | _ => rw [value] at text; cases text

/-- A slot's content stays under a name that no later slot takes. -/
theorem Fills.get? {name content bound : String} (fills : use.Fills engine stack name content)
    (filled : engine.filled (use.outside engine) stack use.slots = .ok contents)
    (binds : ∀ {earlier later source}, use.slots = earlier ++ (name, source) :: later → Binds name bound later) :
    (bindSlots (use.outside engine) contents).get? bound = some (.safe content) := by
  obtain ⟨text, found, printed⟩ := fills
  obtain ⟨earlier, later, split⟩ := Fields.exists_split_of_find? found
  obtain ⟨content', printed', held⟩ := get?_of_filled filled split (binds split)
  cases printed.symm.trans printed'
  exact held

theorem Exposed.of_filled (sorted : use.slots.Sorted)
    (filled : engine.filled (use.outside engine) stack use.slots = .ok contents) :
    use.Exposed engine stack (bindSlots (use.outside engine) contents) where
  filled name known := by
    obtain ⟨text, found⟩ := Option.isSome_iff_exists.1 known
    have here := Engine.find?_filled filled name
    rw [found] at here
    obtain ⟨content, printed, -⟩ := here
    exact ⟨content, text, found, printed⟩
  named fills other apart free := fills.get? filled fun split =>
    .named (split ▸ sorted) other apart fun same => Fields.not_mem_later (free same) split
  slot fills free := fills.get? filled fun split =>
    .unnamed (split ▸ sorted) rfl (by decide) (Fields.not_mem_later free split)
  content fills := fills.get? filled fun split => by
    rw [split] at sorted
    exact .unnamed sorted rfl (by decide) fun mem => absurd (sorted.lt_later _ mem) (by decide)
  slots := by
    rintro name content ⟨text, found, printed⟩ key same
    have here := Engine.find?_filled filled name
    rw [found] at here
    obtain ⟨content', printed', held⟩ := here
    cases printed.symm.trans printed'
    rw [eval_slots (get?_bindSlots_all _ contents) same, held]
    rfl
  missing := by
    intro name unknown key same
    have here := Engine.find?_filled filled name
    rw [Fields.contains, Option.isSome_eq_false_iff, Option.isNone_iff_eq_none] at unknown
    rw [unknown] at here
    rw [eval_slots (get?_bindSlots_all _ contents) same, here]
    rfl
  others name apart free := by
    rw [← Engine.names_filled filled] at free
    rw [get?_bindSlots_other apart free, outside, Scope.get?_childWith]

end Instance

theorem fragment_settled (body : Template) (hops : Nat) {use : Instance} {left : Nat} {session : Session engine}
    (level : session.stack.length + left = engine.config.maxDepth) :
    (definition (levels engine left) hops (.fragment body) use session).1 =
      handed (engine.filled (use.outside engine) session.stack use.slots >>= fun contents =>
        engine.printed (bindSlots (use.outside engine) contents) session.stack body) := by
  have fits : session.stack.length ≤ engine.config.maxDepth := by omega
  have given := (settled (fun below => Render.template below body use) (template_steady left body use) level).1
  have run : definition (levels engine left) hops (.fragment body) use session =
      reported (Render.template (levels engine left) body use) session := by cases hops <;> rfl
  rw [run, reported_apply, given, template_settled fits]
  rfl

/-- A template component fails with one of its slots, or it is what its template prints over the slots, the props and
the shared data. -/
theorem slots_are_exposed {use : Instance} (sorted : use.slots.Sorted) (body : Template) (hops : Nat) {left : Nat}
    {session : Session engine} (level : session.stack.length + left = engine.config.maxDepth) :
    (∃ slot ∈ use.slots, ∃ halt,
      engine.printed (use.outside engine) session.stack (Template.parse "" slot.2) = .error halt ∧
        (definition (levels engine left) hops (.fragment body) use session).1 = handed (.error halt)) ∨
    ∃ inside, use.Exposed engine session.stack inside ∧
      (definition (levels engine left) hops (.fragment body) use session).1 =
        handed (engine.printed inside session.stack body) := by
  rw [fragment_settled body hops level]
  cases filled : engine.filled (use.outside engine) session.stack use.slots with
  | error halt =>
    obtain ⟨slot, mem, failed⟩ := Engine.failing_slot filled
    exact .inl ⟨slot, mem, halt, failed, rfl⟩
  | ok contents => exact .inr ⟨_, .of_filled sorted filled, rfl⟩

/-! A component with a default slot and with one called `content`. -/

namespace Both

def stage : Engine := Engine.new {} { days := 0, second := 0 }

def use : Instance := ⟨"box", [], [("content", "C"), ("default", "B")]⟩

def box : Template := Template.parse "" "[\x7b\x7b content \x7d\x7d]"

theorem sorted : use.slots.Sorted :=
  List.pairwise_cons.2 ⟨List.forall_mem_singleton.2 (by decide : "content" < "default"), List.pairwise_singleton _ _⟩

theorem tokenize_sources :
    tokenize "[\x7b\x7b content \x7d\x7d]" =
      [⟨.text "[", ⟨0, 1⟩⟩, ⟨.echo "content" false, ⟨1, 14⟩⟩, ⟨.text "]", ⟨14, 15⟩⟩] ∧
    tokenize "C" = [⟨.text "C", ⟨0, 1⟩⟩] ∧ tokenize "B" = [⟨.text "B", ⟨0, 1⟩⟩] := by
  decide +kernel

theorem nodes_box : box.nodes = [.text ⟨0, 1⟩ "[", .echo ⟨1, 14⟩ "content" true, .text ⟨14, 15⟩ "]"] := by
  refine congrArg Prod.fst (items_iff_read.1 ?_)
  rw [tokenize_sources.1]
  exact .text nofun (.leaf .echo (.text nofun .nil))

theorem parsed_content : Expr.parse (Text.trimmed "content") = .ok (.variable "content") :=
  Expr.parse_trimmed_name ⟨"content", by decide, by decide⟩

theorem prints_letter {letter : String} (token : tokenize letter = [⟨.text letter, ⟨0, 1⟩⟩]) (scope : Scope) :
    stage.printed scope [] (Template.parse "" letter) = .ok letter := by
  have nodes : (Template.parse "" letter).nodes = [.text ⟨0, 1⟩ letter] := by
    refine congrArg Prod.fst (items_iff_read.1 ?_)
    rw [token]
    exact .text nofun .nil
  have ends : extension? (Template.parse "" letter).nodes = none := by rw [nodes]; rfl
  rw [Engine.printed_eq (.outermost (.inl ends)) (Nat.zero_le _), nodes]
  exact prints_text _ letter

theorem fills_content : use.Fills stage [] "content" "C" := ⟨"C", rfl, prints_letter tokenize_sources.2.1 _⟩

theorem fills_default : use.Fills stage [] "default" "B" := ⟨"B", rfl, prints_letter tokenize_sources.2.2 _⟩

theorem prints_box {inside : Scope} {text : String} (bound : inside.get? "content" = some (.safe text)) :
    stage.printed inside [] box = .ok ("[" ++ text ++ "]") := by
  have value : inside.value "content" = .safe text := by
    rw [Scope.value_of_parse parsed_content, Expr.eval, bound]
    rfl
  have ends : extension? box.nodes = none := by rw [nodes_box]; rfl
  have carries : Carries stage [] (.page inside box) ("[" ++ "") text ("" ++ "]") := by
    refine .page (.outermost (.inl ends)) rfl ?_
    rw [nodes_box]
    exact .beside (prints_text _ "[") (.node fun _ => .safe value ⟨1, 14⟩ true) (prints_text _ "]")
  exact carries.prints (Nat.zero_le _)

/-- Both slots are rendered, and the component is what its template prints over them. -/
theorem slots_exposed : use.slots.Sorted ∧ ([] : List String).length + 32 = stage.config.maxDepth ∧
    ∃ inside, use.Exposed stage [] inside ∧
      (definition (levels stage 32) 1 (.fragment box) use {}).1 = handed (stage.printed inside [] box) := by
  refine ⟨sorted, rfl, ?_⟩
  rcases @slots_are_exposed stage use sorted box 1 32 {} rfl with ⟨slot, mem, halt, failed, -⟩ | given
  · simp only [use, List.mem_cons, List.not_mem_nil, or_false] at mem
    rcases mem with rfl | rfl
    · cases failed.symm.trans (prints_letter tokenize_sources.2.1 _)
    · cases failed.symm.trans (prints_letter tokenize_sources.2.2 _)
  · exact given

/-- The variable `content` is not what the slot called `content` prints. -/
theorem content_is_hidden : use.Fills stage [] "content" "C" ∧ use.Fills stage [] "default" "B" ∧
    ∀ evaluator, (stage.renderInstance (.ofSource "[\x7b\x7b content \x7d\x7d]") use evaluator).1 = .ok (.ok "[B]") := by
  refine ⟨fills_content, fills_default, fun evaluator => ?_⟩
  have filled : stage.filled (use.outside stage) [] use.slots = .ok [("content", .safe "C"), ("default", .safe "B")] := by
    simp only [use, Engine.filled, prints_letter tokenize_sources.2.1, prints_letter tokenize_sources.2.2]
    rfl
  have given := @fragment_settled stage box (hopLimit stage) use 32 { evaluator } rfl
  rw [filled] at given
  have bound : (bindSlots (use.outside stage) [("content", .safe "C"), ("default", .safe "B")]).get? "content" =
      some (.safe "B") := rfl
  exact given.trans (congrArg handed (prints_box bound))

end Both

end Stencil
