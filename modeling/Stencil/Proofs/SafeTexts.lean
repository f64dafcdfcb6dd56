import Stencil.Engine.Render
import Stencil.Proofs.EvaluatorRecord
import Stencil.Proofs.ExpressionFaults

/-! Text that counts as rendered. Evaluating picks such text out of what is bound or leaves it behind:
operators, literals and the characters of a text give plain text only. So whatever is printed as it stands
was marked by a rendering or by whoever supplied the data. -/

namespace Stencil

namespace Value

mutual
/-- The texts marked as safe, at any depth. -/
def safeTexts : Value → List String
  | .safe text => [text]
  | .array items => itemsSafeTexts items
  | .object fields => fieldsSafeTexts fields
  | .null | .bool _ | .number _ | .string _ => []

def itemsSafeTexts : List Value → List String
  | [] => []
  | item :: items => safeTexts item ++ itemsSafeTexts items

def fieldsSafeTexts : List (String × Value) → List String
  | [] => []
  | (_, value) :: fields => safeTexts value ++ fieldsSafeTexts fields
end

/-- Every text in it that is marked as safe is one of these. -/
def Trusts (trusted : String → Prop) (value : Value) : Prop := ∀ text ∈ value.safeTexts, trusted text

variable {trusted : String → Prop}

theorem mem_itemsSafeTexts {items : List Value} {text : String} :
    text ∈ itemsSafeTexts items ↔ ∃ item ∈ items, text ∈ item.safeTexts := by
  induction items with
  | nil => simp [itemsSafeTexts]
  | cons item items ih => simp [itemsSafeTexts, ih]

theorem mem_fieldsSafeTexts {fields : List (String × Value)} {text : String} :
    text ∈ fieldsSafeTexts fields ↔ ∃ field ∈ fields, text ∈ field.2.safeTexts := by
  induction fields with
  | nil => simp [fieldsSafeTexts]
  | cons field fields ih => simp [fieldsSafeTexts, ih]

namespace Trusts

theorem of_unmarked {value : Value} (unmarked : value.safeTexts = []) : value.Trusts trusted := by
  intro text mem
  rw [unmarked] at mem
  cases mem

theorem safe {text : String} : (Value.safe text).Trusts trusted ↔ trusted text := List.forall_mem_singleton

theorem array {items : List Value} : (Value.array items).Trusts trusted ↔ ∀ item ∈ items, item.Trusts trusted := by
  simp only [Trusts, safeTexts, mem_itemsSafeTexts]
  exact ⟨fun all item there text mem => all text ⟨item, there, mem⟩, fun all text ⟨item, there, mem⟩ => all item there text mem⟩

theorem object {fields : List (String × Value)} :
    (Value.object fields).Trusts trusted ↔ ∀ field ∈ fields, field.2.Trusts trusted := by
  simp only [Trusts, safeTexts, mem_fieldsSafeTexts]
  exact ⟨fun all field there text mem => all text ⟨field, there, mem⟩, fun all text ⟨field, there, mem⟩ => all field there text mem⟩

theorem find? {fields : Fields Value} (all : ∀ field ∈ fields, field.2.Trusts trusted) {name : String} {value : Value}
    (found : fields.find? name = some value) : value.Trusts trusted := by
  induction fields with
  | nil => cases found
  | cons field fields ih =>
    obtain ⟨here, others⟩ := List.forall_mem_cons.1 all
    unfold Fields.find? at found
    split at found
    · cases found
      exact here
    · exact ih others found

theorem insert {fields : Fields Value} (all : ∀ field ∈ fields, field.2.Trusts trusted) (name : String) {value : Value}
    (trusts : value.Trusts trusted) : ∀ field ∈ fields.insert name value, field.2.Trusts trusted := by
  intro field mem
  rcases Fields.mem_insert mem with rfl | before
  · exact trusts
  · exact all field before

theorem ofEntries {entries : List (String × Value)} (all : ∀ entry ∈ entries, entry.2.Trusts trusted) :
    ∀ field ∈ Fields.ofEntries entries, field.2.Trusts trusted := by
  suffices later : ∀ fields : Fields Value, (∀ field ∈ fields, field.2.Trusts trusted) →
      ∀ field ∈ Fields.insertAll fields entries, field.2.Trusts trusted from later [] (List.forall_mem_nil _)
  induction entries with
  | nil => exact fun fields before => before
  | cons entry entries ih =>
    obtain ⟨here, others⟩ := List.forall_mem_cons.1 all
    exact fun fields before => ih others _ (insert before entry.1 here)

end Trusts

mutual
/-- Documents know no mark. -/
theorem ofJson_unmarked (document : Json) : (ofJson document).safeTexts = [] := by
  match document with
  | .null | .bool _ | .integer _ | .decimal _ | .string _ => rfl
  | .array items =>
    have nothing : (ofJson (.array items)).Trusts fun _ => False :=
      Trusts.array.2 fun item mem => .of_unmarked (itemsOfJson_unmarked items item mem)
    exact List.eq_nil_iff_forall_not_mem.2 nothing
  | .object members =>
    have nothing : (ofJson (.object members)).Trusts fun _ => False :=
      Trusts.object.2 (Trusts.ofEntries fun field mem => .of_unmarked (fieldsOfJson_unmarked members field mem))
    exact List.eq_nil_iff_forall_not_mem.2 nothing

theorem itemsOfJson_unmarked (items : List Json) : ∀ item ∈ itemsOfJson items, item.safeTexts = [] := by
  match items with
  | [] => exact List.forall_mem_nil _
  | item :: items => exact List.forall_mem_cons.2 ⟨ofJson_unmarked item, itemsOfJson_unmarked items⟩

theorem fieldsOfJson_unmarked (members : List (String × Json)) :
    ∀ field ∈ fieldsOfJson members, field.2.safeTexts = [] := by
  match members with
  | [] => exact List.forall_mem_nil _
  | (_, value) :: members => exact List.forall_mem_cons.2 ⟨ofJson_unmarked value, fieldsOfJson_unmarked members⟩
end

end Value

/-- Every text that some variable in sight holds as safe is one of these. -/
def Scope.Trusts (trusted : String → Prop) (scope : Scope) : Prop :=
  ∀ name value, scope.get? name = some value → value.Trusts trusted

namespace Expr
open Value

variable {trusted : String → Prop}

section Parts
variable {object : Value} (trusts : object.Trusts trusted)
include trusts

theorem elementAt_trusts (position : Nat) : (elementAt object position).Trusts trusted := by
  unfold elementAt
  split
  next items =>
    cases found : items[position]? with
    | none => exact .of_unmarked rfl
    | some item => exact Trusts.array.1 trusts item (List.mem_of_getElem? found)
  · split
    · exact .of_unmarked rfl
    · exact .of_unmarked rfl
  · split
    · exact .of_unmarked rfl
    · exact .of_unmarked rfl
  next fields =>
    cases found : Fields.find? fields (toString (min position Decimal.greatestUnsigned)) with
    | none => exact .of_unmarked rfl
    | some value => exact Trusts.find? (Trusts.object.1 trusts) found
  · exact .of_unmarked rfl

theorem element_trusts (position : Float) : (element object position).Trusts trusted := by
  unfold element
  split
  · exact elementAt_trusts trusts _
  · exact .of_unmarked rfl

theorem memberOf_trusts (key : String) : (memberOf object key).Trusts trusted := by
  unfold memberOf
  split
  next fields =>
    cases found : Fields.find? fields key with
    | none => exact .of_unmarked rfl
    | some value => exact Trusts.find? (Trusts.object.1 trusts) found
  · split
    · exact .of_unmarked rfl
    · split
      · exact element_trusts trusts _
      · exact .of_unmarked rfl
  · split <;> exact .of_unmarked rfl
  · split <;> exact .of_unmarked rfl
  · exact .of_unmarked rfl

theorem indexed_trusts (key : Value) : (indexed object key).Trusts trusted := by
  unfold indexed
  split
  · exact .of_unmarked rfl
  · exact element_trusts trusts _
  · exact memberOf_trusts trusts _
  · exact memberOf_trusts trusts _
  · exact .of_unmarked rfl

end Parts

/-- What an operator makes of two values that are at hand is never marked. -/
theorem applyBinary_unmarked (op : BinaryOp) (left right : Value) : (applyBinary op left right).safeTexts = [] := by
  have arithmetic (f : Float → Float → Option Float) : (arithmetic left right f).safeTexts = [] := by
    unfold Expr.arithmetic
    split
    next a b => cases f a b <;> rfl
    next => rfl
  have ordered (numbers : Float → Float → Bool) (texts : String → String → Bool) :
      (ordered left right numbers texts).safeTexts = [] := by
    unfold Expr.ordered
    split
    · rfl
    · split <;> rfl
  have sum : (sum left right).safeTexts = [] := by
    unfold Expr.sum
    split
    · rfl
    · split <;> rfl
  cases op with
  | add => exact sum
  | sub | mul | div | rem => exact arithmetic _
  | less | lessOrEqual | greater | greaterOrEqual => exact ordered _ _
  | eq | notEq | and | or => rfl

mutual
/-- Literals are plain, so what is marked comes from the variables. -/
theorem Derives.trusts {scope : Scope} {level : Nat} {tokens : List Token} {whole : Expr}
    (derives : Derives level tokens whole) (bound : scope.Trusts trusted) : (eval scope whole).Trusts trusted := by
  match derives with
  | .bool _ | .null | .string _ | .number _ => exact .of_unmarked rfl
  | .variable name =>
    rw [eval]
    cases found : scope.get? name with
    | none => exact .of_unmarked rfl
    | some value => exact bound name value found
  | .group inside => exact inside.trusts bound
  | .array inside => exact Trusts.array.2 (inside.trusts bound)
  | .member access key => exact memberOf_trusts (access.trusts bound) key
  | .position access value => exact indexed_trusts (access.trusts bound) (.number value)
  | @Derives.index _ _ _ key access _ => exact indexed_trusts (access.trusts bound) (eval scope key)
  | @Derives.applied _ operand op _ =>
    cases op with
    | not => exact .of_unmarked rfl
    | negate =>
      rw [eval]
      cases eval scope operand <;> exact .of_unmarked rfl
  | .binary _ op first second =>
    have left := first.trusts bound
    have right := second.trusts bound
    cases op with
    | and =>
      rw [eval]
      split
      · exact right
      · exact left
    | or =>
      rw [eval]
      split
      · exact left
      · exact right
    | _ => exact .of_unmarked (applyBinary_unmarked _ _ _)
  | .tighter derives => exact derives.trusts bound

theorem DerivesItems.trusts {scope : Scope} {tokens : List Token} {items : List Expr}
    (derives : DerivesItems tokens items) (bound : scope.Trusts trusted) :
    ∀ value ∈ evalItems scope items, value.Trusts trusted := by
  match derives with
  | .none => exact List.forall_mem_nil _
  | .last item => exact List.forall_mem_singleton.2 (item.trusts bound)
  | .more item further => exact List.forall_mem_cons.2 ⟨item.trusts bound, further.trusts bound⟩
end

end Expr

namespace Evaluator
open Value

variable {trusted : String → Prop} {scope : Scope}

theorem evaluate_trusts (bound : scope.Trusts trusted) (text : String) (evaluator : Evaluator) :
    (evaluate scope text evaluator).1.Trusts trusted := by
  change (valueOf (compile text evaluator).1 scope).Trusts trusted
  rw [compile_fst]
  cases parsed : Expr.parse (Text.trimmed text) with
  | error _ => exact .of_unmarked rfl
  | ok whole =>
    obtain ⟨tokens, -, derives⟩ := Expr.lexes_of_parse parsed
    exact derives.trusts bound

mutual
theorem read_trusts (bound : scope.Trusts trusted) (argument : Argument) (evaluator : Evaluator) :
    (argument.evaluate (evaluate scope) evaluator).1.Trusts trusted := by
  match argument with
  | .expression text => exact evaluate_trusts bound text evaluator
  | .object members => exact Trusts.object.2 (Trusts.ofEntries (members_trust bound members evaluator))

theorem members_trust (bound : scope.Trusts trusted) (members : List (String × Argument)) (evaluator : Evaluator) :
    ∀ entry ∈ (Argument.evaluateMembers (evaluate scope) members evaluator).1, entry.2.Trusts trusted := by
  match members with
  | [] => exact List.forall_mem_nil _
  | (key, argument) :: members =>
    exact List.forall_mem_cons.2 ⟨read_trusts bound argument evaluator, members_trust bound members _⟩
end

end Evaluator

/-- Some variable in sight holds this text as safe, at some depth. -/
def Scope.Supplies (scope : Scope) (text : String) : Prop :=
  ∃ name value, scope.get? name = some value ∧ text ∈ value.safeTexts

/-- What the three ways to evaluate a text give, as far as marks go. -/
structure Unforged (scope : Scope) (text : String) (evaluator : Evaluator) : Prop where
  evaluate : (Evaluator.evaluate scope text evaluator).1.Trusts scope.Supplies
  argument : (Evaluator.argument scope text evaluator).1.Trusts scope.Supplies
  object : ∀ field ∈ (Evaluator.object scope text evaluator).1, field.2.Trusts scope.Supplies
  /-- Over data without marks all that is printed is escaped. -/
  escaped : (∀ name value, scope.get? name = some value → value.safeTexts = []) →
    ∀ value, value = (Evaluator.evaluate scope text evaluator).1 ∨ value = (Evaluator.argument scope text evaluator).1 ∨
        (∃ name, (name, value) ∈ (Evaluator.object scope text evaluator).1) →
      value.safeTexts = [] ∧ Render.escaped value = Html.escape value.display

theorem Render.escaped_unmarked {value : Value} (unmarked : value.safeTexts = []) :
    escaped value = Html.escape value.display := by
  cases value with
  | safe text => cases unmarked
  | _ => rfl

/-- No expression marks a text: what it gives as safe is bound as safe. Documents hold nothing of the kind. -/
theorem marks_are_never_forged : (∀ scope text evaluator, Unforged scope text evaluator) ∧
    ∀ document, (Value.ofJson document).safeTexts = [] := by
  refine ⟨fun scope text evaluator => ?_, Value.ofJson_unmarked⟩
  have supplied : scope.Trusts scope.Supplies := fun name value found safe mem => ⟨name, value, found, mem⟩
  have evaluate := Evaluator.evaluate_trusts supplied text evaluator
  have argument := Evaluator.read_trusts supplied (Argument.read text.toList) evaluator
  have object := Value.Trusts.ofEntries (Evaluator.members_trust supplied (Argument.readMembers text.toList) evaluator)
  refine ⟨evaluate, argument, object, fun unmarked value given => ?_⟩
  have trusts : value.Trusts scope.Supplies := by
    rcases given with rfl | rfl | ⟨name, mem⟩
    · exact evaluate
    · exact argument
    · exact object _ mem
  have nothing : value.safeTexts = [] := by
    refine List.eq_nil_iff_forall_not_mem.2 fun safe mem => ?_
    obtain ⟨name, bound, found, inside⟩ := trusts safe mem
    rw [unmarked name bound found] at inside
    cases inside
  exact ⟨nothing, Render.escaped_unmarked nothing⟩

end Stencil
