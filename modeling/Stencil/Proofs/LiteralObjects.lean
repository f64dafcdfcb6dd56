import Stencil.Proofs.LiteralItems
import Mathlib.Data.List.Nodup

/-! Literal data in braces. Members are parted at the commas outside quotes and brackets and each at its first such
colon, so a member comes back as its key and its text, and an object as its fields in whatever order they are written.
Objects go into each other without bound; only arrays are read by the expression grammar. -/

namespace Stencil
open Text

/-- The fields as a map has them. -/
def Fields.Sorted {α : Type} (fields : Fields α) : Prop := fields.Pairwise (·.1 < ·.1)

namespace Fields
variable {α : Type} {fields : Fields α}

theorem insert_last {name : String} (last : ∀ field ∈ fields, field.1 < name) (value : α) :
    fields.insert name value = fields ++ [(name, value)] := by
  induction fields with
  | nil => rfl
  | cons field fields ih =>
    obtain ⟨here, behind⟩ := List.forall_mem_cons.1 last
    have different : name ≠ field.1 := by
      rintro rfl
      exact String.lt_irrefl _ here
    rw [insert, if_neg (String.lt_asymm here), if_neg different, ih behind]
    rfl

theorem Sorted.insertAll {before : Fields α} (sorted : Sorted (before ++ fields)) :
    before.insertAll fields = before ++ fields := by
  induction fields generalizing before with
  | nil => exact (List.append_nil before).symm
  | cons field fields ih =>
    have last : ∀ other ∈ before, other.1 < field.1 := fun other mem =>
      (List.pairwise_append.1 sorted).2.2 other mem field List.mem_cons_self
    rw [List.append_cons] at sorted ⊢
    rw [← ih sorted, ← insert_last last]
    rfl

theorem Sorted.nodup_names (sorted : Sorted fields) : fields.names.Nodup := by
  unfold Sorted at sorted
  refine List.pairwise_map.2 (sorted.imp fun {first second} below same => ?_)
  exact String.lt_irrefl second.1 (same ▸ below)

/-- However the fields are shuffled, the map made of them is the same. -/
theorem Sorted.ofEntries_perm (sorted : Sorted fields) {entries : List (String × α)} (perm : entries.Perm fields) :
    ofEntries entries = fields := by
  have commutes : ∀ first ∈ fields, ∀ second ∈ fields, ∀ bound : Fields α,
      (bound.insert first.1 first.2).insert second.1 second.2 =
        (bound.insert second.1 second.2).insert first.1 first.2 := by
    intro first mem second mem' bound
    by_cases same : first.1 = second.1
    · rw [List.inj_on_of_nodup_map sorted.nodup_names mem mem' same]
    · exact insert_comm bound same first.2 second.2
  have whole : Fields.insertAll [] fields = fields := Sorted.insertAll sorted
  exact (perm.symm.foldl_eq' commutes []).symm.trans whole

end Fields

/-- A member of an object as it stands there. -/
structure Member where
  keySpacing : Spacing isBlank
  key : Quotation
  named : key.text ≠ ""
  spacing : Spacing isBlank
  text : List Char
  value : Value

namespace Member

def letters (member : Member) : List Char :=
  member.keySpacing.around member.key.letters ++ ':' :: member.spacing.around member.text

def field (member : Member) : String × Value := (member.key.text, member.value)

/-- What it is taken apart into. -/
def halves (member : Member) : List Char × List Char := (member.key.text.toList, member.text)

end Member

mutual
/-- The text stands for the value. -/
inductive Spells : List Char → Value → Prop where
  | item {text : List Char} {value : Value} (item : Item Expr.nestingCap text value) : Spells text value
  | object {text : List Char} {members : List Member} {fields : Fields Value}
      (braced : SpellsObject text members fields) : Spells text (.object fields)

/-- The text holds the members, and they are the fields in some order. -/
inductive SpellsObject : List Char → List Member → Fields Value → Prop where
  | braces (members : List Member) {fields : Fields Value} (blanks : List Char)
      (blank : ∀ c ∈ blanks, isBlank c = true) (inside : ∀ member ∈ members, Spells member.text member.value)
      (perm : (members.map Member.field).Perm fields) (sorted : fields.Sorted) :
    SpellsObject ('\x7b' :: (listed (members.map Member.letters) ++ blanks ++ ['\x7d'])) members fields
end

namespace Argument

theorem passes_member {separator : Char} (sign : IsSeparator separator) {depth : Nat}
    (kept : depth ≠ 0 ∨ ':' ≠ separator) (member : Member)
    (inside : Passes separator ⟨depth, none, false⟩ member.text ⟨depth, none, false⟩) :
    Passes separator ⟨depth, none, false⟩ member.letters ⟨depth, none, false⟩ := by
  have key := passes_around sign.visible member.keySpacing (member.key.passes_letters separator depth)
  have colon : Passes separator ⟨depth, none, false⟩ [':'] ⟨depth, none, false⟩ := passes_char rfl kept
  exact key.append (colon.append (passes_around sign.visible member.spacing inside))

variable {separator : Char} (sign : IsSeparator separator)
include sign

mutual
/-- Neither a comma nor a colon of a value in literal form cuts anything. -/
theorem passes_spelled {text : List Char} {value : Value} (spells : Spells text value) (depth : Nat) :
    Passes separator ⟨depth, none, false⟩ text ⟨depth, none, false⟩ := by
  match spells with
  | .item item => exact item.passes sign depth
  | .object braced => exact passes_braced braced depth

theorem passes_braced {text : List Char} {members : List Member} {fields : Fields Value}
    (braced : SpellsObject text members fields) (depth : Nat) :
    Passes separator ⟨depth, none, false⟩ text ⟨depth, none, false⟩ := by
  match braced with
  | .braces _ _ blank inside _ _ =>
    have each : ∀ letters ∈ members.map Member.letters,
        Passes separator ⟨depth + 1, none, false⟩ letters ⟨depth + 1, none, false⟩ := by
      intro letters mem
      obtain ⟨member, among, rfl⟩ := List.mem_map.1 mem
      exact passes_member sign (.inl (Nat.succ_ne_zero depth)) member (passes_spelled (inside member among) (depth + 1))
    have inner := (passes_listed (Nat.succ_ne_zero _) each).append (passes_blank sign.visible _ blank)
    exact passes_enclosed ⟨rfl, rfl⟩ rfl rfl inner
end

end Argument

theorem Spells.trimmed {text : List Char} {value : Value} (spells : Spells text value) : Trimmed text := by
  cases spells with
  | item item => exact item.trimmed
  | object braced =>
    cases braced
    exact .of_ends _ (by decide) (by decide)

theorem Spells.ne_nil {text : List Char} {value : Value} (spells : Spells text value) : text ≠ [] := by
  cases spells with
  | item item => exact item.ne_nil
  | object braced =>
    cases braced
    exact List.cons_ne_nil _ _

namespace Member
open Argument

variable {member : Member} (inside : Spells member.text member.value)

/-- The member without the blanks around it. -/
def core (member : Member) : List Char :=
  member.key.letters ++ member.keySpacing.behind ++ ':' :: (member.spacing.before ++ member.text)

include inside

theorem trim_letters : trim member.letters = member.core := by
  have core : Trimmed member.core := by
    constructor
    · rintro c ⟨⟩
      exact member.key.quote.visible
    · intro c last
      rw [Member.core, List.getLast?_append_cons, ← List.cons_append,
        List.getLast?_append_of_ne_nil _ inside.ne_nil] at last
      exact inside.trimmed.last c last
  have parts : member.letters =
      member.keySpacing.before ++ (member.core ++ member.spacing.behind) := by
    simp [letters, Member.core, Spacing.around]
  rw [parts, trim_blank_append member.keySpacing.holdsBefore, trim_append_blank _ member.spacing.holdsBehind, core.trim]

theorem member?_core : member? member.core = some member.halves := by
  have key : Passes ':' {} (member.key.letters ++ member.keySpacing.behind) {} :=
    (member.key.passes_letters ':' 0).append (passes_blank (by decide) 0 member.keySpacing.holdsBehind)
  have cut : splitOnce? ':' member.core = some (member.key.letters, member.text) := by
    rw [splitOnce?, core, key.cut?]
    change some (trim (member.key.letters ++ member.keySpacing.behind ++ []),
      trim (member.spacing.before ++ member.text)) = _
    rw [List.append_nil, trim_append_blank _ member.keySpacing.holdsBehind, member.key.trim_letters,
      trim_blank_append member.spacing.holdsBefore, inside.trimmed.trim]
  have named : member.key.text.toList ≠ [] := fun empty => member.named (String.toList_eq_nil_iff.1 empty)
  simp [member?, cut, member.key.stringLiteral?_letters, named, inside.ne_nil, halves]

end Member

namespace Argument

/-- Commas outside quotes and brackets part the texts. -/
theorem pieces_listed (first : List Char) (others : List (List Char)) {blanks : List Char}
    (blank : ∀ c ∈ blanks, isBlank c = true) (passes : ∀ text ∈ first :: others, Passes ',' {} text {}) :
    (pieces ',' {} (listed (first :: others) ++ blanks)).map trim = (first :: others).map trim := by
  induction others generalizing first with
  | nil =>
    have whole := (passes first List.mem_cons_self).append (passes_blank (by decide) 0 blank)
    have one := whole.pieces []
    rw [List.append_nil] at one
    rw [listed_singleton, one]
    change [trim (first ++ blanks ++ [])] = [trim first]
    rw [List.append_nil, trim_append_blank first blank]
  | cons second others ih =>
    obtain ⟨here, behind⟩ := List.forall_mem_cons.1 passes
    rw [listed_cons, List.append_assoc, here.pieces, List.map_cons, ← ih second behind]
    change trim (first ++ []) :: _ = _
    rw [List.append_nil]
    rfl

theorem split_members {members : List Member} {blanks : List Char} (blank : ∀ c ∈ blanks, isBlank c = true)
    (inside : ∀ member ∈ members, Spells member.text member.value) :
    split ',' (listed (members.map Member.letters) ++ blanks) = members.map Member.core := by
  cases members with
  | nil =>
    have whole : Passes ',' {} blanks {} := passes_blank (by decide) 0 blank
    have one := whole.pieces []
    rw [List.append_nil] at one
    have nothing : (pieces ',' {} blanks).map trim = [[]] := by
      rw [one]
      change [trim (blanks ++ [])] = [[]]
      rw [trim_blank_append blank]
      rfl
    rw [List.map_nil, listed_nil, List.nil_append, split, nothing]
    rfl
  | cons first others =>
    have passes : ∀ text ∈ (first :: others).map Member.letters, Passes ',' {} text {} := by
      intro text mem
      obtain ⟨member, among, rfl⟩ := List.mem_map.1 mem
      exact passes_member (.inl rfl) (.inr (by decide)) member (passes_spelled (.inl rfl) (inside member among) 0)
    have cores : ((first :: others).map Member.letters).map trim = (first :: others).map Member.core := by
      rw [List.map_map]
      exact List.map_congr_left fun member mem => Member.trim_letters (inside member mem)
    rw [List.map_cons, split, pieces_listed _ _ blank passes, ← List.map_cons, cores]
    split
    next blank => simp [Member.core, Quotation.letters] at blank
    next => rfl

theorem members?_cores {members : List Member} (inside : ∀ member ∈ members, Spells member.text member.value) :
    members? (members.map Member.core) = some (members.map Member.halves) := by
  induction members with
  | nil => rfl
  | cons member members ih =>
    obtain ⟨here, behind⟩ := List.forall_mem_cons.1 inside
    have filled : member.core.isEmpty = false := by simp [Member.core, Quotation.letters]
    simp [members?, filled, Member.member?_core here, ih behind]

/-- The braces are taken off. -/
theorem objectBody?_braces {text body : List Char} (braces : trim text = '\x7b' :: (body ++ ['\x7d'])) :
    objectBody? text = some body := by
  rw [objectBody?, braces]
  simp [stripPrefix?, stripSuffix?]

theorem isObject_around (spacing : Spacing isBlank) (rest : List Char) :
    isObject (spacing.around ('\x7b' :: rest)) = true := by
  rw [isObject, trimLeft, Spacing.around, List.append_assoc, List.dropWhile_append_of_pos spacing.holdsBefore]
  rfl

theorem readMembers_of {text : List Char} {members : List (List Char × List Char)}
    (taken : objectMembers? text = some members) :
    readMembers text = members.map fun (key, value) => (String.ofList key, read value) := by
  rw [readMembers]
  split
  next none => cases none.symm.trans taken
  next found some =>
    cases some.symm.trans taken
    have same := congrArg (List.map fun (key, value) => (String.ofList key, read value))
      (List.attach_map_subtype_val members)
    rwa [List.map_map] at same

theorem membersBy_map (expression : String → Value) (members : List (List Char × List Char)) :
    membersBy expression (members.map fun (key, value) => (String.ofList key, read value)) =
      members.map fun (key, value) => (String.ofList key, (read value).valueBy expression) := by
  induction members with
  | nil => rfl
  | cons member members ih => exact congrArg (_ :: ·) ih

end Argument

open Argument

theorem SpellsObject.objectMembers? {text : List Char} {members : List Member} {fields : Fields Value}
    (braced : SpellsObject text members fields) (spacing : Spacing isBlank) :
    Argument.objectMembers? (spacing.around text) = some (members.map Member.halves) := by
  have trimmed : trim (spacing.around text) = text := by
    rw [spacing.trim_around, (Spells.object braced).trimmed.trim]
  cases braced with
  | braces _ _ blank inside _ _ =>
    rw [Argument.objectMembers?, objectBody?_braces trimmed, Option.bind_some, split_members blank inside,
      members?_cores inside]

mutual
/-- What is read from a text is the value that it stands for. -/
theorem Spells.value_read {text : List Char} {value : Value} (spells : Spells text value) (scope : Scope) :
    (read text).valueBy scope.value = value := by
  match spells with
  | .item item => exact item.value_read scope
  | .object braced =>
    have alone := braced.value_read {} scope
    rwa [Spacing.around, List.nil_append, List.append_nil] at alone

theorem SpellsObject.value_read {text : List Char} {members : List Member} {fields : Fields Value}
    (braced : SpellsObject text members fields) (spacing : Spacing isBlank) (scope : Scope) :
    (read (spacing.around text)).valueBy scope.value = .object fields := by
  have taken := braced.objectMembers? spacing
  match braced with
  | .braces members _ _ inside perm sorted =>
    have each : (members.map Member.halves).map (fun (key, value) => (String.ofList key, (read value).valueBy scope.value)) =
        members.map Member.field := by
      rw [List.map_map]
      refine List.map_congr_left fun member mem => ?_
      change (String.ofList member.key.text.toList, (read member.text).valueBy scope.value) = member.field
      rw [String.ofList_toList, (inside member mem).value_read scope]
      rfl
    rw [Argument.read, if_pos (isObject_around spacing _), readMembers_of taken]
    change Value.object (Fields.ofEntries (membersBy scope.value _)) = _
    rw [membersBy_map, each, sorted.ofEntries_perm perm]
end

/-- Arrays of null, truths and texts, and arrays of these, as many deep as given. -/
inductive IsItem : Nat → Value → Prop where
  | null (depth : Nat) : IsItem depth .null
  | bool (depth : Nat) (truth : Bool) : IsItem depth (.bool truth)
  | string (depth : Nat) (text : String) : IsItem depth (.string text)
  | array {depth : Nat} {items : List Value} (inside : ∀ item ∈ items, IsItem depth item) :
    IsItem (depth + 1) (.array items)

/-- Items and objects of these, with no empty key. -/
inductive IsLiteralData : Value → Prop where
  | item {value : Value} (item : IsItem Expr.nestingCap value) : IsLiteralData value
  | object {fields : Fields Value} (named : ∀ field ∈ fields, field.1 ≠ "")
      (inside : ∀ field ∈ fields, IsLiteralData field.2) (sorted : fields.Sorted) : IsLiteralData (.object fields)

theorem exists_of_forall_mem {α β : Type} {f : β → α} {holds : β → Prop} (items : List α)
    (each : ∀ item ∈ items, ∃ source, f source = item ∧ holds source) :
    ∃ sources : List β, sources.map f = items ∧ ∀ source ∈ sources, holds source := by
  induction items with
  | nil => exact ⟨[], rfl, fun _ => nofun⟩
  | cons item items ih =>
    obtain ⟨⟨source, rfl, here⟩, behind⟩ := List.forall_mem_cons.1 each
    obtain ⟨sources, rfl, others⟩ := ih behind
    exact ⟨source :: sources, rfl, List.forall_mem_cons.2 ⟨here, others⟩⟩

theorem IsItem.exists_text {depth : Nat} {value : Value} (item : IsItem depth value) : ∃ text, Item depth text value := by
  induction item with
  | null => exact ⟨_, .null _⟩
  | bool _ truth => exact ⟨_, .bool _ truth⟩
  | string _ text => exact ⟨_, .string _ (Literal.quotation ⟨.single, text⟩)⟩
  | @array depth items _ ih =>
    obtain ⟨written, rfl, inside⟩ : ∃ written : List Written, written.map Written.value = items ∧
        ∀ item ∈ written, Item depth item.text item.value := by
      refine exists_of_forall_mem items fun value mem => ?_
      obtain ⟨text, item⟩ := ih value mem
      exact ⟨⟨{}, text, value⟩, rfl, item⟩
    exact ⟨_, .array written [] inside fun _ => nofun⟩

theorem IsLiteralData.exists_text {value : Value} (data : IsLiteralData value) : ∃ text, Spells text value := by
  induction data with
  | item item =>
    obtain ⟨text, item⟩ := item.exists_text
    exact ⟨text, .item item⟩
  | @object fields named _ sorted ih =>
    obtain ⟨members, rfl, inside⟩ : ∃ members : List Member, members.map Member.field = fields ∧
        ∀ member ∈ members, Spells member.text member.value := by
      refine exists_of_forall_mem fields fun field mem => ?_
      obtain ⟨text, spells⟩ := ih field mem
      exact ⟨⟨{}, Literal.quotation ⟨.single, field.1⟩, named field mem, {}, text, field.2⟩, rfl, spells⟩
    exact ⟨_, .object (.braces members [] (fun _ => nofun) inside (.refl _) sorted)⟩

/-- Literal data can be written as text. However it is written, with any blanks around keys and values, any backslashes in
texts and the members in any order, it is read as the same data whatever the variables are, and is taken apart into its
keys and the texts of its members as they stand there. -/
theorem literal_data_is_read_back {fields : Fields Value} (data : IsLiteralData (.object fields)) :
    (∃ text members, SpellsObject text members fields) ∧
      ∀ text members, SpellsObject text members fields → ∀ spacing : Spacing isBlank,
        (∀ scope evaluator,
          (Evaluator.argument scope (String.ofList (spacing.around text)) evaluator).1 = .object fields) ∧
        Argument.objectMembers? (spacing.around text) = some (members.map Member.halves) := by
  refine ⟨?_, fun text members braced spacing => ⟨fun scope evaluator => ?_, braced.objectMembers? spacing⟩⟩
  · obtain ⟨text, spells⟩ := data.exists_text
    cases spells with
    | item item => cases item
    | object braced => exact ⟨text, _, braced⟩
  · rw [Evaluator.argument_fst, Scope.argument, String.toList_ofList]
    exact braced.value_read spacing scope

/-! A basket of literal data with brackets, quotes and separators in its texts, and members that are not in order. -/

namespace Basket

def quoted : Quotation := Literal.quotation ⟨.single, "a,b]"⟩

def goods : List Written :=
  [⟨{ before := [' '], behind := [' '] }, quoted.letters, .string quoted.text⟩,
    ⟨{ before := [' '] }, "[]".toList, .array []⟩]

def label : Member := ⟨{}, Literal.quotation ⟨.double, "n"⟩, by decide, {}, "null".toList, .null⟩

def members : List Member :=
  [⟨{ before := [' '], behind := [' '] }, Literal.quotation ⟨.double, "\x7d:"⟩, by decide, { before := [' '] },
      '[' :: (listed (goods.map Written.letters) ++ [] ++ [']']), .array (goods.map Written.value)⟩,
    ⟨{ before := [' '] }, Literal.quotation ⟨.single, "it's"⟩, by decide, {},
      '\x7b' :: (listed ([label].map Member.letters) ++ [] ++ ['\x7d']), .object [label.field]⟩]

def fields : Fields Value :=
  [("it's", .object [("n", .null)]), ("\x7d:", .array [.string "a,b]", .array []])]

def braces : List Char := '\x7b' :: (listed (members.map Member.letters) ++ [' '] ++ ['\x7d'])

def border : Spacing isBlank := { before := ['\n'], behind := [' '] }

def written : String := "\n\x7b \"\x7d:\" : [ 'a,b]' , []], 'it\\'s':\x7b\"n\":null\x7d \x7d "

theorem data : IsLiteralData (.object fields) := by
  have inner : IsLiteralData (.object [("n", .null)]) :=
    .object (List.forall_mem_singleton.2 (by decide)) (List.forall_mem_singleton.2 (.item (.null _)))
      (List.pairwise_singleton _ _)
  have array : IsLiteralData (.array [.string "a,b]", .array []]) :=
    .item (.array (List.forall_mem_cons.2 ⟨.string _ _, List.forall_mem_singleton.2 (.array fun _ => nofun)⟩))
  have named : ∀ field ∈ fields, field.1 ≠ "" :=
    List.forall_mem_cons.2 ⟨by decide, List.forall_mem_singleton.2 (by decide)⟩
  refine .object named (List.forall_mem_cons.2 ⟨inner, List.forall_mem_singleton.2 array⟩) ?_
  exact List.pairwise_pair.2 (by decide)

theorem spelled : SpellsObject braces members fields := by
  have empty : Item 31 "[]".toList (.array []) := .array [] [] (fun _ => nofun) fun _ => nofun
  have array : Item 32 _ (.array (goods.map Written.value)) :=
    .array goods [] (List.forall_mem_cons.2 ⟨.string _ quoted, List.forall_mem_singleton.2 empty⟩) fun _ => nofun
  have inner : SpellsObject _ [label] [label.field] :=
    .braces [label] [] (fun _ => nofun) (List.forall_mem_singleton.2 (.item (.null _))) (.refl _)
      (List.pairwise_singleton _ _)
  refine .braces members [' '] (List.forall_mem_singleton.2 rfl) ?_ (.swap ..) (List.pairwise_pair.2 (by decide))
  exact List.forall_mem_cons.2 ⟨.item array, List.forall_mem_singleton.2 (.object inner)⟩

theorem basket_is_read_back : IsLiteralData (.object fields) ∧
    (∀ scope evaluator, (Evaluator.argument scope written evaluator).1 = .object fields) ∧
    Argument.objectMembers? written.toList =
      some [("\x7d:".toList, "[ 'a,b]' , []]".toList), ("it's".toList, "\x7b\"n\":null\x7d".toList)] := by
  have whole : border.around braces = written.toList := by decide
  obtain ⟨evaluated, taken⟩ := (literal_data_is_read_back data).2 _ _ spelled border
  rw [whole] at evaluated taken
  rw [String.ofList_toList] at evaluated
  exact ⟨data, evaluated, taken⟩

end Basket

end Stencil
