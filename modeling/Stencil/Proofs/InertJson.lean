import Mathlib.Data.List.TakeWhile
import Stencil.Engine.Directive
import Stencil.Proofs.ExpressionVariables
import Stencil.Proofs.JsonSpelling

/-! A value printed as JSON into a page. The four characters that HTML could take for its own
stand inside quotes only, and never behind a backslash that still waits for its character;
so the escapes that replace them change no text into one that means something else. -/

namespace Stencil

namespace Json
open Decimal Directive

/-- The four characters that are replaced. -/
def unsafeChars : List Char := ['<', '>', '&', '\'']

theorem inertChar_safe {c : Char} (safe : c ∉ unsafeChars) : inertChar c = [c] := by
  unfold inertChar
  split <;> simp_all [unsafeChars]

theorem inertChar_unsafe {c : Char} (mem : c ∈ unsafeChars) :
    ∃ high low, inertChar c = ['\\', 'u', '0', '0', high, low] ∧ hexUnit? '0' '0' high low = some c.toNat ∧
      c.toNat < 0xD800 := by
  simp only [unsafeChars, List.mem_cons, List.not_mem_nil, or_false] at mem
  rcases mem with rfl | rfl | rfl | rfl <;> exact ⟨_, _, rfl, by decide, by decide⟩

/-- None of the four is left. -/
theorem not_mem_inert {c : Char} (mem : c ∈ unsafeChars) (text : List Char) : c ∉ text.flatMap inertChar := by
  intro left
  obtain ⟨d, -, inside⟩ := List.mem_flatMap.1 left
  by_cases other : d ∈ unsafeChars
  · simp only [unsafeChars, List.mem_cons, List.not_mem_nil, or_false] at mem other
    rcases mem with rfl | rfl | rfl | rfl <;> rcases other with rfl | rfl | rfl | rfl <;> revert inside <;> decide
  · rw [inertChar_safe other, List.mem_singleton] at inside
    exact other (inside ▸ mem)

theorem inert_cons {c : Char} (safe : c ∉ unsafeChars) (text : List Char) :
    (c :: text).flatMap inertChar = c :: text.flatMap inertChar := by
  rw [List.flatMap_cons, inertChar_safe safe, List.singleton_append]

section Classes
variable {holds : Char → Bool} (others : ('\\' :: unsafeChars).all (fun c => !holds c) = true)
include others

theorem not_held {c : Char} (mem : c ∈ '\\' :: unsafeChars) : holds c = false := by
  simpa using List.all_eq_true.1 others c mem

theorem inert_held {text : List Char} (all : ∀ c ∈ text, holds c = true) : text.flatMap inertChar = text := by
  induction text with
  | nil => rfl
  | cons c text ih =>
    have safe : c ∉ unsafeChars := fun mem => by
      have held := all c List.mem_cons_self
      rw [not_held others (List.mem_cons_of_mem _ mem)] at held
      cases held
    rw [inert_cons safe, ih fun d mem => all d (List.mem_cons_of_mem _ mem)]

theorem inert_stops {text : List Char} (stops : text.takeWhile holds = []) :
    (text.flatMap inertChar).takeWhile holds = [] := by
  cases text with
  | nil => rfl
  | cons c text =>
    by_cases mem : c ∈ unsafeChars
    · obtain ⟨high, low, escape, -, -⟩ := inertChar_unsafe mem
      rw [List.flatMap_cons, escape]
      exact List.takeWhile_cons_of_neg (by simp [not_held others List.mem_cons_self])
    · have held : holds c = false := by
        cases held : holds c with
        | true => simp [held] at stops
        | false => rfl
      rw [inert_cons mem, List.takeWhile_cons_of_neg (by simp [held])]

/-- Characters of one kind are kept, and what is behind them starts with no further one. -/
theorem split_inert (text : List Char) :
    text.flatMap inertChar = text.takeWhile holds ++ (text.dropWhile holds).flatMap inertChar ∧
      ((text.dropWhile holds).flatMap inertChar).takeWhile holds = [] := by
  have stops : (text.dropWhile holds).takeWhile holds = [] := by
    have all (c : Char) (mem : c ∈ text.takeWhile holds) : holds c = true := List.mem_takeWhile_imp mem
    have whole : (text.takeWhile holds ++ text.dropWhile holds).takeWhile holds = _ := List.takeWhile_append_of_pos all
    rw [List.takeWhile_append_dropWhile] at whole
    exact List.append_right_eq_self.1 whole.symm
  refine ⟨?_, inert_stops others stops⟩
  conv_lhs => rw [← List.takeWhile_append_dropWhile (p := holds) (l := text)]
  rw [List.flatMap_append, inert_held others fun c mem => List.mem_takeWhile_imp mem]

theorem takeWhile_inert (text : List Char) : (text.flatMap inertChar).takeWhile holds = text.takeWhile holds := by
  obtain ⟨whole, stops⟩ := split_inert others text
  rw [whole, takeWhile_append (fun c mem => List.mem_takeWhile_imp mem) stops]

theorem dropWhile_inert (text : List Char) :
    (text.flatMap inertChar).dropWhile holds = (text.dropWhile holds).flatMap inertChar := by
  obtain ⟨whole, stops⟩ := split_inert others text
  rw [whole, dropWhile_append (fun c mem => List.mem_takeWhile_imp mem) stops]

end Classes

theorem skipBlanks_inert (text : List Char) :
    skipBlanks (text.flatMap inertChar) = (skipBlanks text).flatMap inertChar :=
  dropWhile_inert rfl text

theorem opened_inert {text tail : List Char} {c : Char} (opened : skipBlanks text = c :: tail)
    (safe : c ∉ unsafeChars) : skipBlanks (text.flatMap inertChar) = c :: tail.flatMap inertChar := by
  rw [skipBlanks_inert, opened, inert_cons safe]

theorem numeral?_inert (text : List Char) : numeral? (text.flatMap inertChar) = numeral? text :=
  congrArg Numeral.read? (takeWhile_inert rfl text)

/-! ## Texts in quotes -/

theorem hexValue?_safe {c : Char} {value : Nat} (read : hexValue? c = some value) : c ∉ unsafeChars := by
  intro mem
  simp only [unsafeChars, List.mem_cons, List.not_mem_nil, or_false] at mem
  rcases mem with rfl | rfl | rfl | rfl <;> cases read

theorem inert_unit {a b c d : Char} {unit : Nat} (read : hexUnit? a b c d = some unit) (text : List Char) :
    ('\\' :: 'u' :: a :: b :: c :: d :: text).flatMap inertChar =
      '\\' :: 'u' :: a :: b :: c :: d :: text.flatMap inertChar := by
  obtain ⟨_, first, read⟩ := Option.bind_eq_some_iff.1 read
  obtain ⟨_, second, read⟩ := Option.bind_eq_some_iff.1 read
  obtain ⟨_, third, read⟩ := Option.bind_eq_some_iff.1 read
  obtain ⟨_, fourth, -⟩ := Option.bind_eq_some_iff.1 read
  rw [inert_cons (by decide), inert_cons (by decide), inert_cons (hexValue?_safe first),
    inert_cons (hexValue?_safe second), inert_cons (hexValue?_safe third), inert_cons (hexValue?_safe fourth)]

theorem simpleEscape?_safe {mark meant : Char} (known : simpleEscape? mark = some meant) : mark ∉ unsafeChars := by
  intro mem
  simp only [unsafeChars, List.mem_cons, List.not_mem_nil, or_false] at mem
  rcases mem with rfl | rfl | rfl | rfl <;> cases known

/-- What stands in quotes means the same. -/
theorem readChars?_inert {text chars rest : List Char} (read : readChars? text = some (chars, rest)) :
    readChars? (text.flatMap inertChar) = some (chars, rest.flatMap inertChar) := by
  fun_induction readChars? text generalizing chars rest with
  | case1 => cases read
  | case2 => cases read; rfl
  | case3 a b c d text ih ih' =>
    obtain ⟨unit, known, read⟩ := Option.bind_eq_some_iff.1 read
    split at read
    next high =>
      split at read
      next e f g h text =>
        obtain ⟨low, known', read⟩ := Option.bind_eq_some_iff.1 read
        split at read
        next second =>
          obtain ⟨_, further, same⟩ := Option.bind_eq_some_iff.1 read
          cases same
          rw [inert_unit known, inert_unit known',
            readChars?_pair _ known known' (by simpa using high) (by simpa using second), ih further]
          rfl
        next => cases read
      next => cases read
    next high =>
      split at read
      next => cases read
      next low =>
        obtain ⟨_, further, same⟩ := Option.bind_eq_some_iff.1 read
        cases same
        rw [inert_unit known, readChars?_unit _ known (by simp at high low; omega), ih' further]
        rfl
  | case4 mark text _ ih =>
    obtain ⟨meant, known, read⟩ := Option.bind_eq_some_iff.1 read
    obtain ⟨_, further, same⟩ := Option.bind_eq_some_iff.1 read
    cases same
    rw [inert_cons (by decide), inert_cons (simpleEscape?_safe known), readChars?_simple _ known, ih further]
    rfl
  | case5 => cases read
  | case6 c text notQuote _ notSlash visible ih =>
    obtain ⟨_, further, same⟩ := Option.bind_eq_some_iff.1 read
    cases same
    by_cases mem : c ∈ unsafeChars
    · obtain ⟨high, low, escape, unit, single⟩ := inertChar_unsafe mem
      rw [List.flatMap_cons, escape]
      have read := readChars?_unit (text.flatMap inertChar) unit (.inl single)
      rw [Char.ofNat_toNat, ih further] at read
      exact read
    · simp only [Bool.or_eq_true, decide_eq_true_eq, not_or, not_lt] at visible
      rw [inert_cons mem, readChars?_plain _ visible.1 notQuote visible.2, ih further]
      rfl

/-! ## Documents -/

mutual
/-- What a text denotes is what its inert form denotes. -/
theorem Denotes.inert {text rest : List Char} {value : Json} (denotes : Denotes text value rest) :
    Denotes (text.flatMap inertChar) value (rest.flatMap inertChar) := by
  cases denotes with
  | null here => exact .null (by rw [skipBlanks_inert, here, List.flatMap_append]; rfl)
  | bool value here => exact .bool value (by rw [skipBlanks_inert, here, List.flatMap_append]; cases value <;> rfl)
  | integer read whole =>
    rw [← numeral?_inert, ← skipBlanks_inert] at read
    rw [← dropWhile_inert rfl, ← skipBlanks_inert]
    exact .integer read whole
  | decimal read broken finite sign rounds =>
    rw [← numeral?_inert, ← skipBlanks_inert] at read
    rw [← dropWhile_inert rfl, ← skipBlanks_inert]
    exact .decimal read broken finite sign rounds
  | string opened read => exact .string (opened_inert opened (by decide)) (readChars?_inert read)
  | noItems opened closed => exact .noItems (opened_inert opened (by decide)) (opened_inert closed (by decide))
  | array opened content => exact .array (opened_inert opened (by decide)) content.inert
  | noMembers opened closed => exact .noMembers (opened_inert opened (by decide)) (opened_inert closed (by decide))
  | object opened content => exact .object (opened_inert opened (by decide)) content.inert

theorem Items.inert {text rest : List Char} {items : List Json} (content : Items text items rest) :
    Items (text.flatMap inertChar) items (rest.flatMap inertChar) := by
  cases content with
  | last denotes closed => exact .last denotes.inert (opened_inert closed (by decide))
  | more denotes comma others => exact .more denotes.inert (opened_inert comma (by decide)) others.inert

theorem Member.inert {text rest : List Char} {member : String × Json} (denotes : Member text member rest) :
    Member (text.flatMap inertChar) member (rest.flatMap inertChar) := by
  cases denotes with
  | named opened read colon denotes =>
    exact .named (opened_inert opened (by decide)) (readChars?_inert read) (opened_inert colon (by decide))
      denotes.inert

theorem Members.inert {text rest : List Char} {members : List (String × Json)} (content : Members text members rest) :
    Members (text.flatMap inertChar) members (rest.flatMap inertChar) := by
  cases content with
  | last denotes closed => exact .last denotes.inert (opened_inert closed (by decide))
  | more denotes comma others => exact .more denotes.inert (opened_inert comma (by decide)) others.inert
end

theorem Means.inert {text : String} {document : Json} (means : Means text document) :
    Means (Directive.inert text) document := by
  obtain ⟨rest, denotes, nothing⟩ := means
  refine ⟨rest.flatMap inertChar, ?_, ?_⟩
  · simpa [Directive.inert] using denotes.inert
  · rw [skipBlanks_inert, nothing, List.flatMap_nil]

end Json

namespace Directive
open Json

/-- A document written in either way denotes nothing but itself. -/
theorem means_inert (document : Json) (finite : document.Finite) (pretty : Bool) (other : Json) :
    Means (inert (if pretty then document.pretty else document.compact)) other ↔ other = document := by
  have means : Means (inert (if pretty then document.pretty else document.compact)) document := by
    cases pretty with
    | true => exact (means_of_writes (writes_prettyAt 0 document finite)).inert
    | false => exact (means_of_writes (writes_compact document finite)).inert
  constructor
  · exact fun means' => means'.unique means
  · rintro rfl
    exact means

/-- Without an argument there is an error. With one, the text has none of the four characters in it, and it denotes
the argument's value as JSON and nothing else, on one line or, if a second argument holds, on many. -/
theorem json_is_inert_and_faithful (call : Call) (expression : String → Value) :
    match call.parts with
    | [] => (json call).resultBy expression = .error (.missingArgument call.name 0)
    | part :: others =>
      let document := ((Argument.read part.toList).valueBy expression).toJson
      let pretty := others.head?.any fun second => ((Argument.read second.toList).valueBy expression).isTruthy
      ∃ text, (json call).resultBy expression = .ok text ∧
        text = inert (if pretty then document.pretty else document.compact) ∧
        (∀ c ∈ ['<', '>', '&', '\''], c ∉ text.toList) ∧ ∀ other, Means text other ↔ other = document := by
  have first := call.value?_resultBy expression 0
  have second := call.value?_resultBy expression 1
  split
  next none =>
    rw [none] at first
    unfold json Call.required
    rw [Query.bind_resultBy, Query.bind_resultBy, first]
    rfl
  next part others some =>
    rw [some] at first second
    refine ⟨_, ?_, rfl, fun c mem => ?_, means_inert _ (Value.toJson_finite _) _⟩
    · unfold json Call.required
      rw [Query.bind_resultBy, Query.bind_resultBy, first]
      change ((call.value? 1) >>= _ : Query _).resultBy expression = _
      rw [Query.bind_resultBy, second]
      cases others with
      | nil => rfl
      | cons second others => rfl
    · rw [inert, String.toList_ofList]
      exact not_mem_inert mem _

end Directive
end Stencil
