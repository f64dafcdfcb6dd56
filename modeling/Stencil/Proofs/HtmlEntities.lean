import Mathlib.Data.List.Infix
import Stencil.Html
import Stencil.Text.Search

/-! Escaped text. It opens no tag and closes no attribute, and reading the five entities back gives the text that was
escaped, whether that held entities already or not. -/

namespace Stencil.Html

/-- The entities and what they stand for. -/
def entities : List (List Char × Char) :=
  [("&amp;".toList, '&'), ("&lt;".toList, '<'), ("&gt;".toList, '>'), ("&quot;".toList, '"'), ("&#039;".toList, '\'')]

def specials : List Char := ['&', '<', '>', '"', '\'']

theorem entities_eq : entities = specials.map fun c => (entity c, c) := rfl

theorem entity_special {c : Char} (special : c ∈ specials) : ∃ others, entity c = '&' :: others ∧ '&' ∉ others := by
  simp only [specials, List.mem_cons, List.not_mem_nil, or_false] at special
  rcases special with rfl | rfl | rfl | rfl | rfl
  · exact ⟨"amp;".toList, rfl, by decide⟩
  · exact ⟨"lt;".toList, rfl, by decide⟩
  · exact ⟨"gt;".toList, rfl, by decide⟩
  · exact ⟨"quot;".toList, rfl, by decide⟩
  · exact ⟨"#039;".toList, rfl, by decide⟩

theorem entity_plain {c : Char} (plain : c ∉ specials) : entity c = [c] := by
  unfold entity
  split <;> first | rfl | exact absurd (by decide) plain

/-- What the entity at the front of a text stands for, and the text behind it. -/
def entity? (text : List Char) : Option (Char × List Char) :=
  entities.findSome? fun (spelling, c) => (Text.stripPrefix? spelling text).map (c, ·)

theorem entity?_split {text rest : List Char} {c : Char} (found : entity? text = some (c, rest)) :
    c ∈ specials ∧ text = entity c ++ rest := by
  obtain ⟨⟨spelling, d⟩, listed, read⟩ := List.exists_of_findSome?_eq_some found
  obtain ⟨behind, strip, same⟩ := Option.map_eq_some_iff.1 read
  rw [entities_eq] at listed
  obtain ⟨e, special, same'⟩ := List.mem_map.1 listed
  cases same
  cases same'
  exact ⟨special, Text.stripPrefix?_eq_some.1 strip⟩

theorem entity?_entity {c : Char} (special : c ∈ specials) (rest : List Char) :
    entity? (entity c ++ rest) = some (c, rest) := by
  simp only [specials, List.mem_cons, List.not_mem_nil, or_false] at special
  rcases special with rfl | rfl | rfl | rfl | rfl <;> rfl

theorem entity?_shorter {text rest : List Char} {c : Char} (found : entity? text = some (c, rest)) :
    rest.length < text.length := by
  obtain ⟨special, rfl⟩ := entity?_split found
  obtain ⟨others, spelled, -⟩ := entity_special special
  rw [spelled, List.cons_append, List.length_cons, List.length_append]
  omega

/-- Each entity replaced by what it stands for. -/
def decodeFrom : List Char → List Char
  | [] => []
  | c :: text =>
    match _found : entity? (c :: text) with
    | some (d, rest) => d :: decodeFrom rest
    | none => c :: decodeFrom text
termination_by text => text.length
decreasing_by
  · exact entity?_shorter _found
  · exact Nat.lt_succ_self _

def decode (text : String) : String := String.ofList (decodeFrom text.toList)

theorem decodeFrom_cons (c : Char) (text : List Char) : decodeFrom (c :: text) =
    ((entity? (c :: text)).map fun (d, rest) => d :: decodeFrom rest).getD (c :: decodeFrom text) := by
  rw [decodeFrom]
  split
  next found => rw [found]; rfl
  next missing => rw [missing]; rfl

theorem decodeFrom_entity {c : Char} (special : c ∈ specials) (rest : List Char) :
    decodeFrom (entity c ++ rest) = c :: decodeFrom rest := by
  have found := entity?_entity special rest
  obtain ⟨others, spelled, -⟩ := entity_special special
  rw [spelled, List.cons_append] at found ⊢
  rw [decodeFrom_cons, found]
  rfl

/-- An entity begins with `&`, so every other character stands for itself. -/
theorem decodeFrom_plain {c : Char} (plain : c ≠ '&') (text : List Char) :
    decodeFrom (c :: text) = c :: decodeFrom text := by
  rw [decodeFrom_cons]
  cases found : entity? (c :: text) with
  | none => rfl
  | some read =>
    obtain ⟨special, split⟩ := entity?_split found
    obtain ⟨others, spelled, -⟩ := entity_special special
    rw [spelled] at split
    exact absurd (List.cons.inj split).1 plain

theorem decodeFrom_escaped (text : List Char) : decodeFrom (text.flatMap entity) = text := by
  induction text with
  | nil => rw [List.flatMap_nil, decodeFrom]
  | cons c text ih =>
    rw [List.flatMap_cons]
    by_cases special : c ∈ specials
    · rw [decodeFrom_entity special, ih]
    · have other : c ≠ '&' := by rintro rfl; exact special (by decide)
      rw [entity_plain special, List.singleton_append, decodeFrom_plain other, ih]

theorem decode_escape (text : String) : decode (escape text) = text := by
  rw [decode, escape, String.toList_ofList, decodeFrom_escaped, String.ofList_toList]

/-- Nothing in the text is markup: it holds no bracket of a tag and no quote, and every `&` begins one of the five
entities. -/
structure Inert (text : String) : Prop where
  plain : ∀ c ∈ text.toList, c ≠ '<' ∧ c ≠ '>' ∧ c ≠ '"' ∧ c ≠ '\''
  entities : ∀ before behind, text.toList = before ++ '&' :: behind → ∃ entry ∈ Html.entities, entry.1 <+: '&' :: behind

theorem plain_of_entity {c d : Char} (mem : d ∈ entity c) : d ≠ '<' ∧ d ≠ '>' ∧ d ≠ '"' ∧ d ≠ '\'' := by
  by_cases special : c ∈ specials
  · have each : (specials.all fun c => (entity c).all fun d => d ≠ '<' ∧ d ≠ '>' ∧ d ≠ '"' ∧ d ≠ '\'') = true := rfl
    exact of_decide_eq_true (List.all_eq_true.1 (List.all_eq_true.1 each c special) d mem)
  · rw [entity_plain special, List.mem_singleton] at mem
    subst mem
    simp only [specials, List.mem_cons, List.not_mem_nil, or_false, not_or] at special
    exact special.2

theorem suffix_fresh {sign : Char} {others behind rest : List Char} (fresh : sign ∉ others)
    (ends : sign :: behind <:+ others ++ rest) : sign :: behind <:+ rest := by
  induction others with
  | nil => exact ends
  | cons c others ih =>
    rw [List.mem_cons, not_or] at fresh
    rw [List.cons_append, List.suffix_cons_iff] at ends
    exact ih fresh.2 (ends.resolve_left fun same => fresh.1 (List.cons.inj same).1)

/-- Only the first sign of what a character is escaped to can be `&`. -/
theorem suffix_of_entity {c : Char} {behind rest : List Char} (ends : '&' :: behind <:+ entity c ++ rest) :
    (c ∈ specials ∧ '&' :: behind = entity c ++ rest) ∨ '&' :: behind <:+ rest := by
  by_cases special : c ∈ specials
  · obtain ⟨others, spelled, fresh⟩ := entity_special special
    rw [spelled, List.cons_append, List.suffix_cons_iff] at ends
    rw [spelled]
    exact ends.imp (⟨special, ·⟩) (suffix_fresh fresh)
  · rw [entity_plain special] at ends
    refine .inr (suffix_fresh ?_ ends)
    rw [List.mem_singleton]
    rintro rfl
    exact special (by decide)

theorem entity_at {text behind : List Char} (ends : '&' :: behind <:+ text.flatMap entity) :
    ∃ entry ∈ entities, entry.1 <+: '&' :: behind := by
  induction text with
  | nil => cases List.suffix_nil.1 ends
  | cons c text ih =>
    rw [List.flatMap_cons] at ends
    rcases suffix_of_entity ends with ⟨special, whole⟩ | further
    · exact ⟨_, entities_eq ▸ List.mem_map_of_mem special, whole ▸ List.prefix_append _ _⟩
    · exact ih further

theorem inert_escape (text : String) : Inert (escape text) where
  plain c mem := by
    rw [escape, String.toList_ofList] at mem
    obtain ⟨d, _, inside⟩ := List.mem_flatMap.1 mem
    exact plain_of_entity inside
  entities before behind split := by
    rw [escape, String.toList_ofList] at split
    exact entity_at ⟨before, split.symm⟩

end Stencil.Html
