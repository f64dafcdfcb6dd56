import Mathlib
import Stencil.Proofs.TextCuts
import Stencil.Template.Name

/-! Template names by their segments. Cutting a text at a separator and joining pieces with it undo each other, so a
text is a name exactly when it joins segments with dots. -/

namespace Stencil

namespace Text

theorem splitAll_eq_splitOn (separator : Char) (text : List Char) :
    splitAll separator text = text.splitOn separator := by
  induction text with
  | nil => rfl
  | cons c text ih =>
    rw [splitAll, ih]
    simp only [List.splitOn_eq_splitOnP, List.splitOnP_cons_eq_if_modifyHead]
    cases same : text.splitOnP (· == separator) with
    | nil => exact absurd same (List.splitOnP_ne_nil _ _)
    | cons piece pieces => simp

theorem splitAll_of_free {separator : Char} {text : List Char} (free : separator ∉ text) :
    splitAll separator text = [text] := by
  rw [splitAll_eq_splitOn]
  exact List.splitOn_eq_singleton free

theorem splitAll_append_cons (separator : Char) (text behind : List Char) :
    splitAll separator (text ++ separator :: behind) = splitAll separator text ++ splitAll separator behind := by
  simp only [splitAll_eq_splitOn]
  exact List.splitOn_append_cons_self text behind

theorem splitAll_intercalate {separator : Char} {pieces : List (List Char)} (filled : pieces ≠ [])
    (free : ∀ piece ∈ pieces, separator ∉ piece) : splitAll separator ([separator].intercalate pieces) = pieces := by
  rw [splitAll_eq_splitOn]
  exact List.splitOn_intercalate separator free filled

theorem splitAll_append_of_free {separator : Char} {front : List Char} (free : separator ∉ front) (text : List Char) :
    splitAll separator (front ++ text) = (splitAll separator text).modifyHead (front ++ ·) := by
  induction front with
  | nil => cases same : splitAll separator text <;> simp [same]
  | cons c front ih =>
    have other : c ≠ separator := (List.ne_of_not_mem_cons free).symm
    rw [List.cons_append, splitAll, if_neg other, ih (List.not_mem_of_not_mem_cons free)]
    cases same : splitAll separator text with
    | nil => simp [splitAll_eq_splitOn, List.splitOn_ne_nil] at same
    | cons piece pieces => rfl

theorem intercalate_cons_append (separator : Char) (first : List Char) (front : List (List Char)) (last : List Char) :
    [separator].intercalate (first :: (front ++ [last])) =
      first ++ separator :: [separator].intercalate (front ++ [last]) := by
  cases front <;> simp

theorem mem_intercalate {separator c : Char} {pieces : List (List Char)} (mem : c ∈ [separator].intercalate pieces) :
    c = separator ∨ ∃ piece ∈ pieces, c ∈ piece := by
  induction pieces with
  | nil => cases mem
  | cons first pieces ih =>
    cases pieces with
    | nil =>
      rw [List.intercalate_singleton] at mem
      exact .inr ⟨first, List.mem_cons_self, mem⟩
    | cons second pieces =>
      rw [List.intercalate_cons_cons, List.append_assoc] at mem
      rcases List.mem_append.1 mem with here | behind
      · exact .inr ⟨first, List.mem_cons_self, here⟩
      · rcases List.mem_cons.1 behind with same | behind
        · exact .inl same
        · exact (ih behind).imp_right fun ⟨piece, among, mem⟩ => ⟨piece, List.mem_cons_of_mem _ among, mem⟩

/-- A piece between separators has no separator in it, and nothing that the text has not. -/
theorem mem_splitAll {separator : Char} {text piece : List Char} (mem : piece ∈ splitAll separator text) :
    separator ∉ piece ∧ piece ⊆ text := by
  induction text generalizing piece with
  | nil => simp [List.mem_singleton.1 mem]
  | cons c text ih =>
    unfold splitAll at mem
    split at mem
    next =>
      rcases List.mem_cons.1 mem with rfl | later
      · simp
      · exact ⟨(ih later).1, fun d inside => List.mem_cons_of_mem _ ((ih later).2 inside)⟩
    next other =>
      cases split : splitAll separator text with
      | nil =>
        rw [split, List.mem_singleton] at mem
        simp [mem, Ne.symm other]
      | cons first pieces =>
        rw [split] at mem ih
        rcases List.mem_cons.1 mem with rfl | later
        · obtain ⟨free, within⟩ := ih List.mem_cons_self
          exact ⟨by simp [Ne.symm other, free], List.cons_subset_cons c within⟩
        · obtain ⟨free, within⟩ := ih (List.mem_cons_of_mem _ later)
          exact ⟨free, fun d inside => List.mem_cons_of_mem _ (within inside)⟩

theorem intercalate_append (separator : Char) (front : List (List Char)) (last behind : List Char) :
    [separator].intercalate (front ++ [last]) ++ behind = [separator].intercalate (front ++ [last ++ behind]) := by
  induction front with
  | nil => simp
  | cons first front ih =>
    rw [List.cons_append, List.cons_append, intercalate_cons_append, intercalate_cons_append, List.append_assoc,
      List.cons_append, ih]

end Text

open Text

namespace Template

/-- Letters and digits of ASCII, underscores and hyphens, at least one of them. -/
structure IsSegment (segment : List Char) : Prop where
  filled : segment ≠ []
  plain : ∀ c ∈ segment, c.isAlphanum = true ∨ c = '_' ∨ c = '-'

/-- A template name by its segments: dots stand between them. -/
structure Named (segments : List (List Char)) (name : String) : Prop where
  filled : segments ≠ []
  each : ∀ segment ∈ segments, IsSegment segment
  spelled : name.toList = ['.'].intercalate segments

theorem isNameWord_iff {c : Char} : isNameWord c = true ↔ c.isAlphanum = true ∨ c = '_' ∨ c = '-' := by
  simp only [isNameWord, Expr.isAsciiLetter, Decimal.isDigit, Char.isAlphanum, Char.isAlpha, Char.isUpper, Char.isLower,
    Char.isDigit, Char.le_def, Bool.or_eq_true, Bool.and_eq_true, decide_eq_true_eq]
  tauto

theorem isSegment_iff {segment : List Char} : isSegment segment = true ↔ IsSegment segment := by
  rw [isSegment, Bool.and_eq_true, Bool.not_eq_true', List.isEmpty_eq_false_iff, List.all_eq_true]
  exact ⟨fun ⟨filled, plain⟩ => ⟨filled, fun c mem => isNameWord_iff.1 (plain c mem)⟩,
    fun segment => ⟨segment.filled, fun c mem => isNameWord_iff.2 (segment.plain c mem)⟩⟩

namespace IsSegment
variable {segment : List Char}

theorem not_mem (isSegment : IsSegment segment) {c : Char} (other : c.isAlphanum = false) (line : c ≠ '_')
    (hyphen : c ≠ '-') : c ∉ segment := by
  intro mem
  have := isSegment.plain c mem
  simp_all

theorem no_dot (isSegment : IsSegment segment) : '.' ∉ segment := isSegment.not_mem rfl (by decide) (by decide)

theorem no_slash (isSegment : IsSegment segment) : '/' ∉ segment := isSegment.not_mem rfl (by decide) (by decide)

theorem no_backslash (isSegment : IsSegment segment) : '\\' ∉ segment := isSegment.not_mem rfl (by decide) (by decide)

theorem ne_dot (isSegment : IsSegment segment) : segment ≠ ['.'] := fun same => isSegment.no_dot (by simp [same])

theorem ne_dots (isSegment : IsSegment segment) : segment ≠ ['.', '.'] := fun same => isSegment.no_dot (by simp [same])

end IsSegment

namespace Named
variable {segments segments' : List (List Char)} {name name' : String}

theorem split (named : Named segments name) : splitAll '.' name.toList = segments := by
  rw [named.spelled]
  exact splitAll_intercalate named.filled fun segment mem => (named.each segment mem).no_dot

theorem unique (named : Named segments name) (named' : Named segments name') : name = name' :=
  String.toList_injective (named.spelled.trans named'.spelled.symm)

/-- The last segment is the one that names the file; those in front name folders. -/
theorem ends (named : Named segments name) : ∃ front segment,
    segments = front ++ [segment] ∧ (∀ segment ∈ front, IsSegment segment) ∧ IsSegment segment := by
  obtain ⟨front, segment, rfl⟩ := (List.eq_nil_or_concat' segments).resolve_left named.filled
  obtain ⟨each, last⟩ := List.forall_mem_append.1 named.each
  exact ⟨front, segment, rfl, each, last segment List.mem_cons_self⟩

end Named

theorem isName_iff {name : String} : isName name = true ↔ ∃ segments, Named segments name := by
  rw [isName, List.all_eq_true]
  constructor
  · intro each
    refine ⟨splitAll '.' name.toList, ?_, fun segment mem => isSegment_iff.1 (each segment mem), ?_⟩
    · rw [splitAll_eq_splitOn]
      exact List.splitOn_ne_nil _ _
    · rw [splitAll_eq_splitOn]
      exact (List.intercalate_splitOn '.').symm
  · rintro ⟨segments, named⟩ segment mem
    rw [named.split] at mem
    exact isSegment_iff.2 (named.each segment mem)

end Template

end Stencil
