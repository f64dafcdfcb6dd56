import Mathlib.Data.List.Infix
import Mathlib.Data.List.TakeWhile
import Stencil.Proofs.LiteralItems

/-! Blanks at the ends of a text and the first occurrence of a pattern. A sign that is not blank keeps the blanks next
to it, and what stands in front of a pattern's first sign stays in front of the cut. -/

namespace Stencil.Text

variable {text before : List Char}

theorem trimRight_cons {c : Char} (visible : isBlank c = false) (text : List Char) :
    trimRight (c :: text) = c :: trimRight text := by
  have here : [c].dropWhile isBlank = [c] := List.dropWhile_cons_of_neg (by simp [visible])
  rw [trimRight, trimRight, List.reverse_cons, List.dropWhile_append]
  split
  next empty => rw [List.isEmpty_iff.1 empty, here]; rfl
  next => rw [List.reverse_append]; rfl

theorem trimRight_sign (before : List Char) {c : Char} (visible : isBlank c = false) (behind : List Char) :
    trimRight (before ++ c :: behind) = before ++ c :: trimRight behind := by
  rw [← trimRight_cons visible, trimRight, trimRight, List.reverse_append, List.dropWhile_append]
  split
  next empty =>
    have last : c ∈ (c :: behind).reverse := by simp
    exact absurd (List.dropWhile_eq_nil_iff.1 (List.isEmpty_iff.1 empty) c last) (by simp [visible])
  next => rw [List.reverse_append, List.reverse_reverse]

/-- A sign that is not blank keeps the blanks next to it. -/
theorem trim_sign (before : List Char) {c : Char} (visible : isBlank c = false) (behind : List Char) :
    trim (before ++ c :: behind) = trimLeft before ++ c :: trimRight behind := by
  have here : (c :: behind).dropWhile isBlank = c :: behind := List.dropWhile_cons_of_neg (by simp [visible])
  rw [trim, trimLeft, List.dropWhile_append, trimLeft]
  split
  next empty => rw [List.isEmpty_iff.1 empty, here]; exact trimRight_cons visible behind
  next => exact trimRight_sign _ visible behind

theorem trim_visible (visible : ∀ c ∈ text, isBlank c = false) : trim text = text :=
  Trimmed.trim ⟨fun c mem => visible c (List.mem_of_mem_head? mem), fun c mem => visible c (List.mem_of_getLast? mem)⟩

theorem trimLeft_append (text : List Char) :
    ∃ blanks : List Char, (∀ c ∈ blanks, isBlank c = true) ∧ text = blanks ++ trimLeft text :=
  ⟨text.takeWhile isBlank, fun _ mem => List.mem_takeWhile_imp mem, List.takeWhile_append_dropWhile.symm⟩

theorem trimRight_append (text : List Char) :
    ∃ blanks : List Char, (∀ c ∈ blanks, isBlank c = true) ∧ text = trimRight text ++ blanks := by
  refine ⟨(text.reverse.takeWhile isBlank).reverse, fun c mem => List.mem_takeWhile_imp (List.mem_reverse.1 mem), ?_⟩
  rw [trimRight, ← List.reverse_append, List.takeWhile_append_dropWhile, List.reverse_reverse]

theorem trim_trimRight (text : List Char) : trim (trimRight text) = trim text := by
  obtain ⟨blanks, blank, split⟩ := trimRight_append text
  conv_rhs => rw [split, trim_append_blank _ blank]

theorem trim_trimLeft (text : List Char) : trim (trimLeft text) = trim text := by
  obtain ⟨blanks, blank, split⟩ := trimLeft_append text
  conv_rhs => rw [split, trim_blank_append blank]

theorem filter_blank {blanks : List Char} (blank : ∀ c ∈ blanks, isBlank c = true) :
    blanks.filter (fun c => !isBlank c) = [] := List.filter_eq_nil_iff.2 fun c mem => by simp [blank c mem]

theorem filter_trim (text : List Char) :
    (trim text).filter (fun c => !isBlank c) = text.filter (fun c => !isBlank c) := by
  obtain ⟨front, blank, left⟩ := trimLeft_append text
  obtain ⟨behind, blank', right⟩ := trimRight_append (trimLeft text)
  conv_rhs => rw [left, right]
  rw [List.filter_append, List.filter_append, filter_blank blank, filter_blank blank', List.append_nil, List.nil_append,
    trim]

/-! The first occurrence of a pattern. -/

/-- A pattern does not reach over a character that it does not have. -/
theorem prefix_of_absent {pattern : List Char} {c : Char} (absent : c ∉ pattern) {rest : List Char}
    (begins : pattern <+: text ++ c :: rest) : pattern <+: text := by
  rcases List.prefix_or_prefix_of_prefix begins (List.prefix_append _ _) with within | ⟨more, rfl⟩
  · exact within
  · have further := (List.prefix_append_right_inj _).1 begins
    cases more with
    | nil => exact List.append_nil _ ▸ List.prefix_refl _
    | cons d more =>
      obtain rfl := (List.cons_prefix_cons.1 further).1
      exact absurd (List.mem_append_right _ List.mem_cons_self) absent

theorem cutFirst?_fresh {p : Char} {pattern : List Char} (fresh : ∀ c ∈ before, c ≠ p) (text : List Char) :
    cutFirst? (p :: pattern) (before ++ text) =
      (cutFirst? (p :: pattern) text).map fun (front, rest) => (before ++ front, rest) := by
  induction before with
  | nil => cases found : cutFirst? (p :: pattern) text <;> simp [found]
  | cons c before ih =>
    obtain ⟨other, fresh⟩ := List.forall_mem_cons.1 fresh
    rw [List.cons_append, cutFirst?, stripPrefix?, if_neg other.symm]
    dsimp only
    rw [ih fresh]
    cases cutFirst? (p :: pattern) text <;> rfl

theorem cutFirst?_here (p : Char) (pattern text : List Char) :
    cutFirst? (p :: pattern) (p :: (pattern ++ text)) = some ([], text) := by
  rw [cutFirst?, ← List.cons_append, stripPrefix?_eq_some.2 rfl]

theorem cutFirst?_eq_none {pattern text : List Char} : cutFirst? pattern text = none ↔ ¬ pattern <:+: text := by
  induction text with
  | nil =>
    cases pattern with
    | nil => simp [cutFirst?, stripPrefix?]
    | cons p pattern => simp [cutFirst?, stripPrefix?]
  | cons c text ih =>
    rw [cutFirst?, List.infix_cons_iff, not_or, ← ih]
    cases strip : stripPrefix? pattern (c :: text) with
    | some rest =>
      have front : pattern <+: c :: text := ⟨rest, (stripPrefix?_eq_some.1 strip).symm⟩
      simp [front]
    | none =>
      have front : ¬ pattern <+: c :: text := by
        rintro ⟨rest, split⟩
        rw [stripPrefix?_eq_some.2 split.symm] at strip
        cases strip
      simp [front]

/-- In front of the first occurrence there is none. -/
theorem not_infix_of_cutFirst? {pattern text rest : List Char} (filled : pattern ≠ [])
    (cut : cutFirst? pattern text = some (before, rest)) : ¬ pattern <:+: before := by
  intro inside
  cases earlier : cutFirst? pattern before with
  | none => exact cutFirst?_eq_none.1 earlier inside
  | some found =>
    obtain ⟨front, back⟩ := found
    have within := cutFirst?_eq_append earlier
    have again := cutFirst?_more earlier (back ++ pattern ++ rest)
    have whole : front ++ pattern ++ (back ++ pattern ++ rest) = text := by
      rw [cutFirst?_eq_append cut, within]
      simp
    rw [whole, cut] at again
    obtain ⟨same, _⟩ := Prod.mk.inj (Option.some.inj again)
    have none : pattern = [] := by
      have length := congrArg List.length within
      rw [same] at length
      simp only [List.length_append] at length
      exact List.length_eq_zero_iff.1 (by omega)
    exact filled none

/-- A pattern is not found across a character that it does not have. -/
theorem cutFirst?_absent {pattern : List Char} {c : Char} (absent : c ∉ pattern)
    (fresh : ¬ pattern <:+: before) (text : List Char) : cutFirst? pattern (before ++ c :: text) =
      (cutFirst? pattern text).map fun (front, rest) => (before ++ c :: front, rest) := by
  have missed {front : List Char} (fresh : ¬ pattern <:+: front) : stripPrefix? pattern (front ++ c :: text) = none := by
    apply Option.eq_none_iff_forall_ne_some.2
    intro rest strip
    have begins : pattern <+: front ++ c :: text := ⟨rest, (stripPrefix?_eq_some.1 strip).symm⟩
    exact fresh (prefix_of_absent absent begins).isInfix
  induction before with
  | nil =>
    have here := missed fresh
    rw [List.nil_append] at here ⊢
    rw [cutFirst?, here]
    rfl
  | cons d before ih =>
    have further : ¬ pattern <:+: before := fun inside => fresh (inside.trans (List.suffix_cons d before).isInfix)
    have here := missed fresh
    rw [List.cons_append] at here ⊢
    rw [cutFirst?, here]
    dsimp only
    rw [ih further]
    cases cutFirst? pattern text <;> rfl

theorem infix_blank_append {p : Char} (visible : isBlank p = false) {pattern blanks text : List Char}
    (blank : ∀ c ∈ blanks, isBlank c = true) : p :: pattern <:+: blanks ++ text ↔ p :: pattern <:+: text := by
  induction blanks with
  | nil => rfl
  | cons c blanks ih =>
    obtain ⟨first, others⟩ := List.forall_mem_cons.1 blank
    have other : p ≠ c := by rintro rfl; simp [visible] at first
    rw [List.cons_append, List.infix_cons_iff, List.cons_prefix_cons, ih others]
    simp [other]

theorem infix_append_blank {p : Char} (visible : isBlank p = false) {pattern blanks text : List Char}
    (blank : ∀ c ∈ blanks, isBlank c = true) : pattern ++ [p] <:+: text ++ blanks ↔ pattern ++ [p] <:+: text := by
  have back : ∀ c ∈ blanks.reverse, isBlank c = true := fun c mem => blank c (List.mem_reverse.1 mem)
  calc pattern ++ [p] <:+: text ++ blanks
    _ ↔ p :: pattern.reverse <:+: blanks.reverse ++ text.reverse := by
      rw [← List.reverse_infix, List.reverse_append, List.reverse_append]
      rfl
    _ ↔ p :: pattern.reverse <:+: text.reverse := infix_blank_append visible back
    _ ↔ pattern ++ [p] <:+: text := by
      rw [← List.reverse_infix, List.reverse_cons, List.reverse_reverse, List.reverse_reverse]

end Stencil.Text
