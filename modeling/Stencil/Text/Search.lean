/-! Cutting a text at a pattern. Each function gives back the pieces around the first or
the last place where the pattern stands. -/

namespace Stencil.Text

def stripPrefix? : List Char → List Char → Option (List Char)
  | [], text => some text
  | _ :: _, [] => none
  | p :: pattern, c :: text => if p = c then stripPrefix? pattern text else none

def stripSuffix? (pattern text : List Char) : Option (List Char) :=
  (stripPrefix? pattern.reverse text.reverse).map List.reverse

/-- The text before and after the first occurrence of the pattern. -/
def cutFirst? (pattern : List Char) : List Char → Option (List Char × List Char)
  | [] => (stripPrefix? pattern []).map fun rest => ([], rest)
  | c :: text =>
    match stripPrefix? pattern (c :: text) with
    | some rest => some ([], rest)
    | none => (cutFirst? pattern text).map fun (before, rest) => (c :: before, rest)

/-- The text before and after the last occurrence of the pattern. -/
def cutLast? (pattern text : List Char) : Option (List Char × List Char) :=
  (cutFirst? pattern.reverse text.reverse).map fun (after, before) => (before.reverse, after.reverse)

/-- The pieces between the separators; one more piece than there are separators. -/
def splitAll (separator : Char) : List Char → List (List Char)
  | [] => [[]]
  | c :: text =>
    if c = separator then [] :: splitAll separator text
    else match splitAll separator text with
      | [] => [[c]]
      | piece :: pieces => (c :: piece) :: pieces

theorem length_drop_lt (count : Nat) (c : Char) (tail : List Char) :
    (tail.drop count).length < (c :: tail).length := by
  rw [List.length_drop, List.length_cons]
  omega

theorem stripPrefix?_eq_some {pattern text rest : List Char} :
    stripPrefix? pattern text = some rest ↔ text = pattern ++ rest := by
  induction pattern generalizing text with
  | nil => simp [stripPrefix?, eq_comm]
  | cons p pattern ih =>
    cases text with
    | nil => simp [stripPrefix?]
    | cons c text =>
      by_cases same : p = c
      · simp [stripPrefix?, same, ih]
      · simp [stripPrefix?, same, Ne.symm same]

theorem stripPrefix?_isSome {pattern text : List Char} : (stripPrefix? pattern text).isSome = true ↔ pattern <+: text := by
  rw [Option.isSome_iff_exists]
  constructor
  · intro ⟨rest, strip⟩
    exact ⟨rest, (stripPrefix?_eq_some.1 strip).symm⟩
  · intro ⟨rest, joined⟩
    exact ⟨rest, stripPrefix?_eq_some.2 joined.symm⟩

theorem cutFirst?_eq_append {pattern text before rest : List Char}
    (cut : cutFirst? pattern text = some (before, rest)) : text = before ++ pattern ++ rest := by
  induction text generalizing before with
  | nil =>
    obtain ⟨found, strip, same⟩ := Option.map_eq_some_iff.1 cut
    obtain ⟨rfl, rfl⟩ := Prod.mk.inj same
    simpa using stripPrefix?_eq_some.1 strip
  | cons c text ih =>
    unfold cutFirst? at cut
    split at cut
    next found strip =>
      obtain ⟨rfl, rfl⟩ := Prod.mk.inj (Option.some.inj cut)
      simpa using stripPrefix?_eq_some.1 strip
    next =>
      obtain ⟨⟨inner, found⟩, inside, same⟩ := Option.map_eq_some_iff.1 cut
      obtain ⟨rfl, rfl⟩ := Prod.mk.inj same
      simp [ih inside]

theorem stripPrefix?_append {pattern text : List Char} (more : List Char) (enough : pattern.length ≤ text.length) :
    stripPrefix? pattern (text ++ more) = (stripPrefix? pattern text).map (· ++ more) := by
  induction pattern generalizing text with
  | nil => rfl
  | cons p pattern ih =>
    cases text with
    | nil => simp at enough
    | cons c text =>
      simp only [List.cons_append, stripPrefix?]
      split
      · exact ih (by simpa using enough)
      · rfl

/-- Where a pattern is found first depends on nothing behind that place. -/
theorem cutFirst?_more {pattern text before rest : List Char} (cut : cutFirst? pattern text = some (before, rest))
    (rest' : List Char) : cutFirst? pattern (before ++ pattern ++ rest') = some (before, rest') := by
  induction text generalizing before with
  | nil =>
    obtain ⟨found, strip, same⟩ := Option.map_eq_some_iff.1 cut
    obtain ⟨rfl, rfl⟩ := Prod.mk.inj same
    cases pattern with
    | nil => cases rest' <;> rfl
    | cons p pattern => cases strip
  | cons c text ih =>
    unfold cutFirst? at cut
    split at cut
    next found strip =>
      obtain ⟨rfl, rfl⟩ := Prod.mk.inj (Option.some.inj cut)
      have here : stripPrefix? pattern (pattern ++ rest') = some rest' := stripPrefix?_eq_some.2 rfl
      rw [List.nil_append]
      cases joined : pattern ++ rest' with
      | nil =>
        obtain ⟨rfl, rfl⟩ := List.append_eq_nil_iff.1 joined
        rfl
      | cons first others =>
        rw [cutFirst?, ← joined, here]
    next missing =>
      obtain ⟨⟨inner, found⟩, inside, same⟩ := Option.map_eq_some_iff.1 cut
      obtain ⟨rfl, rfl⟩ := Prod.mk.inj same
      have split := cutFirst?_eq_append inside
      have enough : pattern.length ≤ (c :: (inner ++ pattern)).length := by
        simp only [List.length_cons, List.length_append]
        omega
      rw [split, ← List.cons_append, stripPrefix?_append _ enough, Option.map_eq_none_iff] at missing
      rw [List.cons_append, List.cons_append, cutFirst?, ← List.cons_append, stripPrefix?_append _ enough, missing,
        Option.map_none, ih inside]
      rfl

end Stencil.Text
