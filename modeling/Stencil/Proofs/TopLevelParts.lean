import Stencil.Proofs.TextCuts

/-! One cut and all of them. A text is cut up at its separators outside quotes and brackets, or once at the first of
them. Both scans are at the top again behind each cut, so cutting the rest of the first cut goes on with the other cuts.
The blanks at the ends of a text play no part in this as long as the separator is none itself. -/

namespace Stencil.Text

theorem trim_trim (text : List Char) : trim (trim text) = trim text :=
  (trim_trimRight _).trans (trim_trimLeft text)

/-- Trimming takes blanks from either end. -/
theorem exists_around_trim (text : List Char) : ∃ spacing : Spacing isBlank, spacing.around (trim text) = text := by
  obtain ⟨before, blank, left⟩ := trimLeft_append text
  obtain ⟨behind, blank', right⟩ := trimRight_append (trimLeft text)
  refine ⟨⟨before, behind, List.all_eq_true.2 blank, List.all_eq_true.2 blank'⟩, ?_⟩
  rw [Spacing.around, trim, List.append_assoc, ← right, ← left]

end Stencil.Text

namespace Stencil.Argument
open Text

namespace Position

/-- No escape is open outside quotes. -/
def Sound (position : Position) : Prop := position.quote = none → position.escaped = false

theorem Sound.start : ({} : Position).Sound := fun _ => rfl

theorem Sound.step {position : Position} (sound : position.Sound) (c : Char) : (position.step c).Sound := by
  fun_cases Position.step position c with
  | case1 => exact fun _ => rfl
  | case2 quote inside => exact fun outside => nomatch outside.symm.trans inside
  | case3 _ _ unescaped => exact fun _ => eq_false_of_ne_true unescaped
  | case4 => exact sound
  | case13 => exact sound
  -- The rest starts outside quotes and keeps the escape.
  | _ outside => exact fun _ => sound outside

/-- At the top a scan stands where it began. -/
theorem Sound.of_isTop {position : Position} (sound : position.Sound) (top : position.isTop = true) : position = {} := by
  obtain ⟨depth, quote, escaped⟩ := position
  simp only [isTop, Bool.and_eq_true, decide_eq_true_eq, Option.isNone_iff_eq_none] at top
  obtain ⟨rfl, rfl⟩ := top
  exact congrArg _ (sound rfl)

end Position

variable {separator : Char} {position after after' : Position} {first text : List Char}

namespace Passes

theorem sound (passes : Passes separator position text after) (sound : position.Sound) : after.Sound := by
  induction passes with
  | nil => exact sound
  | @cons _ _ _ c _ _ moves _ ih => exact ih (moves ▸ sound.step c)

theorem unique (passes : Passes separator position text after) (other : Passes separator position text after') :
    after = after' := by
  induction passes with
  | nil =>
    cases other
    rfl
  | cons _ moves _ ih =>
    cases other with
    | cons _ moves' behind' => exact ih (moves ▸ moves' ▸ behind')

theorem of_append (passes : Passes separator position (first ++ text) after) :
    ∃ between, Passes separator position first between ∧ Passes separator between text after := by
  induction first generalizing position with
  | nil => exact ⟨position, .nil position, passes⟩
  | cons c first ih =>
    cases passes with
    | cons kept moves behind =>
      obtain ⟨between, ahead, rest⟩ := ih behind
      exact ⟨between, .cons kept moves ahead, rest⟩

theorem of_absent (absent : ∀ c ∈ text, c ≠ separator) (position : Position) :
    ∃ after, Passes separator position text after := by
  induction text generalizing position with
  | nil => exact ⟨position, .nil position⟩
  | cons c text ih =>
    obtain ⟨other, absent⟩ := List.forall_mem_cons.1 absent
    obtain ⟨after, behind⟩ := ih absent (position.step c)
    exact ⟨after, .cons (by simp [Position.isCut, other]) rfl behind⟩

/-- Behind a cut a scan stands where it stood at first. -/
theorem top_of_isCut (passes : Passes separator {} text after) (here : after.isCut separator separator = true) :
    after = {} := by
  simp only [Position.isCut, Bool.and_eq_true] at here
  exact (passes.sound .start).of_isTop here.1.1

end Passes

/-- Up to the first cut a scan passes on. -/
theorem passes_of_cut? {before behind : List Char} (cut : cut? separator position text = some (before, behind)) :
    ∃ place, Passes separator position before place ∧ place.isCut separator separator = true ∧
      text = before ++ separator :: behind := by
  induction text generalizing position before with
  | nil => cases cut
  | cons c text ih =>
    unfold cut? at cut
    split at cut
    next here =>
      cases cut
      obtain rfl : c = separator := by
        simp only [Position.isCut, Bool.and_eq_true, decide_eq_true_eq] at here
        exact here.2
      exact ⟨position, .nil position, here, rfl⟩
    next kept =>
      obtain ⟨⟨front, _⟩, later, same⟩ := Option.map_eq_some_iff.1 cut
      cases same
      obtain ⟨place, passes, here, rfl⟩ := ih later
      exact ⟨place, .cons (by simpa using kept) rfl passes, here, rfl⟩

theorem passes_of_cut?_none (whole : cut? separator position text = none) :
    ∃ place, Passes separator position text place := by
  induction text generalizing position with
  | nil => exact ⟨position, .nil position⟩
  | cons c text ih =>
    unfold cut? at whole
    split at whole
    next => cases whole
    next kept =>
      obtain ⟨place, passes⟩ := ih (Option.map_eq_none_iff.1 whole)
      exact ⟨place, .cons (by simpa using kept) rfl passes⟩

/-- The text consists of pieces without a cut and of the separators between them. -/
inductive Parted (separator : Char) : List Char → List (List Char) → Prop where
  | whole {text : List Char} {place : Position} (passes : Passes separator {} text place) : Parted separator text [text]
  | cut {piece rest : List Char} {pieces : List (List Char)} (passes : Passes separator {} piece {})
    (here : Position.isCut {} separator separator = true) (behind : Parted separator rest pieces) :
    Parted separator (piece ++ separator :: rest) (piece :: pieces)

theorem exists_parted (separator : Char) (text : List Char) : ∃ pieces, Parted separator text pieces := by
  cases cut : cut? separator {} text with
  | none =>
    obtain ⟨place, passes⟩ := passes_of_cut?_none cut
    exact ⟨_, .whole passes⟩
  | some halves =>
    obtain ⟨before, behind⟩ := halves
    obtain ⟨place, passes, here, rfl⟩ := passes_of_cut? cut
    obtain rfl := passes.top_of_isCut here
    have : behind.length < (before ++ separator :: behind).length := by
      rw [List.length_append, List.length_cons]
      omega
    obtain ⟨pieces, parted⟩ := exists_parted separator behind
    exact ⟨before :: pieces, .cut passes here parted⟩
termination_by text.length

namespace Parted
variable {pieces : List (List Char)}

theorem ne_nil (parted : Parted separator text pieces) : pieces ≠ [] := by
  cases parted <;> exact List.cons_ne_nil _ _

theorem pieces_eq (parted : Parted separator text pieces) : Argument.pieces separator {} text = pieces := by
  induction parted with
  | @whole text place passes =>
    have one := passes.pieces []
    rw [List.append_nil] at one
    rw [one]
    exact congrArg (fun piece => [piece]) (List.append_nil text)
  | @cut piece rest pieces passes here _ ih =>
    rw [passes.pieces, Argument.pieces, if_pos here, ih]
    exact congrArg (· :: pieces) (List.append_nil piece)

theorem intercalate_eq (parted : Parted separator text pieces) : [separator].intercalate pieces = text := by
  induction parted with
  | whole => simp
  | cut _ _ behind ih =>
    obtain ⟨next, others, rfl⟩ := List.exists_cons_of_ne_nil behind.ne_nil
    rw [← ih]
    simp

theorem passes (parted : Parted separator text pieces) :
    ∀ piece ∈ pieces, ∃ place, Passes separator {} piece place := by
  induction parted with
  | whole passes => exact List.forall_mem_singleton.2 ⟨_, passes⟩
  | cut passes _ _ ih => exact List.forall_mem_cons.2 ⟨⟨_, passes⟩, ih⟩

end Parted

/-- What the scan finds is what the text consists of. -/
theorem parted_pieces (separator : Char) (text : List Char) : Parted separator text (pieces separator {} text) := by
  obtain ⟨pieces, parted⟩ := exists_parted separator text
  exact parted.pieces_eq ▸ parted

theorem pieces_of_cut? {before behind : List Char} (cut : cut? separator {} text = some (before, behind)) :
    pieces separator {} text = before :: pieces separator {} behind := by
  obtain ⟨place, passes, here, rfl⟩ := passes_of_cut? cut
  obtain rfl := passes.top_of_isCut here
  exact (Parted.cut passes here (parted_pieces separator behind)).pieces_eq

theorem pieces_of_cut?_none (whole : cut? separator {} text = none) : pieces separator {} text = [text] := by
  obtain ⟨place, passes⟩ := passes_of_cut?_none whole
  exact (Parted.whole passes).pieces_eq

/-! Blanks around a text, where the separator is not blank. -/

section Visible
variable (visible : isBlank separator = false)
include visible

theorem passes_trim (passes : Passes separator {} text after) : ∃ place, Passes separator {} (trim text) place := by
  obtain ⟨spacing, around⟩ := exists_around_trim text
  rw [← around] at passes
  obtain ⟨between, ahead, _⟩ := passes.of_append
  obtain ⟨start, blanks, inside⟩ := ahead.of_append
  obtain rfl := blanks.unique (passes_blank visible 0 spacing.holdsBefore)
  exact ⟨between, inside⟩

theorem Parted.blank_append {pieces : List (List Char)} (parted : Parted separator text pieces) {blanks : List Char}
    (blank : ∀ c ∈ blanks, isBlank c = true) :
    ∃ pieces', Parted separator (blanks ++ text) pieces' ∧ pieces'.map trim = pieces.map trim := by
  have start : Passes separator {} blanks {} := passes_blank visible 0 blank
  cases parted with
  | whole passes => exact ⟨_, .whole (start.append passes), by simp [trim_blank_append blank]⟩
  | @cut piece rest pieces passes here behind =>
    refine ⟨(blanks ++ piece) :: pieces, ?_, by simp [trim_blank_append blank]⟩
    rw [← List.append_assoc]
    exact .cut (start.append passes) here behind

theorem Parted.append_blank {pieces : List (List Char)} (parted : Parted separator text pieces) {blanks : List Char}
    (blank : ∀ c ∈ blanks, isBlank c = true) :
    ∃ pieces', Parted separator (text ++ blanks) pieces' ∧ pieces'.map trim = pieces.map trim := by
  induction parted with
  | @whole text place passes =>
    -- The blanks may stand between quotes, where the scan goes on without a cut as well.
    obtain ⟨after, behind⟩ := Passes.of_absent (fun c mem => ne_of_isBlank visible (blank c mem)) place
    exact ⟨_, .whole (passes.append behind), by simp [trim_append_blank text blank]⟩
  | @cut piece rest pieces passes here behind ih =>
    obtain ⟨pieces', parted, same⟩ := ih
    refine ⟨piece :: pieces', ?_, by rw [List.map_cons, List.map_cons, same]⟩
    rw [List.append_assoc, List.cons_append]
    exact .cut passes here parted

/-- The pieces of a text and of the text without the blanks around it differ in blanks only. -/
theorem trimmed_pieces_trim (text : List Char) :
    (pieces separator {} (trim text)).map trim = (pieces separator {} text).map trim := by
  obtain ⟨spacing, around⟩ := exists_around_trim text
  obtain ⟨_, ahead, same⟩ := (parted_pieces separator (trim text)).blank_append visible spacing.holdsBefore
  obtain ⟨_, whole, same'⟩ := ahead.append_blank visible spacing.holdsBehind
  have split := whole.pieces_eq
  rw [← Spacing.around, around] at split
  rw [split, same', same]

end Visible

/-! The trimmed parts. -/

theorem trimmed_pieces_of_blank (visible : isBlank separator = false) (blank : trim text = []) :
    (pieces separator {} text).map trim = [[]] := by
  rw [← trimmed_pieces_trim visible, blank]
  rfl

theorem split_of_blank (visible : isBlank separator = false) (blank : trim text = []) : split separator text = [] := by
  rw [split, trimmed_pieces_of_blank visible blank]

/-- Only a blank text has no parts. -/
theorem split_of_visible (filled : trim text ≠ []) : split separator text = (pieces separator {} text).map trim := by
  have other : (pieces separator {} text).map trim ≠ [[]] := by
    intro one
    have joined := (parted_pieces separator text).intercalate_eq
    obtain ⟨piece, single, empty⟩ := List.map_eq_singleton_iff.1 one
    rw [single, List.intercalate_singleton] at joined
    exact filled (joined ▸ empty)
  unfold split
  split
  next one => exact absurd one other
  next => rfl

theorem split_of_cut? (visible : isBlank separator = false) {before behind : List Char}
    (cut : cut? separator {} text = some (before, behind)) :
    split separator text = trim before :: (pieces separator {} behind).map trim := by
  have parts := pieces_of_cut? cut
  have filled : trim text ≠ [] := by
    intro blank
    have one := trimmed_pieces_of_blank visible blank
    rw [parts, List.map_cons] at one
    exact (parted_pieces separator behind).ne_nil (List.map_eq_nil_iff.1 (List.cons.inj one).2)
  rw [split_of_visible filled, parts, List.map_cons]

theorem split_of_cut?_none (visible : isBlank separator = false) (whole : cut? separator {} text = none) :
    split separator text = if trim text = [] then [] else [trim text] := by
  split
  next blank => exact split_of_blank visible blank
  next filled => rw [split_of_visible filled, pieces_of_cut?_none whole, List.map_singleton]

theorem exists_spacings (texts : List (List Char)) : ∃ spacings : List (Spacing isBlank),
    spacings.length = texts.length ∧ List.zipWith Spacing.around spacings (texts.map trim) = texts := by
  induction texts with
  | nil => exact ⟨[], rfl, rfl⟩
  | cons text texts ih =>
    obtain ⟨spacing, around⟩ := exists_around_trim text
    obtain ⟨spacings, length, arounds⟩ := ih
    exact ⟨spacing :: spacings, congrArg (· + 1) length, congrArg₂ List.cons around arounds⟩

/-- The two ways to cut a text agree. -/
structure CutsAgree (separator : Char) (text : List Char) : Prop where
  /-- There is no first cut where there is one part at most. -/
  uncut : splitOnce? separator text = none ↔ (split separator text).length ≤ 1
  /-- What stands in front of the first cut is the first part, and the rest has the other ones. -/
  first : ∀ first rest, splitOnce? separator text = some (first, rest) →
    split separator text = first :: if rest = [] then [[]] else split separator rest
  /-- The text is its parts with blanks around them and separators between them; a text without parts is blank. -/
  joined : if split separator text = [] then trim text = [] else
    ∃ spacings : List (Spacing isBlank), spacings.length = (split separator text).length ∧
      [separator].intercalate (List.zipWith Spacing.around spacings (split separator text)) = text
  /-- A part is not cut any further. -/
  again : ∀ part ∈ split separator text, part ≠ [] → split separator part = [part]

/-- Cutting at a visible separator once or everywhere comes to the same parts. -/
theorem cutsAgree (visible : isBlank separator = false) (text : List Char) : CutsAgree separator text where
  uncut := by
    unfold splitOnce?
    rw [Option.map_eq_none_iff]
    constructor
    · intro whole
      rw [split_of_cut?_none visible whole]
      split <;> simp
    · intro few
      by_contra cut
      obtain ⟨⟨before, behind⟩, cut⟩ := Option.ne_none_iff_exists'.1 cut
      have more := List.length_pos_iff.2 (parted_pieces separator behind).ne_nil
      rw [split_of_cut? visible cut, List.length_cons, List.length_map] at few
      omega
  first := by
    intro first rest found
    obtain ⟨⟨before, behind⟩, cut, same⟩ := Option.map_eq_some_iff.1 found
    cases same
    rw [split_of_cut? visible cut]
    split
    next blank => rw [trimmed_pieces_of_blank visible blank]
    next filled =>
      rw [← trim_trim] at filled
      rw [split_of_visible filled, trimmed_pieces_trim visible]
  joined := by
    split
    next none =>
      by_contra filled
      rw [split_of_visible filled, List.map_eq_nil_iff] at none
      exact (parted_pieces separator text).ne_nil none
    next some =>
      have filled : trim text ≠ [] := fun blank => some (split_of_blank visible blank)
      obtain ⟨spacings, length, arounds⟩ := exists_spacings (pieces separator {} text)
      refine ⟨spacings, ?_, ?_⟩
      · rw [split_of_visible filled, List.length_map, length]
      · rw [split_of_visible filled, arounds, (parted_pieces separator text).intercalate_eq]
  again := by
    intro part mem filled
    have visibleText : trim text ≠ [] := by
      intro blank
      rw [split_of_blank visible blank] at mem
      cases mem
    rw [split_of_visible visibleText] at mem
    obtain ⟨piece, among, rfl⟩ := List.mem_map.1 mem
    obtain ⟨_, passes⟩ := (parted_pieces separator text).passes piece among
    obtain ⟨_, inside⟩ := passes_trim visible passes
    rw [← trim_trim] at filled
    rw [split_of_visible filled, (Parted.whole inside).pieces_eq, List.map_singleton, trim_trim]

/-- A bracket that closes nothing and a quote that is left open. -/
theorem cutsAgree_unbalanced : isBlank ',' = false ∧ CutsAgree ',' "a ,] b, 'c, d".toList ∧
    split ',' "a ,] b, 'c, d".toList = ["a".toList, "] b".toList, "'c, d".toList] :=
  ⟨by decide, cutsAgree (by decide) _, by decide⟩

end Stencil.Argument
