/-! Positions in a source are byte offsets into its UTF-8 form. A span holds the bytes
from `start` up to `stop`, and `slice` reads the characters that lie in one. -/

namespace Stencil.Text

structure Span where
  start : Nat
  stop : Nat
deriving DecidableEq, Repr, Inhabited

/-- Something read from a source, and where it stood. -/
structure Located (α : Type) where
  value : α
  span : Span
deriving DecidableEq, Repr

def byteLength : List Char → Nat
  | [] => 0
  | c :: rest => c.utf8Size + byteLength rest

def dropBytes : List Char → Nat → List Char
  | [], _ => []
  | c :: rest, count => if count = 0 then c :: rest else dropBytes rest (count - c.utf8Size)

def takeBytes : List Char → Nat → List Char
  | [], _ => []
  | c :: rest, count => if count = 0 then [] else c :: takeBytes rest (count - c.utf8Size)

def slice (source : List Char) (span : Span) : List Char :=
  takeBytes (dropBytes source span.start) (span.stop - span.start)

theorem byteLength_cons (c : Char) (text : List Char) : byteLength (c :: text) = c.utf8Size + byteLength text := rfl

theorem takeBytes_cons (c : Char) (text : List Char) (count : Nat) :
    takeBytes (c :: text) count = if count = 0 then [] else c :: takeBytes text (count - c.utf8Size) := rfl

@[simp] theorem byteLength_append (first second : List Char) :
    byteLength (first ++ second) = byteLength first + byteLength second := by
  induction first with
  | nil => exact (Nat.zero_add _).symm
  | cons c first ih =>
    simp only [List.cons_append, byteLength, ih]
    omega

theorem byteLength_pos {text : List Char} (some : text ≠ []) : 0 < byteLength text := by
  cases text with
  | nil => exact absurd rfl some
  | cons c text =>
    have := c.utf8Size_pos
    rw [byteLength_cons]
    omega

theorem eq_nil_of_byteLength {text : List Char} (none : byteLength text = 0) : text = [] := by
  cases text with
  | nil => rfl
  | cons c text =>
    have some := byteLength_pos (List.cons_ne_nil c text)
    omega

@[simp] theorem dropBytes_zero (text : List Char) : dropBytes text 0 = text := by
  cases text <;> rfl

theorem dropBytes_append (before text : List Char) (count : Nat) :
    dropBytes (before ++ text) (byteLength before + count) = dropBytes text count := by
  induction before with
  | nil => exact congrArg (dropBytes text) (Nat.zero_add count)
  | cons c before ih =>
    have := c.utf8Size_pos
    have fewer : c.utf8Size + byteLength before + count - c.utf8Size = byteLength before + count := by omega
    rw [List.cons_append, byteLength_cons, dropBytes, if_neg (by omega), fewer, ih]

theorem takeBytes_append {text : List Char} {count : Nat} (after : List Char) (within : count ≤ byteLength text) :
    takeBytes (text ++ after) count = takeBytes text count := by
  induction text generalizing count with
  | nil =>
    cases Nat.le_zero.1 within
    cases after <;> rfl
  | cons c text ih =>
    rw [byteLength_cons] at within
    rw [List.cons_append, takeBytes_cons, takeBytes_cons]
    split
    · rfl
    · rw [ih (by omega)]

theorem takeBytes_byteLength (text : List Char) : takeBytes text (byteLength text) = text := by
  induction text with
  | nil => rfl
  | cons c text ih =>
    have := c.utf8Size_pos
    rw [byteLength_cons, takeBytes_cons, if_neg (by omega), Nat.add_sub_cancel_left, ih]

/-- A position that lies between two characters, or at an end. -/
def Boundary (text : List Char) (position : Nat) : Prop :=
  ∃ before after, text = before ++ after ∧ byteLength before = position

theorem Boundary.le {text : List Char} {position : Nat} (boundary : Boundary text position) :
    position ≤ byteLength text := by
  obtain ⟨before, after, rfl, rfl⟩ := boundary
  simp

/-- A span reads the same in a text as in one that holds the text further on. -/
theorem slice_inside {text : List Char} {start stop : Nat} (before after : List Char) (starts : Boundary text start)
    (stops : stop ≤ byteLength text) :
    slice (before ++ (text ++ after)) ⟨byteLength before + start, byteLength before + stop⟩ =
      slice text ⟨start, stop⟩ := by
  obtain ⟨front, back, rfl, rfl⟩ := starts
  have front_back := dropBytes_append front back 0
  have front_after := dropBytes_append front (back ++ after) 0
  rw [Nat.add_zero, dropBytes_zero] at front_back front_after
  unfold slice
  rw [dropBytes_append, Nat.add_sub_add_left, List.append_assoc, front_after, front_back]
  apply takeBytes_append
  rw [byteLength_append] at stops
  omega

theorem slice_between (before text after : List Char) :
    slice (before ++ (text ++ after)) ⟨byteLength before, byteLength before + byteLength text⟩ = text := by
  have moved := @slice_inside text 0 _ before after ⟨[], text, rfl, rfl⟩ (Nat.le_refl (byteLength text))
  rw [Nat.add_zero] at moved
  rw [moved, slice, dropBytes_zero, Nat.sub_zero, takeBytes_byteLength]

end Stencil.Text
