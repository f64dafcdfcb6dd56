import Stencil.Text.Blank

/-! Cutting argument text at separators that stand outside quotes and brackets. Brackets of
all kinds count alike, and one that closes nothing is passed over. -/

namespace Stencil.Argument
open Text

/-- Where a scan through argument text stands. -/
structure Position where
  depth : Nat := 0
  quote : Option Char := none
  escaped : Bool := false
deriving DecidableEq, Repr

namespace Position

def isTop (position : Position) : Bool := position.depth = 0 && position.quote.isNone

/-- Inside quotes only the escapes and the closing quote matter. -/
def step (position : Position) (c : Char) : Position :=
  match position.quote with
  | some quote =>
    if position.escaped then { position with escaped := false }
    else if c = '\\' then { position with escaped := true }
    else if c = quote then { position with quote := none }
    else position
  | none =>
    match c with
    | '\'' | '"' => { position with quote := some c }
    | '(' | '[' | '\x7b' => { position with depth := position.depth + 1 }
    | ')' | ']' | '\x7d' => { position with depth := position.depth - 1 }
    | _ => position

/-- Quotes and brackets are never separators. -/
def isBracket (c : Char) : Bool :=
  match c with
  | '\'' | '"' | '(' | '[' | '\x7b' | ')' | ']' | '\x7d' => true
  | _ => false

def isCut (position : Position) (separator c : Char) : Bool :=
  position.isTop && !isBracket c && c = separator

end Position

/-- The pieces between the top-level separators, not trimmed; there is always a last one. -/
def pieces (separator : Char) (position : Position) : List Char → List (List Char)
  | [] => [[]]
  | c :: text =>
    if position.isCut separator c then [] :: pieces separator position text
    else match pieces separator (position.step c) text with
      | [] => [[c]]
      | piece :: rest => (c :: piece) :: rest

/-- The trimmed parts. Blank text has none, while a separator has a part on either side. -/
def split (separator : Char) (text : List Char) : List (List Char) :=
  match (pieces separator {} text).map trim with
  | [[]] => []
  | parts => parts

/-- The text on either side of the first top-level separator, not trimmed. -/
def cut? (separator : Char) (position : Position) : List Char → Option (List Char × List Char)
  | [] => none
  | c :: text =>
    if position.isCut separator c then some ([], text)
    else (cut? separator (position.step c) text).map fun (before, after) => (c :: before, after)

/-- The two trimmed halves around the first separator. -/
def splitOnce? (separator : Char) (text : List Char) : Option (List Char × List Char) :=
  (cut? separator {} text).map fun (before, after) => (trim before, trim after)

theorem length_le_of_mem_pieces {separator : Char} (position : Position) {text : List Char} (piece : List Char)
    (member : piece ∈ pieces separator position text) : piece.length ≤ text.length := by
  induction text generalizing position piece with
  | nil => simp_all [pieces]
  | cons c text ih =>
    unfold pieces at member
    split at member
    · rcases List.mem_cons.1 member with rfl | inside
      · simp
      · have := ih position piece inside; simp; omega
    · split at member
      next => simp_all
      next first rest shape =>
        rcases List.mem_cons.1 member with rfl | inside
        · have := ih (position.step c) first (by simp [shape])
          simp; omega
        · have := ih (position.step c) piece (by simp [shape, inside])
          simp; omega

theorem length_le_of_mem_split {separator : Char} {text part : List Char}
    (member : part ∈ split separator text) : part.length ≤ text.length := by
  unfold split at member
  split at member
  · simp at member
  · obtain ⟨piece, inside, rfl⟩ := List.mem_map.1 member
    have := length_le_of_mem_pieces _ _ inside
    have := length_trim_le piece
    omega

theorem length_of_cut? {separator : Char} {position : Position} {text before after : List Char}
    (cut : cut? separator position text = some (before, after)) :
    before.length + after.length + 1 = text.length := by
  induction text generalizing position before with
  | nil => simp [cut?] at cut
  | cons c text ih =>
    unfold cut? at cut
    split at cut
    · obtain ⟨rfl, rfl⟩ := Prod.mk.inj (Option.some.inj cut)
      simp
    · obtain ⟨⟨first, last⟩, inside, same⟩ := Option.map_eq_some_iff.1 cut
      obtain ⟨rfl, rfl⟩ := Prod.mk.inj same
      have := ih inside
      simp; omega

theorem length_lt_of_splitOnce? {separator : Char} {text before after : List Char}
    (cut : splitOnce? separator text = some (before, after)) : after.length < text.length := by
  obtain ⟨⟨first, last⟩, inside, same⟩ := Option.map_eq_some_iff.1 cut
  obtain ⟨rfl, rfl⟩ := Prod.mk.inj same
  have := length_of_cut? inside
  have := length_trim_le last
  omega

/-- The comma-separated arguments of a directive. -/
def list (text : String) : List String := (split ',' text.toList).map String.ofList

end Stencil.Argument
