import Stencil.Proofs.ReadingMoved

/-! Reading with some closed blocks left out. Where a body or a block ends does not depend on the
closed blocks in front of that, nor on where the tokens stand. So without them nothing is closed that
was open, and nothing is open that was closed. -/

namespace Stencil.Template
open Text

/-- A token that stands in two sources, or the tokens of a block that stands in the first one only. -/
inductive Cell where
  | kept (token : Token) (here there : Span)
  | dropped (block : List Lexeme)

namespace Cell

def before : Cell → List Lexeme
  | kept token here _ => [⟨token, here⟩]
  | dropped block => block

def after : Cell → List Lexeme
  | kept token _ there => [⟨token, there⟩]
  | dropped _ => []

/-- A token of a text that stands further on in both sources. -/
def moved (distance distance' : Nat) (lexeme : Lexeme) : Cell :=
  kept lexeme.value (lexeme.span.moved distance) (lexeme.span.moved distance')

theorem before_moved (distance distance' : Nat) (tokens : List Lexeme) :
    (tokens.map (moved distance distance')).flatMap before = tokens.map (Located.moved distance) := by
  rw [List.flatMap_map]
  exact List.map_eq_flatMap.symm

theorem after_moved (distance distance' : Nat) (tokens : List Lexeme) :
    (tokens.map (moved distance distance')).flatMap after = tokens.map (Located.moved distance') := by
  rw [List.flatMap_map]
  exact List.map_eq_flatMap.symm

end Cell

variable {source source' : List Char}

/-- All that is left out are closed blocks. -/
inductive Thinned (source : List Char) : List Cell → Prop where
  | nil : Thinned source []
  | kept {cells : List Cell} (token : Token) (here there : Span) (behind : Thinned source cells) :
      Thinned source (.kept token here there :: cells)
  | dropped {cells : List Cell} {name : String} {args : Option String} {opener : Opener} {start : Span}
      {inside : List Lexeme} (role : roleOf name (args.getD "") = .opener opener)
      (closed : (scanBlock source opener (args.getD "") start (inside ++ cells.flatMap Cell.before)).map Block.rest =
        some (cells.flatMap Cell.before)) (behind : Thinned source cells) :
      Thinned source (.dropped (⟨.directive name args, start⟩ :: inside) :: cells)

theorem Thinned.suffix {cells further : List Cell} (thinned : Thinned source cells) (suffix : further <:+ cells) :
    Thinned source further := by
  induction thinned with
  | nil => exact List.suffix_nil.1 suffix ▸ .nil
  | kept token here there behind ih =>
    rcases List.suffix_cons_iff.1 suffix with rfl | later
    · exact .kept token here there behind
    · exact ih later
  | dropped role closed behind ih =>
    rcases List.suffix_cons_iff.1 suffix with rfl | later
    · exact .dropped role closed behind
    · exact ih later

/-- Two bodies that end at the same token, or not at all. -/
inductive EndAlike (cells : List Cell) : Option Stop → Option Stop → Prop where
  | endless : EndAlike cells none none
  | stopped {further : List Cell} {closer : Closer} {args : String} {span span' : Span} (suffix : further <:+ cells) :
      EndAlike cells (some (closer, args, span, further.flatMap Cell.before))
        (some (closer, args, span', further.flatMap Cell.after))

/-- Two blocks that are closed in front of the same tokens, or not at all. -/
inductive CloseAlike (cells : List Cell) : Option (List Lexeme) → Option (List Lexeme) → Prop where
  | open : CloseAlike cells none none
  | closed {further : List Cell} (suffix : further <:+ cells) :
      CloseAlike cells (some (further.flatMap Cell.before)) (some (further.flatMap Cell.after))

theorem EndAlike.more {cells cells' : List Cell} {first second : Option Stop} (alike : EndAlike cells first second)
    (suffix : cells <:+ cells') : EndAlike cells' first second := by
  cases alike with
  | endless => exact .endless
  | stopped within => exact .stopped (within.trans suffix)

theorem CloseAlike.more {cells cells' : List Cell} {first second : Option (List Lexeme)}
    (alike : CloseAlike cells first second) (suffix : cells <:+ cells') : CloseAlike cells' first second := by
  cases alike with
  | «open» => exact .open
  | closed within => exact .closed (within.trans suffix)

theorem CloseAlike.none_iff {cells : List Cell} {first second : Option (List Lexeme)}
    (alike : CloseAlike cells first second) : first = none ↔ second = none := by
  cases alike with
  | «open» => exact Iff.rfl
  | closed => exact iff_of_false nofun nofun

theorem CloseAlike.of_some {cells : List Cell} {first second : List Lexeme}
    (alike : CloseAlike cells (some first) (some second)) :
    ∃ further, further <:+ cells ∧ first = further.flatMap Cell.before ∧ second = further.flatMap Cell.after := by
  generalize left : some first = first' at alike
  generalize right : some second = second' at alike
  cases alike with
  | «open» => cases left
  | closed suffix => exact ⟨_, suffix, Option.some.inj left, Option.some.inj right⟩

theorem EndAlike.rest {cells : List Cell} {first second : Option Stop} (alike : EndAlike cells first second) :
    CloseAlike cells (first.map fun (_, _, _, rest) => rest) (second.map fun (_, _, _, rest) => rest) := by
  cases alike with
  | endless => exact .open
  | stopped suffix => exact .closed suffix

theorem scanBlock_rest (opener : Opener) (args : String) (start : Span) (tokens : List Lexeme) :
    (scanBlock source opener args start tokens).map Block.rest =
      if opener = .conditional then (scanBranches source args tokens).map Branches.rest
      else (scanBody source opener.stops tokens).parts.2.2.map fun (_, _, _, rest) => rest := by
  rw [scanBlock]
  split
  · rw [Option.map_map]
    rfl
  · rw [Option.map_map, Scan.parts, Option.map_map]
    rfl

theorem scanBranches_rest (condition : String) (tokens : List Lexeme) :
    (scanBranches source condition tokens).map Branches.rest =
      (scanBody source Opener.conditional.stops tokens).parts.2.2.bind fun (closer, args, _, rest) =>
        if closer = .elseIf then (scanBranches source args rest).map Branches.rest
        else if closer = .otherwise then (scanBody source [.endIf] rest).parts.2.2.map fun (_, _, _, rest) => rest
        else some rest := by
  have parts := congrArg (Option.map fun found => found.2.2.2.2) (@scanBranches_parts source condition tokens)
  rw [Option.map_map] at parts
  refine Eq.trans parts ?_
  rw [Option.map_bind]
  congr
  funext stop
  obtain ⟨closer, args, closed, rest⟩ := stop
  dsimp only [Function.comp]
  split
  · simp only [Option.map_map]
    rfl
  split
  · rw [Option.map_map]
    rfl
  · rfl

mutual
theorem scanBody_thinned (stops : List Closer) (cells : List Cell) (thinned : Thinned source cells) :
    EndAlike cells (scanBody source stops (cells.flatMap Cell.before)).parts.2.2
      (scanBody source' stops (cells.flatMap Cell.after)).parts.2.2 := by
  cases thinned with
  | nil =>
    rw [List.flatMap_nil, List.flatMap_nil, scanBody, scanBody]
    exact .endless
  | @dropped cells name args opener start inside role closed behind =>
    obtain ⟨block, tried, same⟩ := Option.map_eq_some_iff.1 closed
    rw [List.flatMap_cons, List.flatMap_cons]
    simp only [Cell.before, Cell.after, List.cons_append, List.nil_append]
    rw [scanBody_block stops role tried, same]
    exact (scanBody_thinned stops cells behind).more (List.suffix_cons _ _)
  | @kept cells token here there behind =>
    rw [List.flatMap_cons, List.flatMap_cons]
    simp only [Cell.before, Cell.after, List.singleton_append]
    have onwards := (scanBody_thinned stops cells behind).more (List.suffix_cons (.kept token here there) cells)
    match token with
    | .text text =>
      rw [scanBody_text, scanBody_text]
      exact onwards
    | .echo expression raw =>
      rw [scanBody_leaf stops .echo, scanBody_leaf stops .echo]
      exact onwards
    | .directive name args =>
      cases role : roleOf name (args.getD "") with
      | standalone =>
        rw [scanBody_leaf stops (leaf_of_standalone role), scanBody_leaf stops (leaf_of_standalone role)]
        exact onwards
      | closer closer =>
        by_cases ends : closer ∈ stops
        · cases name_of_closer role
          rw [scanBody_closer stops ends, scanBody_closer stops ends]
          exact .stopped (List.suffix_cons _ _)
        · rw [scanBody_unopened stops role ends, scanBody_unopened stops role ends]
          exact onwards
      | opener opener =>
        have blocks := scanBlock_thinned opener (args.getD "") here there cells behind
        have both := blocks.none_iff
        rw [Option.map_eq_none_iff, Option.map_eq_none_iff] at both
        cases left : scanBlock source opener (args.getD "") here (cells.flatMap Cell.before) with
        | none =>
          rw [scanBody_unclosed stops role left, scanBody_unclosed stops role (both.1 left)]
          exact onwards
        | some block =>
          cases right : scanBlock source' opener (args.getD "") there (cells.flatMap Cell.after) with
          | none => exact absurd (left.symm.trans (both.2 right)) nofun
          | some block' =>
            rw [scanBody_block stops role left, scanBody_block stops role right]
            rw [left, right] at blocks
            obtain ⟨further, suffix, first, second⟩ := blocks.of_some
            have := suffix.length_le
            dsimp only
            rw [first, second]
            exact (scanBody_thinned stops further (behind.suffix suffix)).more (suffix.trans (List.suffix_cons _ _))
termination_by (cells.length, 0)

theorem scanBlock_thinned (opener : Opener) (args : String) (here there : Span) (cells : List Cell)
    (thinned : Thinned source cells) :
    CloseAlike cells ((scanBlock source opener args here (cells.flatMap Cell.before)).map Block.rest)
      ((scanBlock source' opener args there (cells.flatMap Cell.after)).map Block.rest) := by
  rw [scanBlock_rest, scanBlock_rest]
  split
  · exact scanBranches_thinned args cells thinned
  · exact (scanBody_thinned opener.stops cells thinned).rest
termination_by (cells.length, 2)

theorem scanBranches_thinned (condition : String) (cells : List Cell) (thinned : Thinned source cells) :
    CloseAlike cells ((scanBranches source condition (cells.flatMap Cell.before)).map Branches.rest)
      ((scanBranches source' condition (cells.flatMap Cell.after)).map Branches.rest) := by
  rw [scanBranches_rest, scanBranches_rest]
  have first := scanBody_thinned Opener.conditional.stops cells thinned
  generalize left : (scanBody source Opener.conditional.stops (cells.flatMap Cell.before)).parts.2.2 = stop at first
  generalize (scanBody source' Opener.conditional.stops (cells.flatMap Cell.after)).parts.2.2 = stop' at first
  cases first with
  | endless => exact .open
  | @stopped further closer args span span' suffix =>
    have inside := thinned.suffix suffix
    have shorter := (stop_inside left).2
    have : further.length < cells.length := by
      refine Nat.lt_of_le_of_ne suffix.length_le fun same => ?_
      rw [suffix.eq_of_length same] at shorter
      exact Nat.lt_irrefl _ shorter
    dsimp only [Option.bind_some]
    split
    · exact (scanBranches_thinned args further inside).more suffix
    split
    · exact (scanBody_thinned [.endIf] further inside).rest.more suffix
    · exact .closed suffix
termination_by (cells.length, 1)
end

theorem Thinned.before_ne_nil {cells : List Cell} (thinned : Thinned source cells) :
    ∀ cell ∈ cells, cell.before ≠ [] := by
  induction thinned with
  | nil => exact List.forall_mem_nil _
  | kept _ _ _ _ ih | dropped _ _ _ ih => exact List.forall_mem_cons.2 ⟨List.cons_ne_nil _ _, ih⟩

theorem Thinned.moved {cells : List Cell} (thinned : Thinned source cells) (distance distance' : Nat)
    (tokens : List Lexeme) : Thinned source (tokens.map (Cell.moved distance distance') ++ cells) := by
  induction tokens with
  | nil => exact thinned
  | cons lexeme tokens ih => exact .kept _ _ _ ih

/-- Where no block went on behind a cut, none does when what follows is thinned. -/
theorem Apart.thinned {cells : List Cell} (thinned : Thinned source cells) {distance distance' : Nat}
    {tokens : List Lexeme} (apart : Apart source (tokens.map (Located.moved distance)) (cells.flatMap Cell.before)) :
    Apart source' (tokens.map (Located.moved distance')) (cells.flatMap Cell.after) := by
  induction tokens with
  | nil => exact .nil
  | cons lexeme tokens ih =>
    refine .cons ?_ (ih (apart.suffix (List.suffix_cons _ _)))
    obtain ⟨token, span⟩ := lexeme
    rintro name args opener ⟨⟩ role rest there
    have blocks := @scanBlock_thinned source source' opener (args.getD "")
      (span.moved distance) (span.moved distance') _ (thinned.moved distance distance' tokens)
    rw [List.flatMap_append, List.flatMap_append, Cell.before_moved, Cell.after_moved] at blocks
    cases here : (scanBlock source opener (args.getD "") (span.moved distance)
        (tokens.map (Located.moved distance) ++ cells.flatMap Cell.before)).map Block.rest with
    | none => exact absurd ((blocks.none_iff.1 here).symm.trans there) nofun
    | some rest' =>
      have closed : (scanBlock source' opener (args.getD "") (span.moved distance')
        (tokens.map (Located.moved distance') ++ cells.flatMap Cell.after)).map Block.rest = some rest := there
      rw [here, closed] at blocks
      obtain ⟨further, suffix, rfl, rfl⟩ := blocks.of_some
      have beyond := apart name args (span.moved distance) opener _ (List.suffix_refl _) role _ here
      rcases List.suffix_or_suffix_of_suffix suffix (List.suffix_append _ cells) with ⟨front, rfl⟩ | ⟨front, rfl⟩
      · -- What is left in the first source is no less than what followed the cut, so it is the same.
        have none : front = [] := by
          have shorter := beyond.length_le
          rw [List.flatMap_append, List.length_append] at shorter
          rcases front with _ | ⟨cell, front⟩
          · rfl
          · have some := List.length_pos_iff.2 (thinned.before_ne_nil cell (by simp))
            rw [List.flatMap_cons, List.length_append] at shorter
            omega
        rw [none]
        exact List.suffix_refl _
      · rw [List.flatMap_append]
        exact List.suffix_append _ _

end Stencil.Template
