import Stencil.Template.Basic

/-! Reading without a record of the openers that were tried in vain: every opener is tried
afresh wherever it is met. The record only saves work. What it says of a place stays true
under every enclosing block, since trying an opener asks for nothing but the tokens behind it. -/

namespace Stencil.Template
open Text

/-- A body read with no record kept. -/
structure Scan (bound : Nat) where
  nodes : List Node
  diagnostics : List Diagnostic
  ending : Option (Ending bound)

def Scan.prepend {small large : Nat} (scan : Scan small) (le : small ≤ large) (node : Node)
    (diagnostics : List Diagnostic) : Scan large where
  nodes := node.prepend scan.nodes
  diagnostics := diagnostics ++ scan.diagnostics
  ending := scan.ending.map (Ending.widen le)

mutual
def scanBody (source : List Char) (stops : List Closer) (tokens : List Lexeme) : Scan tokens.length :=
  match tokens with
  | [] => ⟨[], [], none⟩
  | ⟨token, span⟩ :: rest =>
    have le : rest.length ≤ (⟨token, span⟩ :: rest : List Lexeme).length := Nat.le_succ _
    match token with
    | .text text => (scanBody source stops rest).prepend le (.text span text) []
    | .echo expression raw => (scanBody source stops rest).prepend le (.echo span expression !raw) []
    | .directive name args =>
      match roleOf name (args.getD "") with
      | .standalone =>
        let node := standaloneNode span name args (String.ofList (slice source span))
        (scanBody source stops rest).prepend le node []
      | .closer closer =>
        if closer ∈ stops then
          ⟨[], [], some ⟨closer, args.getD "", span, rest, Nat.lt_succ_self _⟩⟩
        else (scanBody source stops rest).prepend le (literally source span) [⟨span, .unopened closer.name⟩]
      | .opener opener =>
        match scanBlock source opener (args.getD "") span rest with
        | some block =>
          have := block.shorter
          (scanBody source stops block.rest).prepend (by simp; omega) block.node block.diagnostics
        | none => (scanBody source stops rest).prepend le (literally source span) [⟨span, .unclosed opener.name⟩]
termination_by (tokens.length, 0)

/-- Goes back to the tokens behind the opener when they hold no closer for it. -/
def scanBlock (source : List Char) (opener : Opener) (args : String) (start : Span)
    (tokens : List Lexeme) : Option (Block tokens.length) :=
  if opener = .conditional then
    (scanBranches source args tokens).map fun found =>
      ⟨.conditional ⟨start.start, found.stop⟩ found.branches found.otherwise, found.diagnostics,
        found.rest, found.shorter⟩
  else
    let scan := scanBody source opener.stops tokens
    scan.ending.map fun ending =>
      ⟨blockNode source opener args start ending.span scan.nodes, scan.diagnostics, ending.rest, ending.shorter⟩
termination_by (tokens.length, 2)

def scanBranches (source : List Char) (condition : String) (tokens : List Lexeme) :
    Option (Branches tokens.length) :=
  let scan := scanBody source Opener.conditional.stops tokens
  match scan.ending with
  | none => none
  | some ending =>
    have := ending.shorter
    if ending.closer = .elseIf then
      (scanBranches source ending.args ending.rest).map fun found =>
        { found with
          branches := (condition, scan.nodes) :: found.branches
          diagnostics := scan.diagnostics ++ found.diagnostics
          shorter := Nat.lt_trans found.shorter ending.shorter }
    else if ending.closer = .otherwise then
      let last := scanBody source [.endIf] ending.rest
      last.ending.map fun stop =>
        { branches := [(condition, scan.nodes)]
          otherwise := some last.nodes
          diagnostics := scan.diagnostics ++ last.diagnostics
          stop := stop.span.stop
          rest := stop.rest
          shorter := Nat.lt_trans stop.shorter ending.shorter }
    else
      some ⟨[(condition, scan.nodes)], none, scan.diagnostics, ending.span.stop, ending.rest, ending.shorter⟩
termination_by (tokens.length, 1)
end

def scan (source : String) : List Node × List Diagnostic :=
  let body := scanBody source.toList [] (tokenize source)
  (body.nodes, body.diagnostics)

namespace Body

/-- The body without the record. -/
def forget {bound : Nat} (body : Body bound) : Scan bound := ⟨body.nodes, body.diagnostics, body.ending⟩

@[simp] theorem forget_prepend {small large : Nat} (body : Body small) (le : small ≤ large) (node : Node)
    (diagnostics : List Diagnostic) :
    (body.prepend le node diagnostics).forget = body.forget.prepend le node diagnostics := rfl

@[simp] theorem unclosed_prepend {small large : Nat} (body : Body small) (le : small ≤ large) (node : Node)
    (diagnostics : List Diagnostic) : (body.prepend le node diagnostics).unclosed = body.unclosed := rfl

end Body

/-- Every place on record is that of an opener that is tried in vain. Places are counted
from the end of all the tokens, so one place cannot belong to two openers. -/
def Sound (source : List Char) (all : List Lexeme) (unclosed : List Nat) : Prop :=
  ∀ name args start tokens opener, ⟨.directive name args, start⟩ :: tokens <:+ all →
    roleOf name (args.getD "") = .opener opener → tokens.length ∈ unclosed →
    scanBlock source opener (args.getD "") start tokens = none

variable {source : List Char} {all : List Lexeme}

theorem Sound.empty : Sound source all [] := by
  intro name args start tokens opener _ _ recorded
  cases recorded

theorem Sound.record {unclosed : List Nat} (sound : Sound source all unclosed) {name : String}
    {args : Option String} {start : Span} {tokens : List Lexeme} {opener : Opener}
    (inside : ⟨.directive name args, start⟩ :: tokens <:+ all)
    (role : roleOf name (args.getD "") = .opener opener)
    (vain : scanBlock source opener (args.getD "") start tokens = none) :
    Sound source all (tokens.length :: unclosed) := by
  intro other otherArgs otherStart others otherOpener otherInside otherRole recorded
  rcases List.mem_cons.1 recorded with same | recorded
  · have length : (⟨.directive other otherArgs, otherStart⟩ :: others : List Lexeme).length =
        (⟨.directive name args, start⟩ :: tokens : List Lexeme).length := by simp [same]
    have equal := (List.suffix_of_suffix_length_le otherInside inside (Nat.le_of_eq length)).eq_of_length length
    cases equal
    cases otherRole.symm.trans role
    exact vain
  · exact sound other otherArgs otherStart others otherOpener otherInside otherRole recorded

theorem tail_inside {lexeme : Lexeme} {tokens : List Lexeme} (inside : lexeme :: tokens <:+ all) :
    tokens <:+ all := (List.suffix_cons lexeme tokens).trans inside

mutual
/-- Reading never goes back before the tokens it is given. -/
theorem ending_inside (source : List Char) (stops : List Closer) (tokens : List Lexeme)
    (ending : Ending tokens.length) (found : (scanBody source stops tokens).ending = some ending) :
    ending.rest <:+ tokens := by
  match tokens with
  | [] => simp [scanBody] at found
  | ⟨token, span⟩ :: rest =>
    have widened {small : Nat} {inner : Scan small} {le : small ≤ rest.length + 1} {node : Node}
        {diagnostics : List Diagnostic} (tail : List Lexeme) (shorter : tail <:+ rest)
        (inside : ∀ ending, inner.ending = some ending → ending.rest <:+ tail)
        (found : (inner.prepend le node diagnostics).ending = some ending) :
        ending.rest <:+ ⟨token, span⟩ :: rest := by
      obtain ⟨before, seen, rfl⟩ := Option.map_eq_some_iff.1 found
      exact ((inside before seen).trans shorter).trans (List.suffix_cons _ _)
    have onwards := fun ending => ending_inside source stops rest ending
    rw [scanBody] at found
    cases token with
    | text text => exact widened rest (List.suffix_refl _) onwards found
    | echo expression raw => exact widened rest (List.suffix_refl _) onwards found
    | directive name args =>
      dsimp only at found
      split at found
      next => exact widened rest (List.suffix_refl _) onwards found
      next closer _ =>
        split at found
        · cases found
          exact List.suffix_cons _ _
        · exact widened rest (List.suffix_refl _) onwards found
      next opener _ =>
        split at found
        next block tried =>
          have := block.shorter
          have tail := block_inside source opener (args.getD "") span rest block tried
          exact widened block.rest tail (fun ending => ending_inside source stops block.rest ending) found
        next => exact widened rest (List.suffix_refl _) onwards found
termination_by (tokens.length, 0)

theorem block_inside (source : List Char) (opener : Opener) (args : String) (start : Span)
    (tokens : List Lexeme) (block : Block tokens.length)
    (found : scanBlock source opener args start tokens = some block) : block.rest <:+ tokens := by
  rw [scanBlock] at found
  split at found
  · obtain ⟨branches, seen, rfl⟩ := Option.map_eq_some_iff.1 found
    exact branches_inside source args tokens branches seen
  · obtain ⟨ending, seen, rfl⟩ := Option.map_eq_some_iff.1 found
    exact ending_inside source opener.stops tokens ending seen
termination_by (tokens.length, 2)

theorem branches_inside (source : List Char) (condition : String) (tokens : List Lexeme)
    (branches : Branches tokens.length)
    (found : scanBranches source condition tokens = some branches) : branches.rest <:+ tokens := by
  rw [scanBranches] at found
  dsimp only at found
  split at found
  next => cases found
  next ending seen =>
    have := ending.shorter
    have inside := ending_inside source Opener.conditional.stops tokens ending seen
    split at found
    · obtain ⟨others, later, rfl⟩ := Option.map_eq_some_iff.1 found
      exact (branches_inside source ending.args ending.rest others later).trans inside
    · split at found
      · obtain ⟨stop, later, rfl⟩ := Option.map_eq_some_iff.1 found
        exact (ending_inside source [.endIf] ending.rest stop later).trans inside
      · cases found
        exact inside
termination_by (tokens.length, 1)
end

mutual
/-- A sound record never changes what is read, and reading keeps it sound. The openers
found to be in vain on the way are all recorded for good, also where the reading that met
them is given up itself. -/
theorem readBody_forget (stops : List Closer) (tokens : List Lexeme) (unclosed : List Nat)
    (inside : tokens <:+ all) (sound : Sound source all unclosed) :
    (readBody source stops tokens unclosed).forget = scanBody source stops tokens ∧
      Sound source all (readBody source stops tokens unclosed).unclosed := by
  match tokens with
  | [] => simpa [readBody, scanBody, Body.forget] using sound
  | ⟨token, span⟩ :: rest =>
    have onwards := fun unclosed => readBody_forget stops rest unclosed (tail_inside inside)
    rw [readBody, scanBody]
    cases token with
    | text text => simpa [(onwards unclosed sound).1] using (onwards unclosed sound).2
    | echo expression raw => simpa [(onwards unclosed sound).1] using (onwards unclosed sound).2
    | directive name args =>
      dsimp only
      cases role : roleOf name (args.getD "") with
      | standalone => simpa [(onwards unclosed sound).1] using (onwards unclosed sound).2
      | closer closer =>
        dsimp only
        split
        · exact ⟨rfl, sound⟩
        · simpa [(onwards unclosed sound).1] using (onwards unclosed sound).2
      | opener opener =>
        obtain ⟨same, kept⟩ := readBlock_forget name args span rest opener unclosed inside role sound
        dsimp only
        rw [← same]
        cases tried : (readBlock source opener (args.getD "") span rest unclosed).block with
        | none => simpa [(onwards _ kept).1] using (onwards _ kept).2
        | some block =>
          have := block.shorter
          have behind := block_inside source opener (args.getD "") span rest block (same.symm.trans tried)
          have further := readBody_forget stops block.rest _ (behind.trans (tail_inside inside)) kept
          simpa [further.1] using further.2
termination_by (tokens.length, 0)

theorem readBlock_forget (name : String) (args : Option String) (start : Span) (tokens : List Lexeme)
    (opener : Opener) (unclosed : List Nat) (inside : ⟨.directive name args, start⟩ :: tokens <:+ all)
    (role : roleOf name (args.getD "") = .opener opener) (sound : Sound source all unclosed) :
    (readBlock source opener (args.getD "") start tokens unclosed).block =
        scanBlock source opener (args.getD "") start tokens ∧
      Sound source all (readBlock source opener (args.getD "") start tokens unclosed).unclosed := by
  rw [readBlock]
  split
  next recorded => exact ⟨(sound name args start tokens opener inside role recorded).symm, sound⟩
  next =>
    split
    next conditional =>
      obtain ⟨same, kept⟩ := readBranches_forget (args.getD "") tokens unclosed (tail_inside inside) sound
      have scanned : scanBlock source opener (args.getD "") start tokens =
          (scanBranches source (args.getD "") tokens).map fun found =>
            ⟨.conditional ⟨start.start, found.stop⟩ found.branches found.otherwise, found.diagnostics,
              found.rest, found.shorter⟩ := by rw [scanBlock, if_pos conditional]
      dsimp only
      split
      next missing =>
        have vain : scanBlock source opener (args.getD "") start tokens = none := by
          rw [scanned, ← same, missing, Option.map_none]
        exact ⟨vain.symm, kept.record inside role vain⟩
      next found seen => exact ⟨by rw [scanned, ← same, seen, Option.map_some], kept⟩
    next single =>
      obtain ⟨same, kept⟩ := readBody_forget opener.stops tokens unclosed (tail_inside inside) sound
      have scanned : scanBlock source opener (args.getD "") start tokens =
          (readBody source opener.stops tokens unclosed).ending.map fun ending =>
            ⟨blockNode source opener (args.getD "") start ending.span
                (readBody source opener.stops tokens unclosed).nodes,
              (readBody source opener.stops tokens unclosed).diagnostics, ending.rest, ending.shorter⟩ := by
        rw [scanBlock, if_neg single, ← same]
        rfl
      dsimp only
      split
      next missing =>
        have vain : scanBlock source opener (args.getD "") start tokens = none := by
          rw [scanned, missing, Option.map_none]
        exact ⟨vain.symm, kept.record inside role vain⟩
      next ending seen => exact ⟨by rw [scanned, seen, Option.map_some], kept⟩
termination_by (tokens.length, 2)

theorem readBranches_forget (condition : String) (tokens : List Lexeme) (unclosed : List Nat)
    (inside : tokens <:+ all) (sound : Sound source all unclosed) :
    (readBranches source condition tokens unclosed).found = scanBranches source condition tokens ∧
      Sound source all (readBranches source condition tokens unclosed).unclosed := by
  obtain ⟨same, kept⟩ := readBody_forget Opener.conditional.stops tokens unclosed inside sound
  have behind := ending_inside source Opener.conditional.stops tokens
  rw [readBranches, scanBranches, ← same]
  rw [← same] at behind
  simp only [Body.forget] at behind ⊢
  cases seen : (readBody source Opener.conditional.stops tokens unclosed).ending with
  | none => exact ⟨rfl, kept⟩
  | some ending =>
    have := ending.shorter
    have later := (behind ending seen).trans inside
    dsimp only
    split
    · obtain ⟨others, preserved⟩ := readBranches_forget ending.args ending.rest _ later kept
      exact ⟨by rw [others], preserved⟩
    · split
      · obtain ⟨last, preserved⟩ := readBody_forget [.endIf] ending.rest _ later kept
        exact ⟨by rw [← last]; rfl, preserved⟩
      · exact ⟨rfl, kept⟩
termination_by (tokens.length, 1)
end

theorem read_eq_scanBody (source : String) :
    read source = ((scanBody source.toList [] (tokenize source)).nodes,
      (scanBody source.toList [] (tokenize source)).diagnostics) := by
  rw [← (readBody_forget [] (tokenize source) [] (List.suffix_refl _) Sound.empty).1]
  rfl

/-- Keeping a record of the openers that were tried in vain shows in nothing that is read. -/
theorem record_is_invisible (source : String) : read source = scan source := read_eq_scanBody source

end Stencil.Template
