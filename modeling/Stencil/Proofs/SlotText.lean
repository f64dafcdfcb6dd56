import Stencil.Proofs.ReadingMoved
import Stencil.Proofs.TokenCut

/-! The text of a slot, which is read again in the component that prints it. It means by itself what
it meant where it stood: the same tokens, the same nodes and the same problems. -/

namespace Stencil.Template
open Text

theorem assemble_moved (distance : Nat) {position : Nat} {pending pending' : Pending} {row : List (List Char × Piece)}
    (same : pending'.reversed = pending.reversed)
    (starts : pending.reversed ≠ [] → pending'.start = distance + pending.start) :
    assemble (distance + position) pending' row = (assemble position pending row).map (Located.moved distance) := by
  have flushed (position : Nat) {pending pending' : Pending} (same : pending'.reversed = pending.reversed)
      (starts : pending.reversed ≠ [] → pending'.start = distance + pending.start) :
      pending'.flush (distance + position) = (pending.flush position).map (Located.moved distance) := by
    unfold Pending.flush
    rw [same]
    split
    next => rfl
    next some => rw [starts (by simpa using some)]; rfl
  induction row generalizing position pending pending' with
  | nil => exact flushed position same starts
  | cons first row ih =>
    obtain ⟨written, piece⟩ := first
    cases piece with
    | literal text =>
      simp only [assemble]
      rw [Nat.add_assoc]
      apply ih
      · simp [Pending.push, same]
      · intro _
        simp only [Pending.push, same]
        split
        next => rfl
        next some => exact starts (by simpa using some)
    | comment =>
      simp only [assemble, List.map_append]
      rw [flushed position same starts, Nat.add_assoc, @ih _ {} {} rfl (absurd rfl)]
    | token token =>
      simp only [assemble, List.map_append, List.map_cons]
      rw [flushed position same starts, Nat.add_assoc, @ih _ {} {} rfl (absurd rfl)]
      simp [Located.moved, Span.moved]

/-- Between two directives stand the tokens of the text between them. -/
theorem tokens_between {source : String} {before inside after : List Lexeme} {name name' : String}
    {args args' : Option String} {opened closed : Span}
    (place : tokenize source =
      before ++ ⟨.directive name args, opened⟩ :: (inside ++ ⟨.directive name' args', closed⟩ :: after)) :
    ∃ front raw back, source.toList = front ++ (raw ++ back) ∧ byteLength front = opened.stop ∧
      closed.start = opened.stop + byteLength raw ∧
      inside = (tokenize (String.ofList raw)).map (Located.moved opened.stop) := by
  rw [tokenize_eq_assemble] at place
  obtain ⟨front, opener, _, row, opens, -, rest⟩ := assemble_split place nofun
  obtain ⟨middle, closer, back, rfl, closes, rfl, -⟩ := assemble_split rest.symm nofun
  rw [← List.singleton_append, ← List.append_assoc] at row
  obtain ⟨text, whole, behind⟩ := pieces_split row
  rw [List.foldl_append, List.foldl_cons, List.foldl_nil] at behind
  obtain ⟨right, rfl, later⟩ := pieces_split behind.symm
  rw [later] at behind
  have alone : pieces false (middle.flatMap Prod.fst) = middle := pieces_cut behind.symm rfl
  have moved := @assemble_moved opened.stop 0 {} {} middle rfl (absurd rfl)
  refine ⟨_, middle.flatMap Prod.fst, right, whole, ?_, ?_, ?_⟩
  · simp [opens]
  · rw [closes]
  · rw [tokenize_eq_assemble, String.toList_ofList, alone, ← moved, Nat.add_zero]

/-- Every token begins and ends between characters of its source. -/
theorem tokenize_bounded (source : String) : Bounded source.toList (tokenize source) := by
  intro lexeme mem
  have fits := (tiled_tokenize source).covering.fits lexeme.span (List.mem_map_of_mem mem)
  exact ⟨fits.starts, fits.stops⟩

/-- The tokens in a part of a source are those that begin and end in it. -/
theorem filter_within {source : String} {before inside after : List Lexeme} {first last : Token} {opened closed : Span}
    (place : tokenize source = before ++ ⟨first, opened⟩ :: (inside ++ ⟨last, closed⟩ :: after)) :
    ((tokenize source).filter fun lexeme => opened.stop ≤ lexeme.span.start ∧ lexeme.span.stop ≤ closed.start) =
      inside := by
  have tokens := (tiled_tokenize source).covering
  have ordered := tokens.ordered
  have some : ∀ lexeme ∈ tokenize source, lexeme.span.start < lexeme.span.stop :=
    fun lexeme mem => (tokens.fits lexeme.span (List.mem_map_of_mem mem)).nonempty
  rw [place] at ordered some ⊢
  simp only [List.map_append, List.map_cons, List.pairwise_append, List.pairwise_cons] at ordered
  obtain ⟨-, ⟨behind, -, ⟨later, -⟩, within⟩, ahead⟩ := ordered
  have opens := some ⟨first, opened⟩ (by simp)
  have closes := some ⟨last, closed⟩ (by simp)
  dsimp only at opens closes
  have none : ∀ lexeme ∈ before, ¬ (opened.stop ≤ lexeme.span.start ∧ lexeme.span.stop ≤ closed.start) := by
    intro lexeme mem
    have : lexeme.span.stop ≤ opened.start := ahead _ (List.mem_map_of_mem mem) _ List.mem_cons_self
    have := some lexeme (List.mem_append_left _ mem)
    omega
  have all : ∀ lexeme ∈ inside, opened.stop ≤ lexeme.span.start ∧ lexeme.span.stop ≤ closed.start := by
    intro lexeme mem
    exact ⟨behind _ (List.mem_append_left _ (List.mem_map_of_mem mem)),
      within _ (List.mem_map_of_mem mem) _ List.mem_cons_self⟩
  have none' : ∀ lexeme ∈ after, ¬ (opened.stop ≤ lexeme.span.start ∧ lexeme.span.stop ≤ closed.start) := by
    intro lexeme mem
    have : closed.stop ≤ lexeme.span.start := later _ (List.mem_map_of_mem mem)
    have := some lexeme (by simp [mem])
    omega
  rw [List.filter_append, List.filter_eq_nil_iff.2 (by simpa using none), List.nil_append,
    List.filter_cons_of_neg (by simp; omega), List.filter_append, List.filter_eq_self.2 (by simpa using all),
    List.filter_cons_of_neg (by simp; omega), List.filter_eq_nil_iff.2 (by simpa using none'), List.append_nil]

/-- What a slot gives when its text is read again: what stands in its body in the source. -/
structure Reread (source raw : String) (body : Span) (nodes : List Node) (problems : List Diagnostic) : Prop where
  tokens : (tokenize raw).map (Located.moved body.start) =
    (tokenize source).filter fun lexeme => body.start ≤ lexeme.span.start ∧ lexeme.span.stop ≤ body.stop
  nodes : (read raw).1.map (Node.moved body.start) = nodes
  problems : (read raw).2.map (Diagnostic.moved body.start) = problems

/-- The text of a body that is ended, whatever began it. -/
theorem reread_between {source : String} {before rest further : List Lexeme} {name : String} {args : Option String}
    {opened closed : Span} {stops : List Closer} {nodes : List Node} {problems : List Diagnostic} {closer : Closer}
    {ignored : String} (place : tokenize source = before ++ ⟨.directive name args, opened⟩ :: rest)
    (read : (scanBody source.toList stops rest).parts = (nodes, problems, some (closer, ignored, closed, further))) :
    ∃ front text back, source.toList = front ++ (text ++ back) ∧ byteLength front = opened.stop ∧
      slice source.toList ⟨opened.stop, closed.start⟩ = text ∧
      Reread source (String.ofList text) ⟨opened.stop, closed.start⟩ nodes problems := by
  obtain ⟨inside, raw, -, rfl, -, -, alone⟩ := body_alone read
  obtain ⟨front, text, back, split, starts, stops, moved⟩ := tokens_between place
  have between : slice source.toList ⟨opened.stop, closed.start⟩ = text := by
    rw [split, stops, ← starts]
    exact slice_between front text back
  have same := scanBody_moved front back [] (tokenize (String.ofList text)) (tokenize_bounded _)
  rw [String.toList_ofList, ← split, starts, ← moved, alone] at same
  have nodes := congrArg Prod.fst same
  have problems := congrArg (fun parts => parts.2.1) same
  refine ⟨front, text, back, split, starts, between, ?_, ?_, ?_⟩
  · rw [← moved]
    exact (filter_within place).symm
  · rw [read_eq_scanBody, String.toList_ofList]
    exact nodes.symm
  · rw [read_eq_scanBody, String.toList_ofList]
    exact problems.symm

/-- A slot that is made at some place in a source, with any record that there may be by then, and
what is found in its body. -/
inductive Built (source : String) : Slot → Span → List Node → List Diagnostic → Prop where
  | intro {before rest : List Lexeme} {args : Option String} {opened span : Span} {unclosed : List Nat}
      {block : Block rest.length} {ending : Ending rest.length} {slot : Slot}
      (place : tokenize source = before ++ ⟨.directive "slot" args, opened⟩ :: rest)
      (sound : Sound source.toList (tokenize source) unclosed)
      (closed : (readBlock source.toList .slot (args.getD "") opened rest unclosed).block = some block)
      (node : block.node = .slot span slot)
      (ended : (readBody source.toList Opener.slot.stops rest unclosed).ending = some ending) :
      Built source slot ⟨opened.stop, ending.span.start⟩ (readBody source.toList Opener.slot.stops rest unclosed).nodes
        (readBody source.toList Opener.slot.stops rest unclosed).diagnostics

theorem Built.reread {source : String} {slot : Slot} {body : Span} {nodes : List Node} {problems : List Diagnostic}
    (built : Built source slot body nodes problems) : Reread source slot.raw body nodes problems := by
  cases built with
  | @intro before rest args opened span unclosed block ending slot place sound closed node ended =>
    have inside : rest <:+ tokenize source := by
      rw [place]
      exact (List.suffix_cons _ _).trans (List.suffix_append _ _)
    have same := (readBody_forget Opener.slot.stops rest unclosed inside sound).1
    have stopped : (scanBody source.toList Opener.slot.stops rest).ending = some ending := same ▸ ended
    have nodes : (readBody source.toList Opener.slot.stops rest unclosed).nodes = _ := congrArg Scan.nodes same
    have problems : (readBody source.toList Opener.slot.stops rest unclosed).diagnostics = _ :=
      congrArg Scan.diagnostics same
    have tried := (readBlock_forget "slot" args opened rest .slot unclosed (place ▸ List.suffix_append _ _) rfl sound).1
    rw [closed, scanBlock_of_ending (by decide) stopped] at tried
    cases tried
    cases node
    obtain ⟨_, _, _, _, _, between, reread⟩ := reread_between place (Scan.parts_of_ending stopped)
    rw [← between] at reread
    rw [nodes, problems]
    exact reread

/-- The slots that a node holds itself. -/
def Node.slots : Node → List Slot
  | .slot _ content => [content]
  | .component _ _ _ slots => slots
  | _ => []

variable {source : List Char}

/-- Read from a whole block that begins among the tokens. -/
def Made (source : List Char) (tokens : List Lexeme) (node : Node) : Prop :=
  ∃ name args opener opened rest problems further, ⟨.directive name args, opened⟩ :: rest <:+ tokens ∧
    roleOf name (args.getD "") = .opener opener ∧
    (scanBlock source opener (args.getD "") opened rest).map Block.parts = some (node, problems, further)

theorem Made.suffix {tokens tokens' : List Lexeme} {node : Node} (made : Made source tokens node)
    (suffix : tokens <:+ tokens') : Made source tokens' node := by
  obtain ⟨name, args, opener, opened, rest, problems, further, inside, block⟩ := made
  exact ⟨name, args, opener, opened, rest, problems, further, inside.trans suffix, block⟩

/-- No text, and not the node of a single token. -/
def Node.Whole (source : List Char) (node : Node) : Prop :=
  (∀ span text, node ≠ .text span text) ∧ ∀ span token, ¬ Leaf source span token node

theorem Inside.of_prepend {outer node : Node} {nodes : List Node} (inside : Inside (outer.prepend nodes) node)
    (mark : ∀ span text, node ≠ .text span text) : Inside [outer] node ∨ Inside nodes node := by
  cases outer with
  | text span value =>
    rcases prepend_text span value nodes with same | ⟨next, after, others, rfl, _, same⟩
    · rw [same] at inside
      exact (@Inside.append_iff [_] _ _).1 inside
    · rw [same] at inside
      rcases Inside.cons_iff.1 inside with rfl | within | later
      · exact absurd rfl (mark _ _)
      · exact absurd within Inside.not_nil
      · exact .inr (Inside.cons_iff.2 (.inr (.inr later)))
  | _ => exact (@Inside.append_iff [_] _ _).1 inside

theorem Inside.single_iff {outer node : Node} : Inside [outer] node ↔ node = outer ∨ Inside outer.children node := by
  rw [Inside.cons_iff, or_iff_left Inside.not_nil]

mutual
/-- Every node of a body that is no text and no single token is made from a block in it. -/
theorem body_made (stops : List Closer) (tokens : List Lexeme) {node : Node} (whole : node.Whole source)
    (inside : Inside (scanBody source stops tokens).parts.1 node) : Made source tokens node := by
  match tokens with
  | [] =>
    rw [scanBody] at inside
    exact absurd inside Inside.not_nil
  | ⟨token, span⟩ :: rest =>
    cases found : first? source stops ⟨token, span⟩ rest with
    | none =>
      obtain ⟨closer, args, ends, rfl⟩ := first?_none found
      rw [scanBody_closer stops ends] at inside
      exact absurd inside Inside.not_nil
    | some first =>
      obtain ⟨outer, problems, further⟩ := first
      have shorter := first?_inside found
      have := shorter.length_le
      rw [scanBody_first found] at inside
      rcases inside.of_prepend whole.1 with here | later
      · rcases first?_cases found with ⟨text, rfl⟩ | leaf | ⟨name, args, opener, same, role, block⟩
        · rcases Inside.single_iff.1 here with rfl | within
          · exact absurd rfl (whole.1 _ _)
          · exact absurd within Inside.not_nil
        · rcases Inside.single_iff.1 here with rfl | within
          · exact absurd leaf (whole.2 _ _)
          · rw [leaf.span.2] at within
            exact absurd within Inside.not_nil
        · cases same
          rcases Inside.single_iff.1 here with rfl | within
          · exact ⟨name, args, opener, span, rest, problems, further, List.suffix_refl _, role, block⟩
          · exact (block_made rest whole block within).suffix (List.suffix_cons _ _)
      · exact (body_made stops further whole later).suffix (shorter.trans (List.suffix_cons _ _))
termination_by (tokens.length, 0)

theorem block_made {opener : Opener} {args : String} {start : Span} (tokens : List Lexeme) {outer node : Node}
    {problems : List Diagnostic} {rest : List Lexeme} (whole : node.Whole source)
    (block : (scanBlock source opener args start tokens).map Block.parts = some (outer, problems, rest))
    (inside : Inside outer.children node) : Made source tokens node := by
  by_cases conditional : opener = .conditional
  · subst conditional
    rw [scanBlock_conditional] at block
    obtain ⟨⟨branches, otherwise, problems, stop, rest⟩, found, same⟩ := Option.map_eq_some_iff.1 block
    cases same
    exact branches_made args tokens whole found inside
  · rw [scanBlock_single conditional] at block
    obtain ⟨⟨closer, ignored, closed, _⟩, stopped, same⟩ := Option.map_eq_some_iff.1 block
    cases same
    cases opener with
    | conditional => exact absurd rfl conditional
    | sectionBlock | foreach | counting => exact body_made _ tokens whole inside
    | slot | component => exact absurd inside Inside.not_nil
termination_by (tokens.length, 2)

theorem branches_made (condition : String) (tokens : List Lexeme) {branches : List (String × List Node)}
    {otherwise : Option (List Node)} {problems : List Diagnostic} {stop : Nat} {rest : List Lexeme} {node : Node}
    (whole : node.Whole source)
    (found : (scanBranches source condition tokens).map Branches.parts = some (branches, otherwise, problems, stop, rest))
    (inside : Inside (branches.flatMap Prod.snd ++ otherwise.getD []) node) : Made source tokens node := by
  rw [scanBranches_parts] at found
  obtain ⟨⟨closer, args, closed, further⟩, stopped, chosen⟩ := Option.bind_eq_some_iff.1 found
  obtain ⟨later, _⟩ := stop_inside stopped
  dsimp only at chosen
  split at chosen
  · obtain ⟨⟨others, _, _, _, _⟩, seen, same⟩ := Option.map_eq_some_iff.1 chosen
    cases same
    rw [List.flatMap_cons, List.append_assoc] at inside
    rcases Inside.append_iff.1 inside with first | second
    · exact body_made _ tokens whole first
    · exact (branches_made args further whole seen second).suffix later
  split at chosen
  · obtain ⟨⟨_, _, _, _⟩, ends, same⟩ := Option.map_eq_some_iff.1 chosen
    cases same
    rcases Inside.append_iff.1 inside with first | second
    · exact body_made _ tokens whole (by simpa using first)
    · exact (body_made _ further whole second).suffix later
  · cases chosen
    exact body_made _ tokens whole (by simpa using inside)
termination_by (tokens.length, 1)
end

theorem slot_whole (span : Span) (slot : Slot) : (Node.slot span slot).Whole source :=
  ⟨nofun, fun _ _ leaf => by cases leaf⟩

theorem component_whole (span : Span) (args defaultSlot : String) (slots : List Slot) :
    (Node.component span args defaultSlot slots).Whole source :=
  ⟨nofun, fun _ _ leaf => by cases leaf⟩

/-- A block that is no conditional has a single body. -/
theorem block_single {opener : Opener} {args : String} {start : Span} {tokens rest : List Lexeme} {node : Node}
    {problems : List Diagnostic}
    (block : (scanBlock source opener args start tokens).map Block.parts = some (node, problems, rest))
    (single : ∀ span branches otherwise, node ≠ .conditional span branches otherwise) :
    ∃ closer ignored closed, (scanBody source opener.stops tokens).parts.2.2 = some (closer, ignored, closed, rest) ∧
      node = blockNode source opener args start closed (scanBody source opener.stops tokens).parts.1 := by
  by_cases conditional : opener = .conditional
  · subst conditional
    rw [scanBlock_conditional] at block
    obtain ⟨_, _, same⟩ := Option.map_eq_some_iff.1 block
    cases same
    exact absurd rfl (single _ _ _)
  · rw [scanBlock_single conditional] at block
    obtain ⟨⟨closer, ignored, closed, _⟩, stopped, same⟩ := Option.map_eq_some_iff.1 block
    cases same
    exact ⟨closer, ignored, closed, stopped, rfl⟩

theorem Made.of_slot {tokens : List Lexeme} {span : Span} {slot : Slot} (made : Made source tokens (.slot span slot)) :
    ∃ args opened rest problems further, ⟨.directive "slot" args, opened⟩ :: rest <:+ tokens ∧
      (scanBlock source .slot (args.getD "") opened rest).map Block.parts =
        some (.slot span slot, problems, further) := by
  obtain ⟨name, args, opener, opened, rest, problems, further, inside, role, block⟩ := made
  obtain ⟨_, _, _, _, same⟩ := block_single block nofun
  obtain ⟨rfl, -⟩ := name_of_opener role
  cases opener <;> cases same
  exact ⟨args, opened, rest, problems, further, inside, block⟩

theorem Made.of_component {tokens : List Lexeme} {span : Span} {args defaultSlot : String} {slots : List Slot}
    (made : Made source tokens (.component span args defaultSlot slots)) :
    ∃ raw opened rest closer ignored closed further, ⟨.directive "component" raw, opened⟩ :: rest <:+ tokens ∧
      (scanBody source Opener.component.stops rest).parts.2.2 = some (closer, ignored, closed, further) ∧
      Node.component span args defaultSlot slots =
        blockNode source .component (raw.getD "") opened closed (scanBody source Opener.component.stops rest).parts.1 := by
  obtain ⟨name, raw, opener, opened, rest, problems, further, inside, role, block⟩ := made
  obtain ⟨closer, ignored, closed, stopped, same⟩ := block_single block nofun
  obtain ⟨rfl, -⟩ := name_of_opener role
  cases opener <;> cases same
  exact ⟨raw, opened, rest, closer, ignored, closed, further, inside, stopped, rfl⟩

/-- A slot that some node of a body holds is made from a block in the body. -/
theorem slot_made (stops : List Closer) (tokens : List Lexeme) {node : Node} {slot : Slot}
    (inside : Inside (scanBody source stops tokens).parts.1 node) (mem : slot ∈ node.slots) :
    ∃ span, Made source tokens (.slot span slot) := by
  cases node with
  | slot span content =>
    cases List.mem_singleton.1 mem
    exact ⟨span, body_made stops tokens (slot_whole _ _) inside⟩
  | component span args defaultSlot slots =>
    obtain ⟨raw, opened, rest, closer, ignored, closed, further, suffix, -, same⟩ :=
      (body_made stops tokens (component_whole _ _ _ _) inside).of_component
    have slots : slots = (scanBody source Opener.component.stops rest).parts.1.filterMap Node.slot? := by
      injection same
    rw [Node.slots, slots] at mem
    obtain ⟨inner, there, same⟩ := List.mem_filterMap.1 mem
    cases inner with
    | slot span content =>
      cases same
      have made := body_made Opener.component.stops rest (slot_whole span slot) (.here there)
      exact ⟨span, made.suffix ((List.suffix_cons _ _).trans suffix)⟩
    | _ => cases same
  | _ => cases mem

/-- Every slot of a tree was made from a body. -/
theorem slot_built {source : String} {node : Node} (inside : Inside (read source).1 node) {slot : Slot}
    (mem : slot ∈ node.slots) : ∃ body nodes problems, Built source slot body nodes problems := by
  rw [read_eq_scanBody] at inside
  obtain ⟨span, made⟩ := slot_made [] (tokenize source) inside mem
  obtain ⟨args, opened, rest, problems, further, ⟨before, place⟩, block⟩ := made.of_slot
  obtain ⟨whole, tried, parts⟩ := Option.map_eq_some_iff.1 block
  have within : rest <:+ tokenize source := ⟨before ++ [⟨.directive "slot" args, opened⟩], by simpa using place⟩
  have same := (@readBlock_forget source.toList _ "slot" args opened rest .slot [] ⟨before, place⟩ rfl Sound.empty).1
  have body := (@readBody_forget source.toList _ Opener.slot.stops rest [] within Sound.empty).1
  have closed := tried
  rw [scanBlock, if_neg (by decide)] at closed
  obtain ⟨ending, ended, -⟩ := Option.map_eq_some_iff.1 closed
  exact ⟨_, _, _, .intro place.symm Sound.empty (same.trans tried) (congrArg Prod.fst parts) (body ▸ ended)⟩

/-- Every slot of a tree was made from a body, and read again each such body gives the same. -/
structure SlotsKept (source : String) : Prop where
  built : ∀ node, Inside (read source).1 node → ∀ slot ∈ node.slots, ∃ body nodes problems,
    Built source slot body nodes problems
  reread : ∀ slot body nodes problems, Built source slot body nodes problems →
    Reread source slot.raw body nodes problems

theorem slots_mean_the_same (source : String) : SlotsKept source where
  built _ inside _ mem := slot_built inside mem
  reread _ _ _ _ built := built.reread

end Stencil.Template
