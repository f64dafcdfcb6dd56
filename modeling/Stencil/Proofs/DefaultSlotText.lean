import Mathlib
import Stencil.Proofs.BodyParts
import Stencil.Proofs.ReadingParted
import Stencil.Proofs.SlotText

/-! The default slot of a component, whose text is put together from what stands between the slots of
the body. Read again it means what the body meant without the slots, wherever the parts do not run
together: no piece of the text is made, or unmade, where two of them meet. -/

namespace Stencil.Template
open Text

namespace Part
variable {source source' : List Char}

/-- The parts that make up the default slot, with nothing between them. -/
def kept : List Part → List Part
  | [] => []
  | part :: parts => if part.node.slot?.isNone then { part with gap := [] } :: kept parts else kept parts

/-- The tokens of a body, and those of its default slot. -/
def cellsFrom : Nat → Nat → List Part → List Cell
  | _, _, [] => []
  | position, position', part :: parts =>
    let start := position + width part.gap
    if part.node.slot?.isNone then
      part.tokens.map (Cell.moved start position') ++ cellsFrom (start + width part.row) (position' + width part.row) parts
    else .dropped (part.tokens.map (Located.moved start)) :: cellsFrom (start + width part.row) position' parts

theorem before_cellsFrom (position position' : Nat) (parts : List Part) :
    (cellsFrom position position' parts).flatMap Cell.before = tokensFrom position parts := by
  induction parts generalizing position position' with
  | nil => rfl
  | cons part parts ih =>
    simp only [cellsFrom, tokensFrom]
    split
    · rw [List.flatMap_append, Cell.before_moved, ih]
    · rw [List.flatMap_cons, ih]
      rfl

theorem after_cellsFrom (position position' : Nat) (parts : List Part) :
    (cellsFrom position position' parts).flatMap Cell.after = tokensFrom position' (kept parts) := by
  induction parts generalizing position position' with
  | nil => rfl
  | cons part parts ih =>
    simp only [cellsFrom, kept]
    split
    · rw [List.flatMap_append, Cell.after_moved, ih]
      rfl
    · rw [List.flatMap_cons, ih]
      rfl

/-- A slot is a closed block. -/
theorem Sound.closed {part : Part} (sound : part.Sound) (slot : part.node.slot?.isNone = false) :
    ∃ name args opener problems, part.first.value = .directive name args ∧ roleOf name (args.getD "") = .opener opener ∧
      (scanBlock part.text opener (args.getD "") part.first.span part.others).map Block.parts =
        some (part.node, problems, []) := by
  obtain ⟨problems, found⟩ := sound.read
  rcases first?_cases found with ⟨text, same⟩ | leaf | ⟨name, args, opener, same, role, block⟩
  · rw [same] at slot
    cases slot
  · generalize part.node = node at slot leaf
    generalize part.first.value = token at leaf
    cases leaf <;> cases slot
  · exact ⟨name, args, opener, problems, same, role, block⟩

/-- It is closed in front of what follows it, wherever it stands. -/
theorem Sound.dropped {part : Part} (sound : part.Sound) (slot : part.node.slot?.isNone = false) {before after : List Char}
    {cells : List Cell} (split : source = before ++ (part.text ++ after))
    (apart : Apart source (part.tokens.map (Located.moved (byteLength before))) (cells.flatMap Cell.before))
    (behind : Thinned source cells) :
    Thinned source (.dropped (part.tokens.map (Located.moved (byteLength before))) :: cells) := by
  obtain ⟨name, args, opener, problems, directive, role, block⟩ := sound.closed slot
  obtain ⟨starts, stops⟩ := sound.bounded part.first List.mem_cons_self
  have moved := scanBlock_moved before after opener (args.getD "") stops part.others
    (sound.bounded.suffix (List.suffix_cons _ _))
  rw [← split, block] at moved
  have first : part.first.moved (byteLength before) = ⟨.directive name args, part.first.span.moved (byteLength before)⟩ := by
    rw [Located.moved, directive]
  rw [tokens, List.map_cons, first] at apart ⊢
  refine .dropped role ?_ behind
  rw [map_rest, scanBlock_append name args _ _ role apart, moved]
  rfl

theorem thinned_cellsFrom {before after : List Char} {parts : List Part} (sound : ∀ part ∈ parts, part.Sound)
    (split : source = before ++ ((rows parts).flatMap Prod.fst ++ after))
    (separate : Separate source (byteLength before) parts) (position' : Nat) :
    Thinned source (cellsFrom (byteLength before) position' parts) := by
  induction parts generalizing before position' with
  | nil => exact .nil
  | cons part parts ih =>
    obtain ⟨here, others⟩ := List.forall_mem_cons.1 sound
    obtain ⟨front, whole, split, start, stop⟩ := split_first split
    cases separate with
    | cons apart behind =>
      simp only [cellsFrom]
      rw [start, stop] at apart behind ⊢
      split
      · exact (ih others split behind _).moved _ _ _
      next slot =>
        rw [← before_cellsFrom _ position'] at apart
        exact here.dropped (Bool.not_eq_true _ ▸ slot) whole apart (ih others split behind _)

/-- The parts of the default slot keep apart, too. -/
theorem separate_kept {before after : List Char} {parts : List Part} (sound : ∀ part ∈ parts, part.Sound)
    (split : source = before ++ ((rows parts).flatMap Prod.fst ++ after))
    (separate : Separate source (byteLength before) parts) (position' : Nat) :
    Separate source' position' (kept parts) := by
  induction parts generalizing before position' with
  | nil => exact .nil
  | cons part parts ih =>
    obtain ⟨here, others⟩ := List.forall_mem_cons.1 sound
    obtain ⟨front, whole, split, start, stop⟩ := split_first split
    cases separate with
    | cons apart behind =>
      rw [start, stop] at apart behind
      rw [kept]
      split
      · refine .cons ?_ (ih others split behind _)
        have thinned := thinned_cellsFrom others split behind (position' + width part.row)
        rw [← before_cellsFrom _ (position' + width part.row)] at apart
        have further := @Apart.thinned _ source' _ thinned _ position' _ apart
        rw [after_cellsFrom] at further
        exact further
      · exact ih others split behind _

theorem Sound.kept {part : Part} (sound : part.Sound) : { part with gap := [] : Part }.Sound where
  comments := List.forall_mem_nil _
  genuine := (List.forall_mem_append.1 sound.genuine).2
  laid := sound.laid
  read := sound.read
  span := sound.span

theorem sound_kept {parts : List Part} (sound : ∀ part ∈ parts, part.Sound) : ∀ part ∈ kept parts, part.Sound := by
  induction parts with
  | nil => exact List.forall_mem_nil _
  | cons part parts ih =>
    obtain ⟨here, others⟩ := List.forall_mem_cons.1 sound
    rw [kept]
    split
    · exact List.forall_mem_cons.2 ⟨here.kept, ih others⟩
    · exact ih others

theorem Sound.nonempty {part : Part} (sound : part.Sound) : part.text ≠ [] := by
  have tiled := sound.laid.tiled (List.forall_mem_append.1 sound.genuine).2
  have bounds := tiled.bounds part.first.span (List.mem_map_of_mem List.mem_cons_self)
  intro none
  rw [text] at none
  rw [none] at bounds
  simp only [byteLength] at bounds
  omega

theorem nodesFrom_fit {before after : List Char} {parts : List Part} (sound : ∀ part ∈ parts, part.Sound)
    (split : source = before ++ ((rows parts).flatMap Prod.fst ++ after)) :
    ∀ node ∈ nodesFrom (byteLength before) parts, node.span.Fits source := by
  induction parts generalizing before with
  | nil => exact List.forall_mem_nil _
  | cons part parts ih =>
    obtain ⟨here, others⟩ := List.forall_mem_cons.1 sound
    obtain ⟨front, whole, split, start, stop⟩ := split_first split
    simp only [nodesFrom]
    rw [start, stop]
    refine List.forall_mem_cons.2 ⟨⟨front, part.text, _, whole, here.nonempty, ?_⟩, ih others split⟩
    rw [Node.moved_span, here.span]
    rfl

end Part

/-- A node that is put in front of others stands alone, or is text and joined to text. -/
theorem prepend_cases (node : Node) (nodes : List Node) :
    node.prepend nodes = node :: nodes ∨ ∃ span text next after others, node = .text span text ∧
      nodes = .text next after :: others ∧ span.stop = next.start ∧
      node.prepend nodes = .text ⟨span.start, next.stop⟩ (text ++ after) :: others := by
  cases node with
  | text span text =>
    rcases prepend_text span text nodes with same | ⟨next, after, others, same, touching, joined⟩
    · exact .inl same
    · exact .inr ⟨span, text, next, after, others, rfl, same, touching, joined⟩
  | _ => exact .inl rfl

section Joints
variable {source : List Char}

theorem prepend_fit {node : Node} {nodes : List Node} (here : node.span.Fits source)
    (others : ∀ node ∈ nodes, node.span.Fits source) : ∀ joined ∈ node.prepend nodes, joined.span.Fits source := by
  rcases prepend_cases node nodes with same | ⟨span, text, next, after, rest, rfl, rfl, touching, same⟩
  · rw [same]
    exact List.forall_mem_cons.2 ⟨here, others⟩
  · obtain ⟨there, others⟩ := List.forall_mem_cons.1 others
    rw [same]
    refine List.forall_mem_cons.2 ⟨Span.fits_iff.2 ⟨here.starts, there.stops, ?_⟩, others⟩
    have first := here.nonempty
    have second := there.nonempty
    simp only [Node.span] at first second ⊢
    omega

theorem foldr_fit {nodes : List Node} (fit : ∀ node ∈ nodes, node.span.Fits source) :
    ∀ node ∈ nodes.foldr Node.prepend [], node.span.Fits source := by
  induction nodes with
  | nil => exact List.forall_mem_nil _
  | cons node nodes ih =>
    obtain ⟨here, others⟩ := List.forall_mem_cons.1 fit
    exact prepend_fit here (ih others)

/-- Joining texts leaves the text of the default slot as it is. -/
theorem defaultSlot_foldr {nodes : List Node} (fit : ∀ node ∈ nodes, node.span.Fits source) :
    defaultSlot source (nodes.foldr Node.prepend []) = defaultSlot source nodes := by
  unfold defaultSlot
  congr 1
  induction nodes with
  | nil => rfl
  | cons node nodes ih =>
    obtain ⟨here, others⟩ := List.forall_mem_cons.1 fit
    have behind := foldr_fit others
    have further := ih others
    rw [List.foldr_cons]
    generalize nodes.foldr Node.prepend [] = joined at behind further
    rcases prepend_cases node joined with same | ⟨span, text, next, after, rest, rfl, rfl, touching, same⟩
    · rw [same, List.filter_cons, List.filter_cons]
      split
      · rw [List.flatMap_cons, List.flatMap_cons, further]
      · exact further
    · have together := slice_append here (List.forall_mem_cons.1 behind).1 touching
      simp only [Node.span] at together
      rw [same]
      simp only [Node.slot?, Node.span, Option.isNone_none, List.filter_cons_of_pos, List.flatMap_cons] at further ⊢
      rw [together, List.append_assoc, further]

/-- What starts at the position belongs to the default slot. -/
def Stays (nodes : List Node) (position : Nat) : Prop :=
  ∃ node ∈ nodes, node.slot?.isNone ∧ node.span.start ≤ position ∧ position < node.span.stop

instance (nodes : List Node) (position : Nat) : Decidable (Stays nodes position) :=
  inferInstanceAs (Decidable (∃ node ∈ nodes, _))

theorem stays_cons {node : Node} {nodes : List Node} {position : Nat} :
    Stays (node :: nodes) position ↔
      (node.slot?.isNone ∧ node.span.start ≤ position ∧ position < node.span.stop) ∨ Stays nodes position := by
  simp only [Stays, List.mem_cons, exists_eq_or_imp]

theorem stays_foldr {nodes : List Node} (fit : ∀ node ∈ nodes, node.span.Fits source) {position : Nat} :
    Stays (nodes.foldr Node.prepend []) position ↔ Stays nodes position := by
  induction nodes with
  | nil => exact Iff.rfl
  | cons node nodes ih =>
    obtain ⟨here, others⟩ := List.forall_mem_cons.1 fit
    have behind := foldr_fit others
    have further := ih others
    rw [List.foldr_cons]
    generalize nodes.foldr Node.prepend [] = joined at behind further
    rcases prepend_cases node joined with same | ⟨span, text, next, after, rest, rfl, rfl, touching, same⟩
    · rw [same, stays_cons, stays_cons, further]
    · have first := here.nonempty
      have second := (List.forall_mem_cons.1 behind).1.nonempty
      rw [same, stays_cons, stays_cons, ← further, stays_cons, ← or_assoc]
      refine or_congr ?_ Iff.rfl
      simp only [Node.slot?, Node.span, Option.isNone_none, true_and] at first second ⊢
      omega

end Joints

/-- Pieces with the positions they start at. -/
def placed : Nat → List (List Char × Piece) → List (Nat × List Char × Piece)
  | _, [] => []
  | position, piece :: row => (position, piece) :: placed (position + byteLength piece.1) row

/-- The pieces of a body that stay in the default slot. -/
def staying (body : String) : List (List Char × Piece) :=
  ((placed 0 (pieces false body.toList)).filter fun (position, _) => Stays (read body).1 position).map Prod.snd

theorem placed_append (position : Nat) (first second : List (List Char × Piece)) :
    placed position (first ++ second) = placed position first ++ placed (position + width first) second := by
  induction first generalizing position with
  | nil => rfl
  | cons piece first ih => rw [List.cons_append, placed, ih, placed, width_cons, List.cons_append, Nat.add_assoc]

theorem placed_bounds {position : Nat} {row : List (List Char × Piece)}
    (genuine : ∀ piece ∈ row, Piece.Written piece.1 piece.2) :
    ∀ piece ∈ placed position row, position ≤ piece.1 ∧ piece.1 < position + width row := by
  induction row generalizing position with
  | nil => exact List.forall_mem_nil _
  | cons piece row ih =>
    obtain ⟨here, others⟩ := List.forall_mem_cons.1 genuine
    have some := byteLength_pos here.nonempty
    rw [placed, width_cons]
    refine List.forall_mem_cons.2 ⟨?_, fun later mem => ?_⟩
    · dsimp only
      omega
    · have := ih others later mem
      omega

theorem placed_map (position : Nat) (row : List (List Char × Piece)) : (placed position row).map Prod.snd = row := by
  induction row generalizing position with
  | nil => rfl
  | cons piece row ih => rw [placed, List.map_cons, ih]

namespace Part

theorem nodesFrom_start (position : Nat) (parts : List Part) :
    ∀ node ∈ nodesFrom position parts, position ≤ node.span.start := by
  induction parts generalizing position with
  | nil => exact List.forall_mem_nil _
  | cons part parts ih =>
    simp only [nodesFrom]
    refine List.forall_mem_cons.2 ⟨?_, fun node mem => ?_⟩
    · simp only [Node.moved_span, Span.moved]
      omega
    · have := ih _ node mem
      omega

theorem stays_from {position start : Nat} {parts : List Part} (stays : Stays (nodesFrom position parts) start) :
    position ≤ start := by
  obtain ⟨node, mem, -, within, -⟩ := stays
  exact Nat.le_trans (nodesFrom_start position parts node mem) within

theorem staying_parts (position : Nat) {parts : List Part} (sound : ∀ part ∈ parts, part.Sound)
    {gap : List (List Char × Piece)} (genuine : ∀ piece ∈ gap, Piece.Written piece.1 piece.2) :
    ((placed position (rows parts ++ gap)).filter fun (start, _) => Stays (nodesFrom position parts) start).map Prod.snd =
      rows (kept parts) := by
  induction parts generalizing position with
  | nil =>
    rw [List.filter_eq_nil_iff.2]
    · rfl
    · simp [Stays, nodesFrom]
  | cons part parts ih =>
    obtain ⟨here, others⟩ := List.forall_mem_cons.1 sound
    obtain ⟨before, within⟩ := List.forall_mem_append.1 here.genuine
    have start : (part.node.moved (position + width part.gap)).span.start = position + width part.gap := by
      rw [Node.moved_span, here.span]
      rfl
    have stop : (part.node.moved (position + width part.gap)).span.stop = position + width part.gap + width part.row := by
      rw [Node.moved_span, here.span]
      rfl
    -- In front of the node there is nothing that stays.
    have front : (placed position part.gap).filter (fun piece => Stays (nodesFrom position (part :: parts)) piece.1) =
        [] := by
      refine List.filter_eq_nil_iff.2 fun piece mem => ?_
      have bounds := placed_bounds before piece mem
      rw [decide_eq_true_iff]
      intro stays
      simp only [nodesFrom] at stays
      rcases stays_cons.1 stays with ⟨-, behind, -⟩ | later
      · rw [start] at behind
        omega
      · have := stays_from later
        omega
    have back : (placed (position + width part.gap + width part.row) (rows parts ++ gap)).filter
        (fun piece => Stays (nodesFrom position (part :: parts)) piece.1) =
        (placed (position + width part.gap + width part.row) (rows parts ++ gap)).filter
          (fun piece => Stays (nodesFrom (position + width part.gap + width part.row) parts) piece.1) := by
      have all : ∀ piece ∈ rows parts ++ gap, Piece.Written piece.1 piece.2 :=
        List.forall_mem_append.2 ⟨fun piece mem => by
          obtain ⟨further, there, mem⟩ := List.mem_flatMap.1 mem
          exact (others further there).genuine piece mem, genuine⟩
      refine List.filter_congr fun piece mem => decide_eq_decide.2 ?_
      have bounds := placed_bounds all piece mem
      simp only [nodesFrom]
      rw [stays_cons, stop]
      apply or_iff_right
      rintro ⟨-, -, before⟩
      omega
    have middle : ((placed (position + width part.gap) part.row).filter
        (fun piece => Stays (nodesFrom position (part :: parts)) piece.1)).map Prod.snd =
        if part.node.slot?.isNone then part.row else [] := by
      split
      next left =>
        rw [List.filter_eq_self.2, placed_map]
        intro piece mem
        have bounds := placed_bounds within piece mem
        refine decide_eq_true ?_
        simp only [nodesFrom]
        rw [stays_cons, start, stop, Node.moved_slot?]
        exact .inl ⟨left, bounds.1, bounds.2⟩
      next slot =>
        rw [List.filter_eq_nil_iff.2]
        · rfl
        intro piece mem
        have bounds := placed_bounds within piece mem
        rw [decide_eq_true_iff]
        intro stays
        simp only [nodesFrom] at stays
        rcases stays_cons.1 stays with ⟨left, -⟩ | later
        · rw [Node.moved_slot?] at left
          exact slot left
        · have := stays_from later
          omega
    have split : rows (part :: parts) ++ gap = part.gap ++ (part.row ++ (rows parts ++ gap)) := by simp [rows]
    rw [split, placed_append, placed_append, List.filter_append, List.filter_append, front, back, List.nil_append,
      List.map_append, middle, ih _ others, kept]
    split
    · simp [rows]
    · rfl

theorem slices_parts {source before after : List Char} {parts : List Part} (sound : ∀ part ∈ parts, part.Sound)
    (split : source = before ++ ((rows parts).flatMap Prod.fst ++ after)) :
    defaultSlot source (nodesFrom (byteLength before) parts) = String.ofList ((rows (kept parts)).flatMap Prod.fst) := by
  unfold defaultSlot
  congr 1
  induction parts generalizing before with
  | nil => rfl
  | cons part parts ih =>
    obtain ⟨here, others⟩ := List.forall_mem_cons.1 sound
    obtain ⟨front, whole, split, start, stop⟩ := split_first split
    have further := ih others split
    have between := slice_between front part.text ((rows parts).flatMap Prod.fst ++ after)
    rw [← whole] at between
    have place : (part.node.moved (byteLength front)).span = ⟨byteLength front, byteLength front + byteLength part.text⟩ := by
      rw [Node.moved_span, here.span]
      rfl
    simp only [nodesFrom, kept]
    rw [start, stop]
    split
    next left =>
      rw [List.filter_cons_of_pos (by rwa [Node.moved_slot?]), List.flatMap_cons, further, place, between]
      simp [rows, text]
    next slot => rw [List.filter_cons_of_neg (by rwa [Node.moved_slot?]), further]

end Part

/-- The node without its place. -/
def Node.bare : Node → Node := Node.respan fun _ => ⟨0, 0⟩

theorem Node.bare_moved (distance : Nat) (node : Node) : (node.moved distance).bare = node.bare := by
  rw [bare, moved, respan_respan]
  rfl

/-- The nodes without their places, with texts that follow each other joined. -/
def joined (nodes : List Node) : List Node := (nodes.map Node.bare).foldr Node.prepend []

theorem joined_cons (node : Node) (nodes : List Node) : joined (node :: nodes) = node.bare.prepend (joined nodes) := rfl

theorem joined_foldr {chosen : Node → Bool} (texts : ∀ span text, chosen (.text span text) = true) (nodes : List Node) :
    joined ((nodes.foldr Node.prepend []).filter chosen) = joined (nodes.filter chosen) := by
  induction nodes with
  | nil => rfl
  | cons node nodes ih =>
    rw [List.foldr_cons]
    generalize nodes.foldr Node.prepend [] = all at ih
    rcases prepend_cases node all with same | ⟨span, text, next, after, rest, rfl, rfl, touching, same⟩
    · rw [same, List.filter_cons, List.filter_cons]
      split
      · rw [joined_cons, joined_cons, ih]
      · exact ih
    · rw [List.filter_cons_of_pos (texts _ _), joined_cons] at ih
      rw [same, List.filter_cons_of_pos (texts _ _), List.filter_cons_of_pos (texts _ _), joined_cons, joined_cons, ← ih]
      exact @prepend_joined ⟨0, 0⟩ ⟨0, 0⟩ rfl text after (joined (rest.filter chosen))

theorem Part.joined_kept (position position' : Nat) (parts : List Part) :
    joined (nodesFrom position' (kept parts)) =
      joined ((nodesFrom position parts).filter fun node => node.slot?.isNone) := by
  induction parts generalizing position position' with
  | nil => rfl
  | cons part parts ih =>
    simp only [nodesFrom, kept]
    split
    next left =>
      rw [List.filter_cons_of_pos (by rwa [Node.moved_slot?]), joined_cons]
      simp only [nodesFrom]
      rw [joined_cons, ih, Node.bare_moved, Node.bare_moved]
    next slot =>
      rw [List.filter_cons_of_neg (by rwa [Node.moved_slot?])]
      exact ih _ _

/-- The pieces of the default slot are those of the body that stay: none is made, lost or changed where they
meet. -/
def Seamless (body : String) : Prop :=
  pieces false (defaultSlot body.toList (read body).1).toList = staying body

/-- Read again, the default slot of a body means what the body meant without its slots. -/
theorem joined_defaultSlot {body : String} (seamless : Seamless body) :
    joined (read (defaultSlot body.toList (read body).1)).1 =
      joined ((read body).1.filter fun node => node.slot?.isNone) := by
  have genuine := pieces_written false body.toList
  have row := pieces_flatten false body.toList
  obtain ⟨parts, gap, split, comments, tokens, sound, separate⟩ :=
    @Part.parts_of_laid body.toList [] (tokenize body) _ row.symm (laid_tokenize body) genuine
  rw [split] at genuine row
  have whole : body.toList = [] ++ ((Part.rows parts).flatMap Prod.fst ++ gap.flatMap Prod.fst) := by
    rw [List.nil_append, ← List.flatMap_append, row]
  have nodes : (read body).1 = (Part.nodesFrom 0 parts).foldr Node.prepend [] := by
    rw [read_eq_scanBody]
    exact tokens ▸ Part.nodes_of_separate sound whole separate
  have fit := Part.nodesFrom_fit sound whole
  have text : defaultSlot body.toList (read body).1 = String.ofList ((Part.rows (Part.kept parts)).flatMap Prod.fst) := by
    rw [nodes]
    exact (defaultSlot_foldr fit).trans (Part.slices_parts sound whole)
  have stay : staying body = Part.rows (Part.kept parts) := by
    rw [staying, split, ← Part.staying_parts 0 sound (List.forall_mem_append.1 genuine).2]
    refine congrArg (List.map Prod.snd) (List.filter_congr fun piece mem => decide_eq_decide.2 ?_)
    rw [nodes]
    exact stays_foldr fit
  have genuine' : ∀ piece ∈ Part.rows (Part.kept parts), Piece.Written piece.1 piece.2 := by
    intro piece mem
    obtain ⟨part, there, mem⟩ := List.mem_flatMap.1 mem
    exact (Part.sound_kept sound part there).genuine piece mem
  have parted : Parted (tokenize (defaultSlot body.toList (read body).1)) (Part.tokensFrom 0 (Part.kept parts)) := by
    rw [tokenize_eq_assemble, seamless, stay]
    exact (Part.laid (Part.sound_kept sound) 0).parted genuine'
  have again := @Part.nodes_of_separate ((Part.rows (Part.kept parts)).flatMap Prod.fst) [] [] _ (Part.sound_kept sound)
    (by simp) (Part.separate_kept sound whole separate 0)
  have both : (read (defaultSlot body.toList (read body).1)).1 =
      (Part.nodesFrom 0 (Part.kept parts)).foldr Node.prepend [] := by
    rw [read_eq_scanBody]
    exact (nodes_parted [] parted).trans (by rw [text, String.toList_ofList]; exact again)
  have every := @joined_foldr (fun _ => true) (fun _ _ => rfl) (Part.nodesFrom 0 (Part.kept parts))
  rw [List.filter_eq_self.2 fun _ _ => rfl, List.filter_eq_self.2 fun _ _ => rfl] at every
  rw [both, every, nodes, joined_foldr fun _ _ => rfl]
  exact Part.joined_kept 0 0 parts

/-- A component that is made at some place in a source, with any record that there may be by then: its default
slot, the text of its body and what is found in that. -/
inductive Filled (source : String) : String → String → List Node → Prop where
  | intro {before rest : List Lexeme} {raw : Option String} {opened span : Span} {unclosed : List Nat}
      {block : Block rest.length} {ending : Ending rest.length} {args defaultSlot : String} {slots : List Slot}
      (place : tokenize source = before ++ ⟨.directive "component" raw, opened⟩ :: rest)
      (sound : Sound source.toList (tokenize source) unclosed)
      (closed : (readBlock source.toList .component (raw.getD "") opened rest unclosed).block = some block)
      (node : block.node = .component span args defaultSlot slots)
      (ended : (readBody source.toList Opener.component.stops rest unclosed).ending = some ending) :
      Filled source defaultSlot (String.ofList (slice source.toList ⟨opened.stop, ending.span.start⟩))
        (readBody source.toList Opener.component.stops rest unclosed).nodes

/-- The default slot and the nodes of a body are those of the text of the body, further on in the source. -/
theorem Filled.alone {source default body : String} {nodes : List Node} (filled : Filled source default body nodes) :
    default = defaultSlot body.toList (read body).1 ∧ ∃ distance, nodes = (read body).1.map (Node.moved distance) := by
  cases filled with
  | @intro before rest raw opened span unclosed block ending args defaultSlot slots place sound closed node ended =>
    have inside : rest <:+ tokenize source := by
      rw [place]
      exact (List.suffix_cons _ _).trans (List.suffix_append _ _)
    have same := (readBody_forget Opener.component.stops rest unclosed inside sound).1
    have stopped : (scanBody source.toList Opener.component.stops rest).ending = some ending := same ▸ ended
    have nodes : (readBody source.toList Opener.component.stops rest unclosed).nodes = _ := congrArg Scan.nodes same
    have tried := (readBlock_forget "component" raw opened rest .component unclosed (place ▸ List.suffix_append _ _) rfl
      sound).1
    rw [closed, scanBlock_of_ending (by decide) stopped] at tried
    cases tried
    cases node
    obtain ⟨front, text, back, split, starts, between, reread⟩ := reread_between place (Scan.parts_of_ending stopped)
    have bounded : ∀ node ∈ (read (String.ofList text)).1,
        Boundary (String.ofList text).toList node.span.start ∧ Boundary (String.ofList text).toList node.span.stop := by
      rw [read_eq_scanBody]
      exact nodes_bounded (tokenize_bounded _)
    rw [String.toList_ofList] at bounded
    have moved := defaultSlot_moved front back bounded
    rw [← split, starts, reread.nodes] at moved
    rw [between, nodes, String.toList_ofList]
    exact ⟨moved, opened.stop, reread.nodes.symm⟩

theorem Filled.of_scan {source : String} {before rest further : List Lexeme} {raw : Option String} {opened closed : Span}
    {nodes : List Node} {problems : List Diagnostic} {closer : Closer} {ignored : String}
    (place : tokenize source = before ++ ⟨.directive "component" raw, opened⟩ :: rest)
    (found : (scanBody source.toList Opener.component.stops rest).parts =
      (nodes, problems, some (closer, ignored, closed, further))) :
    Filled source (defaultSlot source.toList nodes) (String.ofList (slice source.toList ⟨opened.stop, closed.start⟩))
      nodes := by
  have within : rest <:+ tokenize source := by
    rw [place]
    exact (List.suffix_cons _ _).trans (List.suffix_append _ _)
  have same := (@readBody_forget source.toList _ Opener.component.stops rest [] within Sound.empty).1
  have tried := (@readBlock_forget source.toList _ "component" raw opened rest .component []
    (place ▸ List.suffix_append _ _) rfl Sound.empty).1
  obtain ⟨ending, ended, stopped⟩ := Option.map_eq_some_iff.1 (congrArg (fun parts => parts.2.2) found)
  cases stopped
  rw [scanBlock_of_ending (by decide) ended] at tried
  have read : (readBody source.toList Opener.component.stops rest []).nodes = nodes :=
    (congrArg Scan.nodes same).trans (congrArg Prod.fst found)
  have filled := Filled.intro place Sound.empty tried rfl ((congrArg Scan.ending same).trans ended)
  rw [read] at filled
  have nodes : (scanBody source.toList Opener.component.stops rest).nodes = nodes := congrArg Prod.fst found
  rw [nodes] at filled
  exact filled

/-- Every default slot of a tree was made from a body. Read again each gives what the body gave without its slots, if
no piece is made, lost or changed where the parts of it meet. -/
structure DefaultSlotsKept (source : String) : Prop where
  filled : ∀ span args defaultSlot slots, Inside (read source).1 (.component span args defaultSlot slots) →
    ∃ body nodes, Filled source defaultSlot body nodes
  reread : ∀ defaultSlot body nodes, Filled source defaultSlot body nodes → Seamless body →
    joined (read defaultSlot).1 = joined (nodes.filter fun node => node.slot?.isNone)

theorem joined_moved (distance : Nat) (nodes : List Node) :
    joined ((nodes.map (Node.moved distance)).filter fun node => node.slot?.isNone) =
      joined (nodes.filter fun node => node.slot?.isNone) := by
  induction nodes with
  | nil => rfl
  | cons node nodes ih =>
    rw [List.map_cons, List.filter_cons, List.filter_cons, Node.moved_slot?]
    split
    · rw [joined_cons, joined_cons, ih, Node.bare_moved]
    · exact ih

theorem default_slots_mean_the_same (source : String) : DefaultSlotsKept source where
  filled span args defaultSlot slots inside := by
    rw [read_eq_scanBody] at inside
    obtain ⟨raw, opened, rest, closer, ignored, closed, further, ⟨before, place⟩, stopped, same⟩ :=
      (body_made [] (tokenize source) (component_whole _ _ _ _) inside).of_component
    rcases found : (scanBody source.toList Opener.component.stops rest).parts with ⟨nodes, problems, stop⟩
    rw [found] at stopped same
    cases stopped
    cases same
    exact ⟨_, _, Filled.of_scan place.symm found⟩
  reread defaultSlot body nodes filled seamless := by
    obtain ⟨rfl, distance, rfl⟩ := filled.alone
    rw [joined_moved]
    exact joined_defaultSlot seamless

/-! Two components. In the first one the text of two nodes runs together, in the second one it does not. -/

namespace Joint

/-- A comment keeps a name from its arguments. -/
def glued : String := "@component(x)@a\x7b\x7b----\x7d\x7d()@endcomponent"

/-- A slot between two texts. -/
def smooth : String := "@component(x)a@slot(t)b@endslot c@endcomponent"

/-- The body of the second component. -/
def body : String := "a@slot(t)b@endslot c"

theorem tokenize_texts :
    tokenize glued = [⟨.directive "component" (some "x"), ⟨0, 13⟩⟩, ⟨.text "@a", ⟨13, 15⟩⟩, ⟨.text "()", ⟨23, 25⟩⟩,
      ⟨.directive "endcomponent" none, ⟨25, 38⟩⟩] ∧
    tokenize "@a()" = [⟨.directive "a" (some ""), ⟨0, 4⟩⟩] ∧
    tokenize smooth =
      [⟨.directive "component" (some "x"), ⟨0, 13⟩⟩, ⟨.text "a", ⟨13, 14⟩⟩, ⟨.directive "slot" (some "t"), ⟨14, 22⟩⟩,
        ⟨.text "b", ⟨22, 23⟩⟩, ⟨.directive "endslot" none, ⟨23, 31⟩⟩, ⟨.text " c", ⟨31, 33⟩⟩,
        ⟨.directive "endcomponent" none, ⟨33, 46⟩⟩] ∧
    tokenize body = [⟨.text "a", ⟨0, 1⟩⟩, ⟨.directive "slot" (some "t"), ⟨1, 9⟩⟩, ⟨.text "b", ⟨9, 10⟩⟩,
      ⟨.directive "endslot" none, ⟨10, 18⟩⟩, ⟨.text " c", ⟨18, 20⟩⟩] := by
  decide +kernel

/-- Without the comment they are a directive. -/
theorem glued_makes_directive : ∃ defaultSlot body nodes, Filled glued defaultSlot body nodes ∧
    joined (read defaultSlot).1 ≠ joined (nodes.filter fun node => node.slot?.isNone) := by
  have place : tokenize glued = [] ++ _ := tokenize_texts.1
  have items : Items glued.toList [⟨.text "@a", ⟨13, 15⟩⟩, ⟨.text "()", ⟨23, 25⟩⟩]
      [.text ⟨13, 15⟩ "@a", .text ⟨23, 25⟩ "()"] := .text (by rintro _ _ _ ⟨⟩; decide) (.text nofun .nil)
  have ends := @scanBody_closer glued.toList Opener.component.stops .endComponent (by decide) none ⟨25, 38⟩ []
  have default : defaultSlot glued.toList [.text ⟨13, 15⟩ "@a", .text ⟨23, 25⟩ "()"] = "@a()" := by cbv
  have directive : Items "@a()".toList (tokenize "@a()") [.directive ⟨0, 4⟩ "a" (some "") "@a()"] := by
    rw [tokenize_texts.2.1]
    exact .leaf (.other (by rintro ⟨⟩ <;> decide) (by rintro ⟨⟩ <;> decide) (by decide)) .nil
  refine ⟨_, _, _, .of_scan place (scanBody_items items _ _ _ ends), ?_⟩
  rw [default, items_iff_read.1 directive]
  rintro ⟨⟩

theorem items_from {source : List Char} (start : Nat) :
    Items source [⟨.text "a", ⟨start, start + 1⟩⟩, ⟨.directive "slot" (some "t"), ⟨start + 1, start + 9⟩⟩,
        ⟨.text "b", ⟨start + 9, start + 10⟩⟩, ⟨.directive "endslot" none, ⟨start + 10, start + 18⟩⟩,
        ⟨.text " c", ⟨start + 18, start + 20⟩⟩]
      [.text ⟨start, start + 1⟩ "a",
        .slot ⟨start + 1, start + 18⟩ ⟨"t", String.ofList (slice source ⟨start + 9, start + 10⟩)⟩,
        .text ⟨start + 18, start + 20⟩ " c"] :=
  have within : Items source [⟨.text "b", ⟨start + 9, start + 10⟩⟩] [.text ⟨start + 9, start + 10⟩ "b"] := .text nofun .nil
  have behind : Items source [⟨.text " c", ⟨start + 18, start + 20⟩⟩] [.text ⟨start + 18, start + 20⟩ " c"] := .text nofun .nil
  .text nofun (.block .slot within behind)

theorem read_body : (read body).1 = [.text ⟨0, 1⟩ "a", .slot ⟨1, 18⟩ ⟨"t", "b"⟩, .text ⟨18, 20⟩ " c"] := by
  have items := @items_from body.toList 0
  have slot : String.ofList (slice body.toList ⟨9, 10⟩) = "b" := by cbv
  rw [items_iff_read.1 (tokenize_texts.2.2.2 ▸ items), ← slot]

theorem seamless_body : Seamless body := by
  rw [Seamless, staying, read_body]
  decide +kernel

theorem body_reads_again : ∃ defaultSlot nodes, Filled smooth defaultSlot body nodes ∧ Seamless body ∧
    joined (read defaultSlot).1 = joined (nodes.filter fun node => node.slot?.isNone) := by
  have place : tokenize smooth = [] ++ _ := tokenize_texts.2.2.1
  have ends := @scanBody_closer smooth.toList Opener.component.stops .endComponent (by decide) none ⟨33, 46⟩ []
  have filled := Filled.of_scan place (scanBody_items (items_from 13) _ _ _ ends)
  have between : String.ofList (slice smooth.toList ⟨13, 33⟩) = body := by cbv
  rw [between] at filled
  exact ⟨_, _, filled, seamless_body, (default_slots_mean_the_same smooth).reread _ _ _ filled seamless_body⟩

end Joint

end Stencil.Template
