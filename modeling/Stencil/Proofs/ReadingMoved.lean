import Stencil.Proofs.ReadingApart
import Stencil.Proofs.SourceCoverage

/-! Reading a part of a source where it stands. What is read there is what the part is read as by
itself, moved to where the part begins. -/

namespace Stencil.Text

/-- Further on in a source. -/
def Span.moved (distance : Nat) (span : Span) : Span := ⟨distance + span.start, distance + span.stop⟩

def Located.moved {α : Type} (distance : Nat) (located : Located α) : Located α :=
  ⟨located.value, located.span.moved distance⟩

end Stencil.Text

namespace Stencil
open Text

def Diagnostic.moved (distance : Nat) (diagnostic : Diagnostic) : Diagnostic :=
  { diagnostic with span := diagnostic.span.moved distance }

namespace Template

namespace Node

mutual
/-- The same node with other spans. -/
def respan (place : Span → Span) : Node → Node
  | .text span value => .text (place span) value
  | .echo span expression escape => .echo (place span) expression escape
  | .extension span args => .extension (place span) args
  | .sectionBlock span args body => .sectionBlock (place span) args (allRespan place body)
  | .sectionInline span args content => .sectionInline (place span) args content
  | .yield span args => .yield (place span) args
  | .conditional span branches none => .conditional (place span) (branchesRespan place branches) none
  | .conditional span branches (some body) =>
    .conditional (place span) (branchesRespan place branches) (some (allRespan place body))
  | .foreach span args body => .foreach (place span) args (allRespan place body)
  | .counting span args body => .counting (place span) args (allRespan place body)
  | .inclusion span args => .inclusion (place span) args
  | .component span args defaultSlot slots => .component (place span) args defaultSlot slots
  | .slot span content => .slot (place span) content
  | .directive span name args raw => .directive (place span) name args raw

def allRespan (place : Span → Span) : List Node → List Node
  | [] => []
  | node :: rest => node.respan place :: allRespan place rest

def branchesRespan (place : Span → Span) : List (String × List Node) → List (String × List Node)
  | [] => []
  | (condition, body) :: branches => (condition, allRespan place body) :: branchesRespan place branches
end

section Respan
variable (place : Span → Span)

theorem allRespan_eq_map (nodes : List Node) : allRespan place nodes = nodes.map (respan place) := by
  induction nodes with
  | nil => rfl
  | cons node nodes ih => rw [allRespan, ih, List.map_cons]

theorem branchesRespan_eq_map (branches : List (String × List Node)) :
    branchesRespan place branches = branches.map fun (condition, body) => (condition, body.map (respan place)) := by
  induction branches with
  | nil => rfl
  | cons branch branches ih =>
    obtain ⟨condition, body⟩ := branch
    rw [branchesRespan, ih, List.map_cons, allRespan_eq_map]

theorem respan_conditional (span : Span) (branches : List (String × List Node)) (otherwise : Option (List Node)) :
    respan place (.conditional span branches otherwise) = .conditional (place span)
      (branches.map fun (condition, body) => (condition, body.map (respan place)))
      (otherwise.map fun body => body.map (respan place)) := by
  cases otherwise <;> simp [respan, branchesRespan_eq_map, allRespan_eq_map]

mutual
/-- Only the last spans count. -/
theorem respan_respan (further : Span → Span) (node : Node) :
    (node.respan place).respan further = node.respan (further ∘ place) := by
  match node with
  | .sectionBlock span args body | .foreach span args body | .counting span args body =>
    simp only [respan, allRespan_allRespan further body]
    rfl
  | .conditional span branches none =>
    simp only [respan, branchesRespan_branchesRespan further branches]
    rfl
  | .conditional span branches (some body) =>
    simp only [respan, branchesRespan_branchesRespan further branches, allRespan_allRespan further body]
    rfl
  | .text .. | .echo .. | .extension .. | .sectionInline .. | .yield .. | .inclusion .. | .component .. | .slot ..
  | .directive .. => rfl

theorem allRespan_allRespan (further : Span → Span) (nodes : List Node) :
    allRespan further (allRespan place nodes) = allRespan (further ∘ place) nodes := by
  match nodes with
  | [] => rfl
  | node :: rest => simp only [allRespan, respan_respan further node, allRespan_allRespan further rest]

theorem branchesRespan_branchesRespan (further : Span → Span) (branches : List (String × List Node)) :
    branchesRespan further (branchesRespan place branches) = branchesRespan (further ∘ place) branches := by
  match branches with
  | [] => rfl
  | (condition, body) :: rest =>
    simp only [branchesRespan, allRespan_allRespan further body, branchesRespan_branchesRespan further rest]
end

@[simp] theorem respan_span (node : Node) : (node.respan place).span = place node.span := by
  cases node with
  | conditional span branches otherwise => cases otherwise <;> rfl
  | _ => rfl

@[simp] theorem respan_slot? (node : Node) : (node.respan place).slot? = node.slot? := by
  cases node with
  | conditional span branches otherwise => cases otherwise <;> rfl
  | _ => rfl

end Respan

/-- The node of the same text further on in a source. -/
def moved (distance : Nat) : Node → Node := respan (Span.moved distance)

variable (distance : Nat)

@[simp] theorem moved_span (node : Node) : (node.moved distance).span = node.span.moved distance :=
  respan_span _ node

@[simp] theorem moved_slot? (node : Node) : (node.moved distance).slot? = node.slot? := respan_slot? _ node

theorem moved_prepend (node : Node) (nodes : List Node) :
    (node.prepend nodes).map (moved distance) = (node.moved distance).prepend (nodes.map (moved distance)) := by
  cases node with
  | text span value =>
    rcases nodes with _ | ⟨next, others⟩
    · rfl
    · cases next with
      | text later after =>
        by_cases touching : span.stop = later.start <;> simp [prepend, moved, respan, Span.moved, touching]
      | conditional later branches otherwise => cases otherwise <;> rfl
      | _ => rfl
  | conditional span branches otherwise => cases otherwise <;> rfl
  | _ => rfl

end Node

theorem standaloneNode_moved (distance : Nat) (span : Span) (name : String) (args : Option String) (raw : String) :
    standaloneNode (span.moved distance) name args raw = (standaloneNode span name args raw).moved distance := by
  unfold standaloneNode
  dsimp only
  split
  · rfl
  split
  · rfl
  split
  · rfl
  split
  · split <;> rfl
  · rfl

/-- Every token begins and ends between characters of the source. -/
def Bounded (source : List Char) (tokens : List Lexeme) : Prop :=
  ∀ lexeme ∈ tokens, Boundary source lexeme.span.start ∧ Boundary source lexeme.span.stop

theorem Bounded.suffix {source : List Char} {tokens tokens' : List Lexeme} (bounded : Bounded source tokens)
    (suffix : tokens' <:+ tokens) : Bounded source tokens' :=
  fun lexeme mem => bounded lexeme (suffix.mem mem)

variable {source : List Char} (before after : List Char)

theorem slice_moved {span : Span} (starts : Boundary source span.start) (stops : Boundary source span.stop) :
    slice (before ++ (source ++ after)) (span.moved (byteLength before)) = slice source span :=
  slice_inside before after starts stops.le

theorem literally_moved {span : Span} (starts : Boundary source span.start) (stops : Boundary source span.stop) :
    literally (before ++ (source ++ after)) (span.moved (byteLength before)) =
      (literally source span).moved (byteLength before) := by
  rw [literally, slice_moved before after starts stops]
  rfl

theorem defaultSlot_moved {nodes : List Node}
    (bounded : ∀ node ∈ nodes, Boundary source node.span.start ∧ Boundary source node.span.stop) :
    defaultSlot (before ++ (source ++ after)) (nodes.map (Node.moved (byteLength before))) = defaultSlot source nodes := by
  unfold defaultSlot
  congr 1
  induction nodes with
  | nil => rfl
  | cons node nodes ih =>
    obtain ⟨⟨starts, stops⟩, others⟩ := List.forall_mem_cons.1 bounded
    rw [List.map_cons]
    cases alone : node.slot?.isNone with
    | true =>
      rw [List.filter_cons_of_pos (by simpa using alone), List.filter_cons_of_pos (by simpa using alone), List.flatMap_cons,
        List.flatMap_cons, ih others, Node.moved_span, slice_moved before after starts stops]
    | false =>
      rw [List.filter_cons_of_neg (by rw [Node.moved_slot?, alone]; nofun), List.filter_cons_of_neg (by rw [alone]; nofun),
        ih others]

theorem blockNode_moved (opener : Opener) (args : String) {opened closed : Span} {nodes : List Node}
    (starts : Boundary source opened.stop) (stops : Boundary source closed.start)
    (bounded : ∀ node ∈ nodes, Boundary source node.span.start ∧ Boundary source node.span.stop) :
    blockNode (before ++ (source ++ after)) opener args (opened.moved (byteLength before))
        (closed.moved (byteLength before)) (nodes.map (Node.moved (byteLength before))) =
      (blockNode source opener args opened closed nodes).moved (byteLength before) := by
  cases opener with
  | sectionBlock | foreach | counting => simp [blockNode, Node.moved, Node.respan, Node.allRespan_eq_map, Span.moved]
  | conditional => simp [blockNode, Node.moved, Node.respan_conditional, Span.moved]
  | slot =>
    have inside := @slice_moved source before after ⟨opened.stop, closed.start⟩ starts stops
    simp only [blockNode, Node.moved, Node.respan]
    rw [← inside]
    rfl
  | component =>
    have slots : (nodes.map (Node.moved (byteLength before))).filterMap Node.slot? = nodes.filterMap Node.slot? := by
      simp [List.filterMap_map]
    simp only [blockNode]
    rw [slots, defaultSlot_moved before after bounded]
    rfl

theorem nodes_bounded {stops : List Closer} {tokens : List Lexeme} (bounded : Bounded source tokens) :
    ∀ node ∈ (scanBody source stops tokens).parts.1,
      Boundary source node.span.start ∧ Boundary source node.span.stop := by
  intro node mem
  obtain ⟨inside, behind, rfl, outline, -, -⟩ := @outline_of_scanBody source stops tokens _ _ _ rfl
  obtain ⟨first, starts, last, stops, same⟩ := outline.gathered.ends node.span (List.mem_map_of_mem mem)
  obtain ⟨lexeme, there, rfl⟩ := List.mem_map.1 starts
  obtain ⟨lexeme', there', rfl⟩ := List.mem_map.1 stops
  rw [same]
  exact ⟨(bounded lexeme (List.mem_append_left _ there)).1, (bounded lexeme' (List.mem_append_left _ there')).2⟩

/-- What is read, moved. -/
def movedParts (distance : Nat) (parts : List Node × List Diagnostic × Option Stop) :
    List Node × List Diagnostic × Option Stop :=
  (parts.1.map (Node.moved distance), parts.2.1.map (Diagnostic.moved distance), parts.2.2.map fun (closer, args, span, rest) =>
    (closer, args, span.moved distance, rest.map (Located.moved distance)))

theorem movedParts_prepend (distance : Nat) (node : Node) (problems : List Diagnostic)
    (parts : List Node × List Diagnostic × Option Stop) :
    movedParts distance (node.prepend parts.1, problems ++ parts.2.1, parts.2.2) =
      ((node.moved distance).prepend (movedParts distance parts).1,
        problems.map (Diagnostic.moved distance) ++ (movedParts distance parts).2.1, (movedParts distance parts).2.2) := by
  simp [movedParts, Node.moved_prepend]

theorem first?_moved {stops : List Closer} {lexeme : Lexeme} {rest : List Lexeme}
    (starts : Boundary source lexeme.span.start) (ends : Boundary source lexeme.span.stop)
    (blocks : ∀ name args opener, lexeme.value = .directive name args → roleOf name (args.getD "") = .opener opener →
      (scanBlock (before ++ (source ++ after)) opener (args.getD "") (lexeme.span.moved (byteLength before))
        (rest.map (Located.moved (byteLength before)))).map Block.parts =
        ((scanBlock source opener (args.getD "") lexeme.span rest).map Block.parts).map fun (node, problems, further) =>
          (node.moved (byteLength before), problems.map (Diagnostic.moved (byteLength before)),
            further.map (Located.moved (byteLength before)))) :
    first? (before ++ (source ++ after)) stops (lexeme.moved (byteLength before))
        (rest.map (Located.moved (byteLength before))) =
      (first? source stops lexeme rest).map fun (node, problems, further) =>
        (node.moved (byteLength before), problems.map (Diagnostic.moved (byteLength before)),
          further.map (Located.moved (byteLength before))) := by
  match lexeme with
  | ⟨.text text, span⟩ | ⟨.echo expression raw, span⟩ => rfl
  | ⟨.directive name args, span⟩ =>
    have literal := literally_moved before after starts ends
    dsimp only [Located.moved] at blocks literal ⊢
    unfold first?
    dsimp only
    cases role : roleOf name (args.getD "") with
    | standalone =>
      dsimp only
      rw [slice_moved before after starts ends, standaloneNode_moved]
      rfl
    | closer closer =>
      dsimp only
      split
      · rfl
      · rw [literal]
        rfl
    | opener opener =>
      dsimp only
      rw [blocks name args opener rfl role, literal]
      cases scanBlock source opener (args.getD "") span rest <;> rfl

mutual
theorem scanBody_moved (stops : List Closer) (tokens : List Lexeme) (bounded : Bounded source tokens) :
    (scanBody (before ++ (source ++ after)) stops (tokens.map (Located.moved (byteLength before)))).parts =
      movedParts (byteLength before) (scanBody source stops tokens).parts := by
  match tokens with
  | [] =>
    rw [List.map_nil, scanBody, scanBody]
    rfl
  | ⟨token, span⟩ :: rest =>
    have inner := bounded.suffix (List.suffix_cons _ rest)
    obtain ⟨starts, finish⟩ := bounded ⟨token, span⟩ List.mem_cons_self
    have same := @first?_moved source before after stops _ rest starts finish fun name args opener _ _ =>
      scanBlock_moved opener (args.getD "") finish rest inner
    rw [List.map_cons]
    cases found : first? source stops ⟨token, span⟩ rest with
    | none =>
      obtain ⟨closer, args, ends, rfl⟩ := first?_none found
      rw [scanBody_closer stops ends, Located.moved, scanBody_closer stops ends]
      rfl
    | some first =>
      obtain ⟨node, problems, further⟩ := first
      have inside := first?_inside found
      have := inside.length_le
      have onwards := scanBody_moved stops further (inner.suffix inside)
      rw [found] at same
      rw [scanBody_first found, scanBody_first same, onwards, movedParts_prepend]
termination_by (tokens.length, 0)

theorem scanBlock_moved (opener : Opener) (args : String) {start : Span} (starts : Boundary source start.stop)
    (tokens : List Lexeme) (bounded : Bounded source tokens) :
    (scanBlock (before ++ (source ++ after)) opener args (start.moved (byteLength before))
        (tokens.map (Located.moved (byteLength before)))).map Block.parts =
      ((scanBlock source opener args start tokens).map Block.parts).map fun (node, problems, rest) =>
        (node.moved (byteLength before), problems.map (Diagnostic.moved (byteLength before)),
          rest.map (Located.moved (byteLength before))) := by
  by_cases conditional : opener = .conditional
  · subst conditional
    rw [scanBlock_conditional, scanBlock_conditional, scanBranches_moved args tokens bounded]
    rcases (scanBranches source args tokens).map Branches.parts with _ | ⟨branches, otherwise, problems, stop, rest⟩
    · rfl
    · simp [Node.moved, Node.respan_conditional, Span.moved]
  · have nodes := @nodes_bounded source opener.stops tokens bounded
    rw [scanBlock_single conditional, scanBlock_single conditional, scanBody_moved opener.stops tokens bounded]
    rcases here : (scanBody source opener.stops tokens).parts with ⟨body, problems, _ | ⟨closer, ignored, closed, rest⟩⟩
    · rfl
    · obtain ⟨token, inside⟩ := stop_token (by rw [here])
      have ends := (bounded _ (inside.mem List.mem_cons_self)).1
      rw [here] at nodes
      simp only [movedParts, Option.map_some]
      rw [blockNode_moved before after opener args starts ends nodes]
termination_by (tokens.length, 2)

theorem scanBranches_moved (condition : String) (tokens : List Lexeme) (bounded : Bounded source tokens) :
    (scanBranches (before ++ (source ++ after)) condition
        (tokens.map (Located.moved (byteLength before)))).map Branches.parts =
      ((scanBranches source condition tokens).map Branches.parts).map fun (branches, otherwise, problems, stop, rest) =>
        (branches.map fun (condition, body) => (condition, body.map (Node.moved (byteLength before))),
          otherwise.map fun body => body.map (Node.moved (byteLength before)),
          problems.map (Diagnostic.moved (byteLength before)), byteLength before + stop,
          rest.map (Located.moved (byteLength before))) := by
  rw [scanBranches_parts, scanBranches_parts, scanBody_moved Opener.conditional.stops tokens bounded]
  rcases here : (scanBody source Opener.conditional.stops tokens).parts with ⟨body, problems, _ | ⟨closer, args, closed, rest⟩⟩
  · rfl
  · obtain ⟨inside, _⟩ := @stop_inside source Opener.conditional.stops tokens rest closer args closed (by rw [here])
    have later := bounded.suffix inside
    simp only [movedParts, Option.map_some, Option.bind_some]
    by_cases elseIf : closer = .elseIf
    · rw [if_pos elseIf, if_pos elseIf, scanBranches_moved args rest later]
      rcases (scanBranches source args rest).map Branches.parts with _ | ⟨branches, otherwise, more, stop, last⟩
      · rfl
      · simp
    by_cases otherwise : closer = .otherwise
    · rw [if_neg elseIf, if_neg elseIf, if_pos otherwise, if_pos otherwise, scanBody_moved [.endIf] rest later]
      rcases (scanBody source [.endIf] rest).parts with ⟨other, more, _ | ⟨closer, ignored, closed, last⟩⟩
      · rfl
      · simp [movedParts, Span.moved]
    · rw [if_neg elseIf, if_neg elseIf, if_neg otherwise, if_neg otherwise]
      simp [Span.moved]
termination_by (tokens.length, 1)
end

end Template
end Stencil
