import Stencil.Proofs.SourceCharacters

/-! Every directive that can open, divide or close a block either does so for one block or is kept as text and reported.
However often a token was looked at in blocks that came to nothing, it is accounted for once, and the reports stand in
the order of the source. -/

namespace Stencil.Text

theorem infix_of_within {source : List Char} {inner outer : Span} (fits : inner.Fits source) (fits' : outer.Fits source)
    (within : inner.Within outer) : slice source inner <:+: slice source outer := by
  obtain ⟨before, written, after, rfl, -, rfl⟩ := fits'
  obtain ⟨before', written', after', same, -, rfl⟩ := fits
  obtain ⟨starts, stops⟩ := within
  obtain ⟨front, rfl, rest⟩ := split_at_byteLength same starts
  rw [← List.append_assoc] at rest
  have shorter : byteLength (front ++ written') ≤ byteLength written := by
    simp only [byteLength_append] at stops ⊢
    omega
  obtain ⟨back, rfl, -⟩ := split_at_byteLength rest.symm shorter
  rw [slice_between, same, slice_between]
  exact List.infix_append front written' back

end Stencil.Text

namespace Stencil.Template
open Text

def Token.isStructural (token : Token) : Bool := decide (token.role ≠ .standalone)

/-- What follows the opener of a block: separators, for a conditional, and the closer. -/
inductive Opener.Ends : Opener → List Closer → Prop where
  | single {opener : Opener} (single : opener ≠ .conditional) : Ends opener opener.stops
  | endIf : Ends .conditional [.endIf]
  | otherwise : Ends .conditional [.otherwise, .endIf]
  | elseIf {closers : List Closer} (further : Ends .conditional closers) : Ends .conditional (.elseIf :: closers)

/-- The tokens do what the closers say. -/
def Closing (marks : List Lexeme) (closers : List Closer) : Prop :=
  marks.map (fun lexeme => lexeme.value.role) = closers.map .closer

theorem Closing.cons {lexeme : Lexeme} {marks : List Lexeme} {closer : Closer} {closers : List Closer}
    (behind : Closing marks closers) (role : lexeme.value.role = .closer closer) :
    Closing (lexeme :: marks) (closer :: closers) := by
  unfold Closing at behind ⊢
  rw [List.map_cons, List.map_cons, role, behind]

/-- The marks of one block. -/
inductive Matched : List Lexeme → Prop where
  | marks {opener : Opener} {closers : List Closer} {opening : Lexeme} {marks : List Lexeme}
      (opens : opening.value.role = .opener opener) (ends : opener.Ends closers) (closing : Closing marks closers) :
      Matched (opening :: marks)

theorem Opener.stops_of_mem {opener : Opener} {closer : Closer} (single : opener ≠ .conditional)
    (mem : closer ∈ opener.stops) : opener.stops = [closer] := by
  cases opener with
  | conditional => exact absurd rfl single
  | sectionBlock | foreach | counting | slot | component => rw [List.mem_singleton.1 mem]; rfl

variable {source : List Char}

theorem Leaf.role {span : Span} {token : Token} {node : Node} (leaf : Leaf source span token node) :
    token.role = .standalone := by
  cases token with
  | text | echo => rfl
  | directive name args => exact leaf.standalone.1

theorem Encloses.matched {opened closed : Span} {args ignored : Option String} {body : List Node}
    {opens closes : String} {node : Node}
    (encloses : Encloses source opened closed (args.getD "") body opens closes node) :
    Matched [⟨.directive opens args, opened⟩, ⟨.directive closes ignored, closed⟩] := by
  obtain ⟨opener, closer, single, role, stops, rfl, _⟩ := encloses.blockNode
  have ends : opener.Ends [closer] := Opener.stops_of_mem single stops ▸ .single single
  exact .marks role ends (congrArg ([·]) (roleOf_closer closer _))

mutual
theorem Account.matched {tokens dangling : List Lexeme} {nodes : List Node} {blocks : List (List Lexeme)}
    (account : Account source tokens nodes blocks dangling) : ∀ block ∈ blocks, Matched block := by
  match account with
  | .nil => exact List.forall_mem_nil _
  | .text behind | .leaf _ behind | .literal _ behind => exact behind.matched
  | .block encloses within behind =>
    exact List.forall_mem_cons.2 ⟨encloses.matched, List.forall_mem_append.2 ⟨within.matched, behind.matched⟩⟩
  | .conditional branching behind =>
    obtain ⟨inside, closers, ends, closing⟩ := branching.matched
    exact List.forall_mem_cons.2 ⟨.marks rfl ends closing, List.forall_mem_append.2 ⟨inside, behind.matched⟩⟩

theorem Branching.matched {condition : String} {tokens marks dangling : List Lexeme}
    {branches : List (String × List Node)} {otherwise : Option (List Node)} {closed : Span}
    {blocks : List (List Lexeme)}
    (branching : Branching source condition tokens branches otherwise closed marks blocks dangling) :
    (∀ block ∈ blocks, Matched block) ∧ ∃ closers, Opener.conditional.Ends closers ∧ Closing marks closers := by
  match branching with
  | .last within => exact ⟨within.matched, _, .endIf, rfl⟩
  | .otherwise within ends =>
    exact ⟨List.forall_mem_append.2 ⟨within.matched, ends.matched⟩, _, .otherwise, rfl⟩
  | .elseIf within further =>
    obtain ⟨inside, closers, ends, closing⟩ := further.matched
    exact ⟨List.forall_mem_append.2 ⟨within.matched, inside⟩, _, .elseIf ends, closing.cons rfl⟩
end

/-- The tokens that do something for the blocks. -/
def structural (tokens : List Lexeme) : List Lexeme := tokens.filter fun lexeme => lexeme.value.isStructural

theorem structural_append (first second : List Lexeme) :
    structural (first ++ second) = structural first ++ structural second := List.filter_append ..

theorem structural_cons {lexeme : Lexeme} (mark : lexeme.value.isStructural = true) (tokens : List Lexeme) :
    structural (lexeme :: tokens) = lexeme :: structural tokens := List.filter_cons_of_pos mark

theorem structural_other {lexeme : Lexeme} (role : lexeme.value.role = .standalone) (tokens : List Lexeme) :
    structural (lexeme :: tokens) = structural tokens :=
  List.filter_cons_of_neg (by simp [Token.isStructural, role])

theorem Encloses.structural {opened closed : Span} {args : Option String} {body : List Node}
    {opens closes : String} {node : Node}
    (encloses : Encloses source opened closed (args.getD "") body opens closes node) :
    (Token.directive opens args).isStructural = true ∧
      ∀ ignored, (Token.directive closes ignored).isStructural = true := by
  obtain ⟨opener, closer, _, role, _, rfl, _⟩ := encloses.blockNode
  simp [Token.isStructural, Token.role, role, roleOf_closer]

section Shuffles
variable {marks blocks blocks' dangling dangling' tokens tokens' : List Lexeme}

/-- What has been accounted for, and what comes behind it. -/
theorem perm_beside (first : (blocks ++ dangling).Perm tokens) (behind : (blocks' ++ dangling').Perm tokens') :
    (blocks ++ blocks' ++ (dangling ++ dangling')).Perm (tokens ++ tokens') := by
  refine .trans ?_ (first.append behind)
  rw [List.append_assoc, List.append_assoc]
  exact (List.perm_append_comm_assoc blocks' dangling dangling').append_left blocks

theorem perm_divided (mark : Lexeme) (first : (blocks ++ dangling).Perm tokens)
    (behind : (marks ++ blocks' ++ dangling').Perm tokens') :
    (mark :: marks ++ (blocks ++ blocks') ++ (dangling ++ dangling')).Perm (tokens ++ mark :: tokens') := by
  refine .trans (.cons mark (.trans ?_ (perm_beside first behind))) List.perm_middle.symm
  exact (List.perm_append_comm_assoc marks blocks blocks').append_right _

theorem perm_last (mark : Lexeme) (within : (blocks ++ dangling).Perm tokens) :
    ([mark] ++ blocks ++ dangling).Perm (tokens ++ [mark]) :=
  (within.cons mark).trans (List.perm_append_singleton mark tokens).symm

end Shuffles

mutual
/-- Every structural token is the mark of one block or is kept as text. -/
theorem Account.perm {tokens dangling : List Lexeme} {nodes : List Node} {blocks : List (List Lexeme)}
    (account : Account source tokens nodes blocks dangling) :
    (blocks.flatten ++ dangling).Perm (structural tokens) := by
  match account with
  | .nil => exact .nil
  | .text behind =>
    rw [structural_other rfl]
    exact behind.perm
  | .leaf leaf behind =>
    rw [structural_other leaf.role]
    exact behind.perm
  | .literal role behind =>
    rw [structural_cons (by exact decide_eq_true role)]
    exact List.perm_middle.trans (behind.perm.cons _)
  | .block encloses within behind =>
    obtain ⟨opens, closes⟩ := encloses.structural
    rw [structural_cons opens, structural_append, structural_cons (closes _), List.flatten_cons, List.flatten_append]
    exact (((perm_beside within.perm behind.perm).cons _).trans List.perm_middle.symm).cons _
  | .conditional branching behind =>
    rw [structural_cons (by rfl), structural_append, List.flatten_cons, List.flatten_append]
    have all := perm_beside branching.perm behind.perm
    rw [List.append_assoc _ _ (List.flatten _)] at all
    exact all.cons _

theorem Branching.perm {condition : String} {tokens marks dangling : List Lexeme}
    {branches : List (String × List Node)} {otherwise : Option (List Node)} {closed : Span}
    {blocks : List (List Lexeme)}
    (branching : Branching source condition tokens branches otherwise closed marks blocks dangling) :
    (marks ++ blocks.flatten ++ dangling).Perm (structural tokens) := by
  match branching with
  | .last within =>
    rw [structural_append]
    exact perm_last _ within.perm
  | .otherwise within ends =>
    rw [structural_append, structural_cons (by rfl), structural_append, List.flatten_append]
    exact perm_divided _ within.perm (perm_last _ ends.perm)
  | .elseIf within further =>
    rw [structural_append, structural_cons (by rfl), List.flatten_append]
    exact perm_divided _ within.perm further.perm
end

mutual
/-- The directives that are kept as text stand in the order of the tokens. -/
theorem Account.sublist {tokens dangling : List Lexeme} {nodes : List Node} {blocks : List (List Lexeme)}
    (account : Account source tokens nodes blocks dangling) : dangling.Sublist tokens := by
  match account with
  | .nil => exact .slnil
  | .text behind | .leaf _ behind => exact behind.sublist.cons _
  | .literal _ behind => exact behind.sublist.cons_cons _
  | .block _ within behind => exact (within.sublist.append (behind.sublist.cons _)).cons _
  | .conditional branching behind => exact (branching.sublist.append behind.sublist).cons _

theorem Branching.sublist {condition : String} {tokens marks dangling : List Lexeme}
    {branches : List (String × List Node)} {otherwise : Option (List Node)} {closed : Span}
    {blocks : List (List Lexeme)}
    (branching : Branching source condition tokens branches otherwise closed marks blocks dangling) :
    dangling.Sublist tokens := by
  match branching with
  | .last within => exact within.sublist.trans (List.sublist_append_left _ _)
  | .otherwise within ends =>
    exact within.sublist.append ((ends.sublist.trans (List.sublist_append_left _ _)).cons _)
  | .elseIf within further => exact within.sublist.append (further.sublist.cons _)
end

/-- The characters of a span stand in a node as they are in the source: in a text, or in a body that is kept as source. -/
inductive Keeps (source : List Char) (span : Span) : Node → Prop where
  | here {node : Node} {text : String} (within : span.Within node.span)
      (mem : text ∈ node.verbatim ++ node.slots.map Slot.raw) (stands : slice source span <:+: text.toList) :
      Keeps source span node
  | child {outer inner : Node} (within : span.Within outer.span) (mem : inner ∈ outer.children)
      (keeps : Keeps source span inner) : Keeps source span outer

theorem Keeps.within {span : Span} {node : Node} (keeps : Keeps source span node) : span.Within node.span := by
  cases keeps with
  | here within | child within => exact within

theorem keeps_behind {span place : Span} {text : String} {nodes : List Node} (fits : place.Fits source)
    (kept : ∃ node ∈ nodes, Keeps source span node) :
    ∃ node ∈ (Node.text place text).prepend nodes, Keeps source span node := by
  obtain ⟨node, mem, keeps⟩ := kept
  rcases prepend_text place text nodes with same | ⟨next, after, others, rfl, touching, same⟩
  · exact ⟨node, same ▸ List.mem_cons_of_mem _ mem, keeps⟩
  · rw [same]
    rcases List.mem_cons.1 mem with rfl | later
    · cases keeps with
      | here within mem stands =>
        cases List.mem_singleton.1 mem
        refine ⟨_, List.mem_cons_self, .here ⟨?_, within.2⟩ (List.mem_singleton_self _) ?_⟩
        · exact Nat.le_trans (Nat.le_of_lt (touching ▸ fits.nonempty)) within.1
        · rw [String.toList_append]
          exact stands.trans (List.suffix_append _ _).isInfix
      | child _ mem => cases mem
    · exact ⟨node, List.mem_cons_of_mem _ later, keeps⟩

theorem keeps_literally {place : Span} {nodes : List Node} (behind : ∀ node ∈ nodes, node.span.Fits source) :
    ∃ node ∈ (literally source place).prepend nodes, Keeps source place node := by
  rcases prepend_text place (String.ofList (slice source place)) nodes with
    same | ⟨next, after, others, rfl, touching, same⟩
  · refine ⟨_, same ▸ List.mem_cons_self, .here ⟨Nat.le_refl _, Nat.le_refl _⟩ (List.mem_singleton_self _) ?_⟩
    exact String.toList_ofList.symm ▸ List.infix_refl _
  · have some : next.start < next.stop := (behind _ List.mem_cons_self).nonempty
    refine ⟨_, same ▸ List.mem_cons_self, .here ⟨Nat.le_refl _, ?_⟩ (List.mem_singleton_self _) ?_⟩
    · exact Nat.le_of_lt (touching ▸ some)
    · rw [String.toList_append, String.toList_ofList]
      exact (List.prefix_append _ _).isInfix

theorem Divided.stands {body : List Node} {text : List Char} {slots : List Slot} (divided : Divided source body text slots)
    {node : Node} (mem : node ∈ body) :
    slice source node.span <:+: text ∨ ∃ span slot, node = .slot span slot ∧ slot ∈ slots := by
  induction divided with
  | nil => cases mem
  | slot _ ih =>
    rcases List.mem_cons.1 mem with rfl | later
    · exact .inr ⟨_, _, rfl, List.mem_cons_self⟩
    · refine (ih later).imp_right ?_
      rintro ⟨span, slot, same, there⟩
      exact ⟨span, slot, same, List.mem_cons_of_mem _ there⟩
  | other _ _ ih =>
    rcases List.mem_cons.1 mem with rfl | later
    · exact .inl (List.prefix_append _ _).isInfix
    · exact (ih later).imp_left fun there => there.trans (List.suffix_append _ _).isInfix

/-- What a body keeps is kept by the block around it. -/
theorem Encloses.keeps {span opened closed : Span} {args opens closes : String} {body : List Node} {node : Node}
    (encloses : Encloses source opened closed args body opens closes node) (fits : span.Fits source)
    (starts : opened.Fits source) (stops : closed.Fits source) (behind : opened.Before span) (before : span.Before closed)
    (bodies : ∀ inner ∈ body, inner.span.Fits source) (kept : ∃ inner ∈ body, Keeps source span inner) :
    Keeps source span node := by
  obtain ⟨inner, mem, keeps⟩ := kept
  have within : span.Within ⟨opened.start, closed.stop⟩ :=
    ⟨Nat.le_trans (Nat.le_of_lt starts.nonempty) behind, Nat.le_trans before (Nat.le_of_lt stops.nonempty)⟩
  cases encloses with
  | sectionBlock | foreach | counting => exact .child within mem keeps
  | slot =>
    have around : Span.Fits source ⟨opened.stop, closed.start⟩ :=
      Span.fits_iff.2 ⟨starts.stops, stops.starts, Nat.lt_of_le_of_lt behind (Nat.lt_of_lt_of_le fits.nonempty before)⟩
    refine .here within (List.mem_singleton_self _) ?_
    rw [String.toList_ofList]
    exact infix_of_within fits around ⟨behind, before⟩
  | component divided =>
    rcases divided.stands mem with stands | ⟨place, slot, rfl, there⟩
    · refine .here within (List.mem_append_left _ (List.mem_singleton_self _)) ?_
      rw [String.toList_ofList]
      exact (infix_of_within fits (bodies inner mem) keeps.within).trans stands
    · cases keeps with
      | here _ mem stands =>
        cases List.mem_singleton.1 mem
        exact .here within (List.mem_append_right _ (List.mem_map_of_mem there)) stands
      | child _ mem => cases mem

theorem Orderly.between {first last lexeme : Lexeme} {inside rest : List Lexeme}
    (orderly : Orderly source (first :: (inside ++ last :: rest))) (mem : lexeme ∈ inside) :
    first.span.Before lexeme.span ∧ lexeme.span.Before last.span := by
  have ordered := orderly.ordered
  rw [List.map_cons, List.map_append, List.pairwise_cons, List.pairwise_append] at ordered
  obtain ⟨behind, -, -, before⟩ := ordered
  have inner : lexeme.span ∈ inside.map Located.span := List.mem_map_of_mem mem
  exact ⟨behind _ (List.mem_append_left _ inner), before _ inner _ List.mem_cons_self⟩

theorem Account.fits {tokens dangling : List Lexeme} {nodes : List Node} {blocks : List (List Lexeme)}
    (account : Account source tokens nodes blocks dangling) (orderly : Orderly source tokens) :
    ∀ node ∈ nodes, node.span.Fits source :=
  fun node mem => (account.outline.placed orderly node (.here mem)).fits

mutual
/-- The directives without a counterpart stand in the tree as they are written. -/
theorem Account.kept {tokens dangling : List Lexeme} {nodes : List Node} {blocks : List (List Lexeme)}
    (account : Account source tokens nodes blocks dangling) (orderly : Orderly source tokens) :
    ∀ lexeme ∈ dangling, ∃ node ∈ nodes, Keeps source lexeme.span node := by
  match account with
  | .nil => exact List.forall_mem_nil _
  | .text behind =>
    intro lexeme mem
    exact keeps_behind (orderly.fits _ List.mem_cons_self)
      (behind.kept (orderly.sublist (List.sublist_cons_self _ _)) lexeme mem)
  | .leaf _ behind =>
    intro lexeme mem
    obtain ⟨node, there, keeps⟩ := behind.kept (orderly.sublist (List.sublist_cons_self _ _)) lexeme mem
    exact ⟨node, List.mem_cons_of_mem _ there, keeps⟩
  | .literal _ behind =>
    have later := orderly.sublist (List.sublist_cons_self _ _)
    refine List.forall_mem_cons.2 ⟨keeps_literally (behind.fits later), fun lexeme mem => ?_⟩
    exact keeps_behind (orderly.fits _ List.mem_cons_self) (behind.kept later lexeme mem)
  | @Account.block _ opens closes args ignored opened closed inside rest _ _ _ _ _ _ _ encloses within behind =>
    have inner := orderly.sublist ((List.sublist_append_left inside _).cons _)
    have later := orderly.sublist (((List.sublist_cons_self _ rest).trans (List.sublist_append_right inside _)).cons _)
    refine List.forall_mem_append.2 ⟨fun lexeme mem => ?_, fun lexeme mem => ?_⟩
    · have among := within.sublist.mem mem
      obtain ⟨after, before⟩ := orderly.between among
      exact ⟨_, List.mem_cons_self, encloses.keeps (inner.fits lexeme among) (orderly.fits _ List.mem_cons_self)
        (orderly.fits ⟨.directive closes ignored, closed⟩ (by simp)) after before (within.fits inner)
        (within.kept inner lexeme mem)⟩
    · obtain ⟨node, there, keeps⟩ := behind.kept later lexeme mem
      exact ⟨node, List.mem_cons_of_mem _ there, keeps⟩
  | @Account.conditional _ args opened closed inside rest _ _ _ _ _ _ _ _ branching behind =>
    have inner := orderly.sublist ((List.sublist_append_left inside rest).cons _)
    have later := orderly.sublist ((List.sublist_append_right inside rest).cons _)
    have outline : Outline source (⟨.directive "if" args, opened⟩ :: (inside ++ rest)) _ :=
      .conditional branching.division behind.outline
    have placed := outline.placed orderly _ (.here List.mem_cons_self)
    refine List.forall_mem_append.2 ⟨fun lexeme mem => ?_, fun lexeme mem => ?_⟩
    · obtain ⟨child, there, keeps⟩ := branching.kept inner lexeme mem
      have around := placed.within child there
      exact ⟨_, List.mem_cons_self, .child ⟨Nat.le_trans around.1 keeps.within.1, Nat.le_trans keeps.within.2 around.2⟩
        there keeps⟩
    · obtain ⟨node, there, keeps⟩ := behind.kept later lexeme mem
      exact ⟨node, List.mem_cons_of_mem _ there, keeps⟩

theorem Branching.kept {condition : String} {tokens marks dangling : List Lexeme}
    {branches : List (String × List Node)} {otherwise : Option (List Node)} {closed : Span}
    {blocks : List (List Lexeme)}
    (branching : Branching source condition tokens branches otherwise closed marks blocks dangling)
    (orderly : Orderly source tokens) : ∀ lexeme ∈ dangling,
      ∃ node ∈ branches.flatMap Prod.snd ++ otherwise.getD [], Keeps source lexeme.span node := by
  match branching with
  | .last within =>
    intro lexeme mem
    simpa using within.kept (orderly.sublist (List.sublist_append_left _ _)) lexeme mem
  | @Branching.otherwise _ _ _ _ _ _ inside final _ _ _ _ _ _ within ends =>
    have later := orderly.sublist (((List.sublist_append_left final _).cons _).trans (List.sublist_append_right inside _))
    refine List.forall_mem_append.2 ⟨fun lexeme mem => ?_, fun lexeme mem => ?_⟩
    · obtain ⟨node, there, keeps⟩ := within.kept (orderly.sublist (List.sublist_append_left _ _)) lexeme mem
      exact ⟨node, by simp [there], keeps⟩
    · obtain ⟨node, there, keeps⟩ := ends.kept later lexeme mem
      exact ⟨node, List.mem_append_right _ there, keeps⟩
  | @Branching.elseIf _ _ _ _ _ inside others _ _ _ _ _ _ _ _ within further =>
    have later := orderly.sublist ((List.sublist_cons_self _ others).trans (List.sublist_append_right inside _))
    refine List.forall_mem_append.2 ⟨fun lexeme mem => ?_, fun lexeme mem => ?_⟩
    · obtain ⟨node, there, keeps⟩ := within.kept (orderly.sublist (List.sublist_append_left _ _)) lexeme mem
      exact ⟨node, by simp [there], keeps⟩
    · obtain ⟨node, there, keeps⟩ := further.kept later lexeme mem
      rw [List.flatMap_cons, List.append_assoc]
      exact ⟨node, List.mem_append_right _ there, keeps⟩
end

/-- How the structural tokens of a source are accounted for. -/
structure Settled (source : String) (blocks : List (List Lexeme)) (dangling : List Lexeme) : Prop where
  /-- The blocks are those of the tree. -/
  account : Account source.toList (tokenize source) (read source).1 blocks dangling
  matched : ∀ block ∈ blocks, Matched block
  complete : (blocks.flatten ++ dangling).Perm (structural (tokenize source))
  /-- No token has two parts in this. -/
  once : ((blocks.flatten ++ dangling).map Located.span).Nodup
  /-- Without its counterpart a directive is text with its exact source. -/
  kept : ∀ lexeme ∈ dangling, ∃ node ∈ (read source).1, Keeps source.toList lexeme.span node
  /-- Each directive that is kept as text has a report, and there are no others. -/
  reported : List.Forall₂ Reports dangling (read source).2
  ordered : (read source).2.Pairwise fun first second => first.span.start < second.span.start

theorem Reports.span {lexeme : Lexeme} {diagnostic : Diagnostic} (reports : Reports lexeme diagnostic) :
    lexeme.span = diagnostic.span := by
  cases reports with
  | unclosed _ place | unopened _ place => exact place.symm

theorem spans_of_reports {dangling : List Lexeme} {problems : List Diagnostic}
    (reports : List.Forall₂ Reports dangling problems) :
    dangling.map Located.span = problems.map Diagnostic.span := by
  induction reports with
  | nil => rfl
  | cons here _ ih => rw [List.map_cons, List.map_cons, here.span, ih]

/-- Every directive that can open, divide or close a block is a mark of exactly one block, or it is kept as text and
reported by exactly one diagnostic. -/
theorem directives_are_settled (source : String) : ∃ blocks dangling, Settled source blocks dangling := by
  obtain ⟨blocks, dangling, account, reports⟩ := account_of_read source
  have tiled := tiled_tokenize source
  have starts : ((tokenize source).map Located.span).Pairwise fun first second => first.start < second.start :=
    tiled.ordered.imp_of_mem fun mem _ before => Nat.lt_of_lt_of_le (tiled.bounds _ mem).2.1 before
  have distinct : ((tokenize source).map Located.span).Nodup :=
    starts.imp fun {first second} below (same : first = second) => Nat.lt_irrefl second.start (same ▸ below)
  have spans := spans_of_reports reports
  have kept := account.kept (orderly_tokenize source)
  refine ⟨blocks, dangling, account, account.matched, account.perm, ?_, kept, reports, ?_⟩
  · have fewer : ((structural (tokenize source)).map Located.span).Nodup :=
      distinct.sublist (List.filter_sublist.map _)
    exact (account.perm.map _).nodup_iff.2 fewer
  · have later := starts.sublist (account.sublist.map Located.span)
    rw [spans] at later
    exact (List.pairwise_map (f := Diagnostic.span)).1 later

end Stencil.Template
