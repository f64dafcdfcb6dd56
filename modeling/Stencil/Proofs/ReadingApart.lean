import Stencil.Proofs.TemplateOutline

/-! Tokens read in two parts. Where no block goes on behind a cut, what stands before it is read as
if nothing followed, and what stands behind it as if nothing had been before. -/

namespace Stencil.Template
open Text

variable {source : List Char}

/-! Like scans, blocks and branches are compared without their bounds. -/

def Block.parts {bound : Nat} (block : Block bound) : Node × List Diagnostic × List Lexeme :=
  (block.node, block.diagnostics, block.rest)

def Branches.parts {bound : Nat} (found : Branches bound) :
    List (String × List Node) × Option (List Node) × List Diagnostic × Nat × List Lexeme :=
  (found.branches, found.otherwise, found.diagnostics, found.stop, found.rest)

theorem map_rest {bound : Nat} (block : Option (Block bound)) :
    block.map Block.rest = (block.map Block.parts).map fun (_, _, rest) => rest := by
  cases block <;> rfl

theorem scanBlock_conditional (args : String) (start : Span) (tokens : List Lexeme) :
    (scanBlock source .conditional args start tokens).map Block.parts =
      ((scanBranches source args tokens).map Branches.parts).map fun (branches, otherwise, problems, stop, rest) =>
        (.conditional ⟨start.start, stop⟩ branches otherwise, problems, rest) := by
  rw [scanBlock, if_pos rfl, Option.map_map, Option.map_map]
  rfl

theorem scanBlock_single {opener : Opener} (single : opener ≠ .conditional) (args : String) (start : Span)
    (tokens : List Lexeme) :
    (scanBlock source opener args start tokens).map Block.parts =
      (scanBody source opener.stops tokens).parts.2.2.map fun (_, _, closed, rest) =>
        (blockNode source opener args start closed (scanBody source opener.stops tokens).parts.1,
          (scanBody source opener.stops tokens).parts.2.1, rest) := by
  rw [scanBlock, if_neg single, Option.map_map, Scan.parts, Option.map_map]
  rfl

theorem scanBranches_parts (condition : String) (tokens : List Lexeme) :
    (scanBranches source condition tokens).map Branches.parts =
      (scanBody source Opener.conditional.stops tokens).parts.2.2.bind fun (closer, args, closed, rest) =>
        let body := (scanBody source Opener.conditional.stops tokens).parts.1
        let problems := (scanBody source Opener.conditional.stops tokens).parts.2.1
        if closer = .elseIf then
          ((scanBranches source args rest).map Branches.parts).map fun (branches, otherwise, more, stop, rest) =>
            ((condition, body) :: branches, otherwise, problems ++ more, stop, rest)
        else if closer = .otherwise then
          (scanBody source [.endIf] rest).parts.2.2.map fun (_, _, closed, further) =>
            ([(condition, body)], some (scanBody source [.endIf] rest).parts.1,
              problems ++ (scanBody source [.endIf] rest).parts.2.1, closed.stop, further)
        else some ([(condition, body)], none, problems, closed.stop, rest) := by
  rw [scanBranches]
  cases ended : (scanBody source Opener.conditional.stops tokens).ending with
  | none => simp [Scan.parts, ended]
  | some ending =>
    simp only [Scan.parts, ended, Ending.stopped, Option.map_some, Option.bind_some]
    split
    · rw [Option.map_map, Option.map_map]
      rfl
    · split
      · rw [Option.map_map, Option.map_map]
        rfl
      · rfl

/-- What is read at a token, and the tokens that are left then: nothing if the reading stops there. -/
def first? (source : List Char) (stops : List Closer) : Lexeme → List Lexeme →
    Option (Node × List Diagnostic × List Lexeme)
  | ⟨.text text, span⟩, rest => some (.text span text, [], rest)
  | ⟨.echo expression raw, span⟩, rest => some (.echo span expression !raw, [], rest)
  | ⟨.directive name args, span⟩, rest =>
    match roleOf name (args.getD "") with
    | .standalone => some (standaloneNode span name args (String.ofList (slice source span)), [], rest)
    | .closer closer =>
      if closer ∈ stops then none else some (literally source span, [⟨span, .unopened closer.name⟩], rest)
    | .opener opener =>
      ((scanBlock source opener (args.getD "") span rest).map Block.parts).or
        (some (literally source span, [⟨span, .unclosed opener.name⟩], rest))

theorem scanBody_first {stops : List Closer} {lexeme : Lexeme} {rest further : List Lexeme} {node : Node}
    {problems : List Diagnostic} (found : first? source stops lexeme rest = some (node, problems, further)) :
    (scanBody source stops (lexeme :: rest)).parts =
      (node.prepend (scanBody source stops further).parts.1, problems ++ (scanBody source stops further).parts.2.1,
        (scanBody source stops further).parts.2.2) := by
  match lexeme with
  | ⟨.text text, span⟩ =>
    cases found
    exact scanBody_text stops span text rest
  | ⟨.echo expression raw, span⟩ =>
    cases found
    exact scanBody_leaf stops .echo rest
  | ⟨.directive name args, span⟩ =>
    unfold first? at found
    dsimp only at found
    cases role : roleOf name (args.getD "") with
    | standalone =>
      have leaf : Leaf source span (.directive name args) _ := leaf_of_standalone role
      simp only [role] at found
      cases found
      rw [scanBody_leaf stops leaf, leaf.prepend]
      rfl
    | closer closer =>
      simp only [role] at found
      split at found
      · cases found
      next passed =>
        cases found
        exact scanBody_unopened stops role passed span rest
    | opener opener =>
      simp only [role] at found
      cases tried : scanBlock source opener (args.getD "") span rest with
      | none =>
        rw [tried] at found
        cases found
        exact scanBody_unclosed stops role tried
      | some block =>
        rw [tried] at found
        cases found
        exact scanBody_block stops role tried

theorem first?_inside {stops : List Closer} {lexeme : Lexeme} {rest further : List Lexeme} {node : Node}
    {problems : List Diagnostic} (found : first? source stops lexeme rest = some (node, problems, further)) :
    further <:+ rest := by
  unfold first? at found
  split at found
  · cases found
    exact List.suffix_refl _
  · cases found
    exact List.suffix_refl _
  · split at found
    · cases found
      exact List.suffix_refl _
    · split at found
      · cases found
      · cases found
        exact List.suffix_refl _
    · rcases Option.or_eq_some_iff.1 found with closed | ⟨_, same⟩
      · obtain ⟨block, tried, same⟩ := Option.map_eq_some_iff.1 closed
        cases same
        exact block_inside _ _ _ _ _ block tried
      · cases same
        exact List.suffix_refl _

/-- What is read at a token is text, the node of this token alone, or a whole block. -/
theorem first?_cases {stops : List Closer} {lexeme : Lexeme} {rest further : List Lexeme} {node : Node}
    {problems : List Diagnostic} (found : first? source stops lexeme rest = some (node, problems, further)) :
    (∃ text, node = .text lexeme.span text) ∨ Leaf source lexeme.span lexeme.value node ∨
      ∃ name args opener, lexeme.value = .directive name args ∧ roleOf name (args.getD "") = .opener opener ∧
        (scanBlock source opener (args.getD "") lexeme.span rest).map Block.parts = some (node, problems, further) := by
  match lexeme with
  | ⟨.text text, span⟩ =>
    cases found
    exact .inl ⟨text, rfl⟩
  | ⟨.echo expression raw, span⟩ =>
    cases found
    exact .inr (.inl .echo)
  | ⟨.directive name args, span⟩ =>
    unfold first? at found
    dsimp only at found
    cases role : roleOf name (args.getD "") with
    | standalone =>
      simp only [role] at found
      cases found
      exact .inr (.inl (leaf_of_standalone role))
    | closer closer =>
      simp only [role] at found
      split at found
      · cases found
      · cases found
        exact .inl ⟨_, rfl⟩
    | opener opener =>
      simp only [role] at found
      rcases Option.or_eq_some_iff.1 found with closed | ⟨_, same⟩
      · exact .inr (.inr ⟨name, args, opener, rfl, role, closed⟩)
      · cases same
        exact .inl ⟨_, rfl⟩

theorem first?_none {stops : List Closer} {lexeme : Lexeme} {rest : List Lexeme}
    (stop : first? source stops lexeme rest = none) :
    ∃ (closer : Closer) (args : Option String), closer ∈ stops ∧ lexeme.value = .directive closer.name args := by
  unfold first? at stop
  split at stop
  · cases stop
  · cases stop
  · split at stop
    · cases stop
    next role =>
      split at stop
      next ends => exact ⟨_, _, ends, by rw [name_of_closer role]⟩
      next => cases stop
    · simp at stop

/-- What is read from some tokens and then from those behind them, unless the first ones hold
what ends the reading. -/
def followed (first : List Node × List Diagnostic × Option Stop) (behind : List Lexeme)
    (second : List Node × List Diagnostic × Option Stop) : List Node × List Diagnostic × Option Stop :=
  match first with
  | (nodes, problems, some (closer, args, span, rest)) => (nodes, problems, some (closer, args, span, rest ++ behind))
  | (nodes, problems, none) => (nodes.foldr Node.prepend second.1, problems ++ second.2.1, second.2.2)

theorem prepend_joined {span next : Span} (touching : span.stop = next.start) (text after : String) (nodes : List Node) :
    (Node.text ⟨span.start, next.stop⟩ (text ++ after)).prepend nodes =
      (Node.text span text).prepend ((Node.text next after).prepend nodes) := by
  rcases nodes with _ | ⟨node, others⟩
  · simp [Node.prepend, touching]
  · cases node with
    | text last final => by_cases adjacent : next.stop = last.start <;> simp [Node.prepend, touching, adjacent, String.append_assoc]
    | _ => simp [Node.prepend, touching]

theorem prepend_foldr (node : Node) (nodes others : List Node) :
    (node.prepend nodes).foldr Node.prepend others = node.prepend (nodes.foldr Node.prepend others) := by
  cases node with
  | text span text =>
    rcases prepend_text span text nodes with same | ⟨next, after, further, rfl, touching, same⟩
    · rw [same]
      rfl
    · rw [same]
      exact prepend_joined touching text after _
  | _ => rfl

theorem followed_prepend (node : Node) (more : List Diagnostic) (first : List Node × List Diagnostic × Option Stop)
    (behind : List Lexeme) (second : List Node × List Diagnostic × Option Stop) :
    followed (node.prepend first.1, more ++ first.2.1, first.2.2) behind second =
      (node.prepend (followed first behind second).1, more ++ (followed first behind second).2.1,
        (followed first behind second).2.2) := by
  obtain ⟨nodes, problems, _ | ⟨closer, args, span, rest⟩⟩ := first
  · simp [followed, prepend_foldr]
  · rfl

/-- Reading stops at some token, and goes on behind it. -/
theorem stop_inside {stops : List Closer} {tokens rest : List Lexeme} {closer : Closer} {args : String} {span : Span}
    (found : (scanBody source stops tokens).parts.2.2 = some (closer, args, span, rest)) :
    rest <:+ tokens ∧ rest.length < tokens.length := by
  obtain ⟨ending, seen, same⟩ := Option.map_eq_some_iff.1 found
  cases same
  exact ⟨ending_inside source stops tokens ending seen, ending.shorter⟩

theorem stop_token {stops : List Closer} {tokens rest : List Lexeme} {closer : Closer} {args : String} {span : Span}
    (found : (scanBody source stops tokens).parts.2.2 = some (closer, args, span, rest)) :
    ∃ token, ⟨token, span⟩ :: rest <:+ tokens := by
  have read : (scanBody source stops tokens).parts = ((scanBody source stops tokens).parts.1,
      (scanBody source stops tokens).parts.2.1, some (closer, args, span, rest)) := by rw [← found]
  obtain ⟨inside, _, split, _, _, _, raw, _, rfl⟩ := outline_of_scanBody stops tokens read
  exact ⟨_, split ▸ List.suffix_append _ _⟩

/-- The branches of a conditional end behind the stop of the first one. -/
theorem branches_behind {condition : String} {tokens rest last : List Lexeme} {closer : Closer} {args : String}
    {span : Span} (stop : (scanBody source Opener.conditional.stops tokens).parts.2.2 = some (closer, args, span, rest))
    {branches : List (String × List Node)} {otherwise : Option (List Node)} {problems : List Diagnostic} {position : Nat}
    (found : (scanBranches source condition tokens).map Branches.parts =
      some (branches, otherwise, problems, position, last)) : last <:+ rest := by
  rw [scanBranches_parts, stop, Option.bind_some] at found
  dsimp only at found
  split at found
  · obtain ⟨_, seen, same⟩ := Option.map_eq_some_iff.1 found
    obtain ⟨others, further, rfl⟩ := Option.map_eq_some_iff.1 seen
    cases same
    exact branches_inside source args rest others further
  · split at found
    · obtain ⟨⟨_, _, _, _⟩, seen, same⟩ := Option.map_eq_some_iff.1 found
      cases same
      exact (stop_inside seen).1
    · cases found
      exact List.suffix_refl _

theorem not_suffix_of_shorter {rest behind : List Lexeme} (shorter : rest.length < behind.length) : ¬ behind <:+ rest :=
  fun suffix => Nat.not_lt.2 suffix.length_le shorter

theorem first?_append {stops : List Closer} {lexeme : Lexeme} {rest behind further : List Lexeme} {node : Node}
    {problems : List Diagnostic} (found : first? source stops lexeme rest = some (node, problems, further))
    (blocks : ∀ name args opener, lexeme.value = .directive name args → roleOf name (args.getD "") = .opener opener →
      (scanBlock source opener (args.getD "") lexeme.span (rest ++ behind)).map Block.parts =
        ((scanBlock source opener (args.getD "") lexeme.span rest).map Block.parts).map fun (node, problems, further) =>
          (node, problems, further ++ behind)) :
    first? source stops lexeme (rest ++ behind) = some (node, problems, further ++ behind) := by
  match lexeme with
  | ⟨.text text, span⟩ | ⟨.echo expression raw, span⟩ =>
    cases found
    rfl
  | ⟨.directive name args, span⟩ =>
    unfold first? at found ⊢
    dsimp only at found ⊢
    cases role : roleOf name (args.getD "") with
    | standalone =>
      simp only [role] at found ⊢
      cases found
      rfl
    | closer closer =>
      simp only [role] at found ⊢
      split at found
      · cases found
      next passed =>
        rw [if_neg passed]
        cases found
        rfl
    | opener opener =>
      simp only [role] at found ⊢
      rw [blocks name args opener rfl role]
      cases tried : scanBlock source opener (args.getD "") span rest <;> rw [tried] at found <;> cases found <;> rfl

mutual
theorem scanBody_append (stops : List Closer) (tokens : List Lexeme) {behind : List Lexeme}
    (apart : Apart source tokens behind) :
    (scanBody source stops (tokens ++ behind)).parts =
      followed (scanBody source stops tokens).parts behind (scanBody source stops behind).parts := by
  match tokens with
  | [] =>
    rw [scanBody]
    rfl
  | ⟨token, span⟩ :: rest =>
    rw [List.cons_append]
    cases found : first? source stops ⟨token, span⟩ rest with
    | none =>
      obtain ⟨closer, args, ends, rfl⟩ := first?_none found
      rw [scanBody_closer stops ends, scanBody_closer stops ends]
      rfl
    | some first =>
      obtain ⟨node, problems, further⟩ := first
      have inside := first?_inside found
      have := inside.length_le
      have onwards := scanBody_append stops further (apart.suffix (inside.trans (List.suffix_cons _ _)))
      have whole := @first?_append _ _ _ _ behind _ _ _ found fun name args opener same role => by
        cases same
        exact scanBlock_append name args span rest role apart
      rw [scanBody_first found, scanBody_first whole, onwards, followed_prepend]
termination_by (tokens.length, 0)

theorem scanBlock_append (name : String) (args : Option String) (start : Span) (tokens : List Lexeme)
    {behind : List Lexeme} {opener : Opener} (role : roleOf name (args.getD "") = .opener opener)
    (apart : Apart source (⟨.directive name args, start⟩ :: tokens) behind) :
    (scanBlock source opener (args.getD "") start (tokens ++ behind)).map Block.parts =
      ((scanBlock source opener (args.getD "") start tokens).map Block.parts).map fun (node, problems, rest) =>
        (node, problems, rest ++ behind) := by
  have inner := apart.suffix (List.suffix_cons _ tokens)
  have beyond := apart name args start opener tokens (List.suffix_refl _) role
  by_cases conditional : opener = .conditional
  · subst conditional
    have same := scanBranches_append (args.getD "") tokens inner fun found there => by
      apply beyond
      rw [map_rest, scanBlock_conditional, there]
      rfl
    rw [scanBlock_conditional, scanBlock_conditional, same]
    cases (scanBranches source (args.getD "") tokens).map Branches.parts <;> rfl
  · have same := scanBody_append opener.stops tokens inner
    have parts := @scanBlock_single source opener conditional (args.getD "") start (tokens ++ behind)
    rw [same] at parts
    rw [scanBlock_single conditional (args.getD "") start tokens, parts]
    rcases here : (scanBody source opener.stops tokens).parts with ⟨nodes, problems, _ | ⟨closer, ignored, closed, rest⟩⟩
    · rcases later : (scanBody source opener.stops behind).parts with ⟨others, more, _ | ⟨closer, ignored, closed, rest⟩⟩
      · rfl
      · -- The block would go on behind the cut.
        rw [here, later] at parts
        have outside : behind <:+ rest := beyond rest (by rw [map_rest, parts]; rfl)
        exact absurd outside (not_suffix_of_shorter (stop_inside (by rw [later])).2)
    · rfl
termination_by (tokens.length, 2)

theorem scanBranches_append (condition : String) (tokens : List Lexeme) {behind : List Lexeme}
    (apart : Apart source tokens behind)
    (beyond : ∀ found, (scanBranches source condition (tokens ++ behind)).map Branches.parts = some found →
      behind <:+ found.2.2.2.2) :
    (scanBranches source condition (tokens ++ behind)).map Branches.parts =
      ((scanBranches source condition tokens).map Branches.parts).map
        fun (branches, otherwise, problems, stop, rest) => (branches, otherwise, problems, stop, rest ++ behind) := by
  have same := scanBody_append Opener.conditional.stops tokens apart
  have parts := @scanBranches_parts source condition (tokens ++ behind)
  rw [scanBranches_parts condition tokens]
  rcases here : (scanBody source Opener.conditional.stops tokens).parts with ⟨nodes, problems, _ | ⟨closer, args, closed, rest⟩⟩
  · rw [here] at same
    cases later : (scanBody source Opener.conditional.stops behind).parts.2.2 with
    | none =>
      rw [parts, same]
      simp [followed, later]
    | some stop =>
      -- All branches that are found end behind the stop of the first one, which is behind the cut.
      cases found : (scanBranches source condition (tokens ++ behind)).map Branches.parts with
      | none => rfl
      | some all =>
        have stopped : (scanBody source Opener.conditional.stops (tokens ++ behind)).parts.2.2 = some stop := by
          rw [same, ← later]
          rfl
        have ends := (branches_behind stopped found).length_le
        exact absurd (beyond all found) (not_suffix_of_shorter (Nat.lt_of_le_of_lt ends (stop_inside later).2))
  · rw [here] at same
    have inside := @stop_inside source Opener.conditional.stops tokens rest closer args closed (by rw [here])
    have := inside.2
    rw [parts, same]
    rw [parts, same] at beyond
    simp only [followed, Option.bind_some] at beyond ⊢
    by_cases elseIf : closer = .elseIf
    · simp only [if_pos elseIf] at beyond ⊢
      have others := scanBranches_append args rest (apart.suffix inside.1) fun found there => by
        rw [there] at beyond
        exact beyond ((condition, nodes) :: found.1, found.2.1, problems ++ found.2.2.1, found.2.2.2) rfl
      rw [others]
      cases (scanBranches source args rest).map Branches.parts <;> rfl
    by_cases otherwise : closer = .otherwise
    · simp only [if_neg elseIf, if_pos otherwise] at beyond ⊢
      have last := scanBody_append [.endIf] rest (apart.suffix inside.1)
      rw [last]
      rw [last] at beyond
      rcases ends : (scanBody source [.endIf] rest).parts with ⟨others, more, _ | ⟨closer, ignored, closed, final⟩⟩
      · rcases later : (scanBody source [.endIf] behind).parts with ⟨_, _, _ | ⟨closer, ignored, closed, final⟩⟩
        · rfl
        · rw [ends, later] at beyond
          exact absurd (beyond _ rfl) (not_suffix_of_shorter (stop_inside (by rw [later])).2)
      · rfl
    · simp only [if_neg elseIf, if_neg otherwise]
      rfl
termination_by (tokens.length, 1)
end

/-- Nothing in what is read at a token ends behind it. -/
theorem first?_apart {stops : List Closer} {lexeme : Lexeme} {inner further : List Lexeme} {node : Node}
    {problems : List Diagnostic}
    (found : first? source stops lexeme (inner ++ further) = some (node, problems, further)) :
    Apart source (lexeme :: inner) further := by
  have alone (same : inner ++ further = further) (closed : ∀ name args opener,
      lexeme.value = .directive name args → roleOf name (args.getD "") = .opener opener →
        scanBlock source opener (args.getD "") lexeme.span further = none) : Apart source (lexeme :: inner) further := by
    cases List.append_left_eq_self.1 same
    refine .cons (fun name args opener same role rest block => ?_) .nil
    rw [List.nil_append, closed name args opener same role] at block
    cases block
  match lexeme with
  | ⟨.text text, span⟩ | ⟨.echo expression raw, span⟩ =>
    exact alone (congrArg (fun found => found.2.2) (Option.some.inj found)) nofun
  | ⟨.directive name args, span⟩ =>
    unfold first? at found
    dsimp only at found
    cases role : roleOf name (args.getD "") with
    | standalone =>
      rw [role] at found
      refine alone (congrArg (fun found => found.2.2) (Option.some.inj found)) ?_
      rintro _ _ _ ⟨⟩ opens
      cases role.symm.trans opens
    | closer closer =>
      simp only [role] at found
      split at found
      · cases found
      · refine alone (congrArg (fun found => found.2.2) (Option.some.inj found)) ?_
        rintro _ _ _ ⟨⟩ opens
        cases role.symm.trans opens
    | opener opener =>
      simp only [role] at found
      cases tried : scanBlock source opener (args.getD "") span (inner ++ further) with
      | none =>
        rw [tried] at found
        have same : inner ++ further = further := congrArg (fun found => found.2.2) (Option.some.inj found)
        rw [same] at tried
        refine alone same ?_
        rintro _ _ _ ⟨⟩ opens
        cases role.symm.trans opens
        exact tried
      | some block =>
        rw [tried] at found
        have rest : block.rest = further := congrArg (fun found => found.2.2) (Option.some.inj found)
        obtain ⟨inside, _, _, split, apart, -⟩ := account_of_scanBlock _ role tried
        rw [rest] at split apart
        rwa [List.append_cancel_right split]

/-- What is read at a token is read there by itself. -/
theorem first?_alone {lexeme : Lexeme} {inner further : List Lexeme} {node : Node} {problems : List Diagnostic}
    (found : first? source [] lexeme (inner ++ further) = some (node, problems, further)) :
    first? source [] lexeme inner = some (node, problems, []) := by
  cases alone : first? source [] lexeme inner with
  | none =>
    obtain ⟨_, _, impossible, _⟩ := first?_none alone
    cases impossible
  | some first =>
    obtain ⟨node', problems', rest⟩ := first
    have whole := @first?_append source [] lexeme inner further rest node' problems' alone fun name args opener same role => by
      obtain ⟨_, span⟩ := lexeme
      cases same
      exact scanBlock_append name args span inner role (first?_apart found)
    rw [found] at whole
    simp only [Option.some.injEq, Prod.mk.injEq, List.self_eq_append_left] at whole
    obtain ⟨rfl, rfl, rfl⟩ := whole
    rfl

theorem Apart.last (tokens : List Lexeme) : Apart source tokens [] := fun _ _ _ _ _ _ _ _ _ => List.nil_suffix

/-- What is read to the end has no texts left to join. -/
theorem joined_of_endless {stops : List Closer} {tokens : List Lexeme}
    (endless : (scanBody source stops tokens).parts.2.2 = none) :
    (scanBody source stops tokens).parts.1.foldr Node.prepend [] = (scanBody source stops tokens).parts.1 := by
  have whole := scanBody_append stops tokens (@Apart.last source tokens)
  rw [List.append_nil] at whole
  have nothing : (scanBody source stops []).parts = ([], [], none) := by
    rw [scanBody]
    rfl
  rcases here : (scanBody source stops tokens).parts with ⟨nodes, problems, stop⟩
  rw [here] at endless whole
  cases endless
  rw [nothing] at whole
  exact (congrArg Prod.fst whole).symm

theorem first?_always {stops : List Closer} {lexeme : Lexeme} {rest : List Lexeme}
    {first : Node × List Diagnostic × List Lexeme} (found : first? source stops lexeme rest = some first) :
    first? source [] lexeme rest = some first := by
  match lexeme with
  | ⟨.text text, span⟩ | ⟨.echo expression raw, span⟩ => exact found
  | ⟨.directive name args, span⟩ =>
    unfold first? at found ⊢
    dsimp only at found ⊢
    cases role : roleOf name (args.getD "") with
    | standalone | opener => simpa only [role] using found
    | closer closer =>
      simp only [role, List.not_mem_nil, if_false] at found ⊢
      split at found
      · cases found
      · exact found

/-- What would have ended the reading makes no difference where nothing did. -/
theorem scanBody_endless {stops : List Closer} (tokens : List Lexeme)
    (endless : (scanBody source stops tokens).parts.2.2 = none) :
    (scanBody source [] tokens).parts = (scanBody source stops tokens).parts := by
  match tokens with
  | [] => rw [scanBody, scanBody]
  | lexeme :: rest =>
    cases found : first? source stops lexeme rest with
    | none =>
      obtain ⟨token, span⟩ := lexeme
      obtain ⟨closer, args, ends, rfl⟩ := first?_none found
      rw [scanBody_closer stops ends] at endless
      cases endless
    | some first =>
      obtain ⟨node, problems, further⟩ := first
      have := (first?_inside found).length_le
      rw [scanBody_first found] at endless
      rw [scanBody_first found, scanBody_first (first?_always found), scanBody_endless further endless]
termination_by tokens.length

/-- The tokens of a body that is ended give the same by themselves. -/
theorem body_alone {stops : List Closer} {tokens rest : List Lexeme} {nodes : List Node} {problems : List Diagnostic}
    {closer : Closer} {args : String} {span : Span}
    (read : (scanBody source stops tokens).parts = (nodes, problems, some (closer, args, span, rest))) :
    ∃ inside raw, closer ∈ stops ∧ tokens = inside ++ ⟨.directive closer.name raw, span⟩ :: rest ∧
      Outline source inside nodes ∧ Apart source inside (⟨.directive closer.name raw, span⟩ :: rest) ∧
      (scanBody source [] inside).parts = (nodes, problems, none) := by
  obtain ⟨inside, _, rfl, outline, apart, ends, raw, rfl, rfl⟩ := outline_of_scanBody stops tokens read
  refine ⟨inside, raw, ends, rfl, outline, apart, ?_⟩
  have whole := scanBody_append stops inside apart
  rw [read, scanBody_closer stops ends] at whole
  rcases here : (scanBody source stops inside).parts with ⟨alone, found, _ | ⟨_, _, _, further⟩⟩
  · have endless : (scanBody source stops inside).parts.2.2 = none := by rw [here]
    have joined := joined_of_endless endless
    rw [scanBody_endless inside endless, here]
    rw [here] at whole joined
    simp only [followed, Prod.mk.injEq, List.append_nil] at whole
    rw [whole.1, whole.2.1, joined]
  · -- The body would have ended before.
    rw [here] at whole
    have longer := congrArg (fun parts => parts.2.2.map fun stop => stop.2.2.2.length) whole
    simp [followed] at longer
    omega

end Stencil.Template
