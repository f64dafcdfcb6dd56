import Stencil.Proofs.TemplateGrammar
import Mathlib.Data.List.Forall2

/-! Which tokens each node of a template stands for, also where blocks are left open: a directive
without its counterpart is text then. Every tree that is read has such an outline, with an account of
the directives that belong to blocks and of those that are reported. -/

namespace Stencil.Template
open Text

/-- The nodes of all the bodies of a node. -/
def Node.children : Node → List Node
  | .sectionBlock _ _ body | .foreach _ _ body | .counting _ _ body => body
  | .conditional _ branches otherwise => branches.flatMap Prod.snd ++ otherwise.getD []
  | _ => []

/-- A node of a tree, at any depth. -/
inductive Inside : List Node → Node → Prop where
  | here {nodes : List Node} {node : Node} (mem : node ∈ nodes) : Inside nodes node
  | deeper {nodes : List Node} {outer node : Node} (mem : outer ∈ nodes) (within : Inside outer.children node) :
      Inside nodes node

theorem Inside.not_nil {node : Node} : ¬ Inside [] node := by
  rintro (mem | ⟨mem, _⟩) <;> cases mem

theorem Inside.append_iff {first second : List Node} {node : Node} :
    Inside (first ++ second) node ↔ Inside first node ∨ Inside second node := by
  constructor
  · rintro (mem | ⟨mem, within⟩)
    · exact (List.mem_append.1 mem).imp .here .here
    · exact (List.mem_append.1 mem).imp (.deeper · within) (.deeper · within)
  · rintro ((mem | ⟨mem, within⟩) | (mem | ⟨mem, within⟩))
    · exact .here (List.mem_append_left _ mem)
    · exact .deeper (List.mem_append_left _ mem) within
    · exact .here (List.mem_append_right _ mem)
    · exact .deeper (List.mem_append_right _ mem) within

theorem Inside.cons_iff {first node : Node} {nodes : List Node} :
    Inside (first :: nodes) node ↔ node = first ∨ Inside first.children node ∨ Inside nodes node := by
  constructor
  · rintro (mem | ⟨mem, within⟩)
    · exact (List.mem_cons.1 mem).imp_right fun mem => .inr (.here mem)
    · rcases List.mem_cons.1 mem with rfl | mem
      · exact .inr (.inl within)
      · exact .inr (.inr (.deeper mem within))
  · rintro (rfl | within | behind)
    · exact .here List.mem_cons_self
    · exact .deeper List.mem_cons_self within
    · exact (@append_iff [first] nodes node).2 (.inr behind)

/-- Text in front of other nodes stands alone or is joined to the first of them. -/
theorem prepend_text (span : Span) (text : String) (nodes : List Node) :
    (Node.text span text).prepend nodes = .text span text :: nodes ∨
      ∃ next after others, nodes = .text next after :: others ∧ span.stop = next.start ∧
        (Node.text span text).prepend nodes = .text ⟨span.start, next.stop⟩ (text ++ after) :: others := by
  rcases nodes with _ | ⟨node, others⟩
  · exact .inl rfl
  · cases node with
    | text next after =>
      by_cases touching : span.stop = next.start
      · exact .inr ⟨next, after, others, rfl, touching, by simp [Node.prepend, touching]⟩
      · exact .inl (by simp [Node.prepend, touching])
    | _ => exact .inl rfl

mutual
/-- The tokens of a body and its nodes. -/
inductive Outline (source : List Char) : List Lexeme → List Node → Prop where
  | nil : Outline source [] []
  | text {span : Span} {text : String} {rest : List Lexeme} {nodes : List Node}
      (behind : Outline source rest nodes) :
      Outline source (⟨.text text, span⟩ :: rest) ((Node.text span text).prepend nodes)
  | leaf {token : Token} {span : Span} {node : Node} {rest : List Lexeme} {nodes : List Node}
      (leaf : Leaf source span token node) (behind : Outline source rest nodes) :
      Outline source (⟨token, span⟩ :: rest) (node :: nodes)
  /-- What opens or closes a block that is not there. -/
  | literal {name : String} {args : Option String} {span : Span} {rest : List Lexeme} {nodes : List Node}
      (dangling : roleOf name (args.getD "") ≠ .standalone) (behind : Outline source rest nodes) :
      Outline source (⟨.directive name args, span⟩ :: rest) ((literally source span).prepend nodes)
  | block {opens closes : String} {args ignored : Option String} {opened closed : Span}
      {inside rest : List Lexeme} {node : Node} {body nodes : List Node}
      (encloses : Encloses source opened closed (args.getD "") body opens closes node)
      (within : Outline source inside body) (behind : Outline source rest nodes) :
      Outline source (⟨.directive opens args, opened⟩ :: (inside ++ ⟨.directive closes ignored, closed⟩ :: rest))
        (node :: nodes)
  | conditional {args : Option String} {opened closed : Span} {inside rest : List Lexeme}
      {branches : List (String × List Node)} {otherwise : Option (List Node)} {nodes : List Node}
      (division : Division source (args.getD "") inside branches otherwise closed)
      (behind : Outline source rest nodes) :
      Outline source (⟨.directive "if" args, opened⟩ :: (inside ++ rest))
        (.conditional ⟨opened.start, closed.stop⟩ branches otherwise :: nodes)

/-- The tokens of a conditional behind its first condition, and its branches. -/
inductive Division (source : List Char) : String → List Lexeme → List (String × List Node) →
    Option (List Node) → Span → Prop where
  | last {condition : String} {ignored : Option String} {closed : Span} {inside : List Lexeme}
      {body : List Node} (within : Outline source inside body) :
      Division source condition (inside ++ [⟨.directive "endif" ignored, closed⟩]) [(condition, body)] none closed
  | otherwise {condition : String} {ignored ignored' : Option String} {between closed : Span}
      {inside final : List Lexeme} {body other : List Node} (within : Outline source inside body)
      (ends : Outline source final other) :
      Division source condition (inside ++ ⟨.directive "else" ignored, between⟩ ::
        (final ++ [⟨.directive "endif" ignored', closed⟩])) [(condition, body)] (some other) closed
  | elseIf {condition : String} {args : Option String} {between closed : Span}
      {inside others : List Lexeme} {body : List Node} {branches : List (String × List Node)}
      {otherwise : Option (List Node)} (within : Outline source inside body)
      (further : Division source (args.getD "") others branches otherwise closed) :
      Division source condition (inside ++ ⟨.directive "elseif" args, between⟩ :: others)
        ((condition, body) :: branches) otherwise closed
end

/-- What a token does for the blocks. Only a directive can open, divide or close one. -/
def Token.role : Token → Role
  | .directive name args => roleOf name (args.getD "")
  | .text _ | .echo _ _ => .standalone

mutual
/-- The outline of a body with the marks of every block in it, from the one that opens it to the one that closes it,
and the directives that are kept as text. What is in components and slots counts as well. -/
inductive Account (source : List Char) : List Lexeme → List Node → List (List Lexeme) → List Lexeme → Prop where
  | nil : Account source [] [] [] []
  | text {span : Span} {text : String} {rest dangling : List Lexeme} {nodes : List Node} {blocks : List (List Lexeme)}
      (behind : Account source rest nodes blocks dangling) :
      Account source (⟨.text text, span⟩ :: rest) ((Node.text span text).prepend nodes) blocks dangling
  | leaf {token : Token} {span : Span} {node : Node} {rest dangling : List Lexeme} {nodes : List Node}
      {blocks : List (List Lexeme)} (leaf : Leaf source span token node)
      (behind : Account source rest nodes blocks dangling) :
      Account source (⟨token, span⟩ :: rest) (node :: nodes) blocks dangling
  | literal {name : String} {args : Option String} {span : Span} {rest dangling : List Lexeme} {nodes : List Node}
      {blocks : List (List Lexeme)} (structural : roleOf name (args.getD "") ≠ .standalone)
      (behind : Account source rest nodes blocks dangling) :
      Account source (⟨.directive name args, span⟩ :: rest) ((literally source span).prepend nodes) blocks
        (⟨.directive name args, span⟩ :: dangling)
  | block {opens closes : String} {args ignored : Option String} {opened closed : Span}
      {inside rest dangling dangling' : List Lexeme} {node : Node} {body nodes : List Node}
      {blocks blocks' : List (List Lexeme)}
      (encloses : Encloses source opened closed (args.getD "") body opens closes node)
      (within : Account source inside body blocks dangling) (behind : Account source rest nodes blocks' dangling') :
      Account source (⟨.directive opens args, opened⟩ :: (inside ++ ⟨.directive closes ignored, closed⟩ :: rest))
        (node :: nodes)
        ([⟨.directive opens args, opened⟩, ⟨.directive closes ignored, closed⟩] :: (blocks ++ blocks'))
        (dangling ++ dangling')
  | conditional {args : Option String} {opened closed : Span} {inside rest marks dangling dangling' : List Lexeme}
      {branches : List (String × List Node)} {otherwise : Option (List Node)} {nodes : List Node}
      {blocks blocks' : List (List Lexeme)}
      (branching : Branching source (args.getD "") inside branches otherwise closed marks blocks dangling)
      (behind : Account source rest nodes blocks' dangling') :
      Account source (⟨.directive "if" args, opened⟩ :: (inside ++ rest))
        (.conditional ⟨opened.start, closed.stop⟩ branches otherwise :: nodes)
        ((⟨.directive "if" args, opened⟩ :: marks) :: (blocks ++ blocks')) (dangling ++ dangling')

/-- The same for the branches of a conditional, with the marks behind the one that opens it. -/
inductive Branching (source : List Char) : String → List Lexeme → List (String × List Node) → Option (List Node) →
    Span → List Lexeme → List (List Lexeme) → List Lexeme → Prop where
  | last {condition : String} {ignored : Option String} {closed : Span} {inside dangling : List Lexeme}
      {body : List Node} {blocks : List (List Lexeme)} (within : Account source inside body blocks dangling) :
      Branching source condition (inside ++ [⟨.directive "endif" ignored, closed⟩]) [(condition, body)] none closed
        [⟨.directive "endif" ignored, closed⟩] blocks dangling
  | otherwise {condition : String} {ignored ignored' : Option String} {between closed : Span}
      {inside final dangling dangling' : List Lexeme} {body other : List Node} {blocks blocks' : List (List Lexeme)}
      (within : Account source inside body blocks dangling) (ends : Account source final other blocks' dangling') :
      Branching source condition (inside ++ ⟨.directive "else" ignored, between⟩ ::
          (final ++ [⟨.directive "endif" ignored', closed⟩])) [(condition, body)] (some other) closed
        [⟨.directive "else" ignored, between⟩, ⟨.directive "endif" ignored', closed⟩] (blocks ++ blocks')
        (dangling ++ dangling')
  | elseIf {condition : String} {args : Option String} {between closed : Span}
      {inside others marks dangling dangling' : List Lexeme} {body : List Node}
      {branches : List (String × List Node)} {otherwise : Option (List Node)} {blocks blocks' : List (List Lexeme)}
      (within : Account source inside body blocks dangling)
      (further : Branching source (args.getD "") others branches otherwise closed marks blocks' dangling') :
      Branching source condition (inside ++ ⟨.directive "elseif" args, between⟩ :: others)
        ((condition, body) :: branches) otherwise closed (⟨.directive "elseif" args, between⟩ :: marks)
        (blocks ++ blocks') (dangling ++ dangling')
end

/-- A directive without its counterpart, and what is said about it. -/
inductive Reports (lexeme : Lexeme) (diagnostic : Diagnostic) : Prop where
  | unclosed {opener : Opener} (role : lexeme.value.role = .opener opener) (place : diagnostic.span = lexeme.span)
      (message : diagnostic.message = "unclosed @" ++ opener.name)
  | unopened {closer : Closer} (role : lexeme.value.role = .closer closer) (place : diagnostic.span = lexeme.span)
      (message : diagnostic.message = "unexpected @" ++ closer.name ++ " without a matching opener")

variable {source : List Char}

/-- No block that begins in the tokens ends behind them. -/
def Apart (source : List Char) (tokens behind : List Lexeme) : Prop :=
  ∀ name args start opener inner, ⟨.directive name args, start⟩ :: inner <:+ tokens →
    roleOf name (args.getD "") = .opener opener →
    ∀ rest, (scanBlock source opener (args.getD "") start (inner ++ behind)).map Block.rest = some rest → behind <:+ rest

namespace Apart
variable {tokens tokens' behind : List Lexeme}

theorem nil : Apart source [] behind := by
  intro name args start opener inner suffix
  cases List.suffix_nil.1 suffix

theorem cons {lexeme : Lexeme}
    (here : ∀ name args opener, lexeme.value = .directive name args → roleOf name (args.getD "") = .opener opener →
      ∀ rest, (scanBlock source opener (args.getD "") lexeme.span (tokens ++ behind)).map Block.rest = some rest →
        behind <:+ rest)
    (apart : Apart source tokens behind) : Apart source (lexeme :: tokens) behind := by
  intro name args start opener inner suffix
  rcases List.suffix_cons_iff.1 suffix with same | further
  · cases same
    exact here name args opener rfl
  · exact apart name args start opener inner further

theorem closer (closer : Closer) (args : Option String) (span : Span) :
    Apart source [⟨.directive closer.name args, span⟩] behind := by
  refine cons ?_ nil
  rintro _ _ _ ⟨⟩ opens
  cases (roleOf_closer closer _).symm.trans opens

theorem suffix (apart : Apart source tokens behind) (within : tokens' <:+ tokens) : Apart source tokens' behind :=
  fun name args start opener inner inside => apart name args start opener inner (inside.trans within)

theorem append (first : Apart source tokens (tokens' ++ behind)) (second : Apart source tokens' behind) :
    Apart source (tokens ++ tokens') behind := by
  induction tokens with
  | nil => exact second
  | cons lexeme tokens ih =>
    refine cons ?_ (ih (first.suffix (List.suffix_cons _ _)))
    rintro name args opener same role rest closed
    obtain ⟨_, span⟩ := lexeme
    cases same
    have closed : (scanBlock source opener (args.getD "") span (tokens ++ (tokens' ++ behind))).map Block.rest =
        some rest := by rwa [← List.append_assoc]
    have beyond := first name args span opener tokens (List.suffix_refl _) role rest closed
    exact (List.suffix_append _ _).trans beyond

end Apart

theorem Scan.parts_of_ending {bound : Nat} {scan : Scan bound} {ending : Ending bound}
    (found : scan.ending = some ending) : scan.parts = (scan.nodes, scan.diagnostics, some ending.stopped) := by
  rw [Scan.parts, found, Option.map_some]

mutual
theorem Account.outline {tokens : List Lexeme} {nodes : List Node} {blocks : List (List Lexeme)}
    {dangling : List Lexeme} (account : Account source tokens nodes blocks dangling) : Outline source tokens nodes := by
  match account with
  | .nil => exact .nil
  | .text behind => exact .text behind.outline
  | .leaf leaf behind => exact .leaf leaf behind.outline
  | .literal structural behind => exact .literal structural behind.outline
  | .block encloses within behind => exact .block encloses within.outline behind.outline
  | .conditional branching behind => exact .conditional branching.division behind.outline

theorem Branching.division {condition : String} {tokens : List Lexeme} {branches : List (String × List Node)}
    {otherwise : Option (List Node)} {closed : Span} {marks : List Lexeme} {blocks : List (List Lexeme)}
    {dangling : List Lexeme}
    (branching : Branching source condition tokens branches otherwise closed marks blocks dangling) :
    Division source condition tokens branches otherwise closed := by
  match branching with
  | .last within => exact .last within.outline
  | .otherwise within ends => exact .otherwise within.outline ends.outline
  | .elseIf within further => exact .elseIf within.outline further.division
end

mutual
/-- What was read has an account, and no block in it went on behind the stop. -/
theorem account_of_scanBody (stops : List Closer) (tokens : List Lexeme) {nodes : List Node}
    {problems : List Diagnostic} {stop : Option Stop}
    (read : (scanBody source stops tokens).parts = (nodes, problems, stop)) :
    ∃ inside behind blocks dangling, tokens = inside ++ behind ∧ Account source inside nodes blocks dangling ∧
      List.Forall₂ Reports dangling problems ∧ Apart source inside behind ∧ Behind stops behind stop := by
  match tokens with
  | [] =>
    rw [scanBody] at read
    cases read
    exact ⟨[], [], [], [], rfl, .nil, .nil, .nil, rfl⟩
  | ⟨.text text, span⟩ :: rest =>
    rw [scanBody_text] at read
    cases read
    obtain ⟨inside, behind, blocks, dangling, rfl, account, reports, apart, stopped⟩ :=
      account_of_scanBody stops rest rfl
    exact ⟨_ :: inside, behind, blocks, dangling, rfl, .text account, reports, .cons nofun apart, stopped⟩
  | ⟨.echo expression raw, span⟩ :: rest =>
    rw [scanBody_leaf stops .echo] at read
    cases read
    obtain ⟨inside, behind, blocks, dangling, rfl, account, reports, apart, stopped⟩ :=
      account_of_scanBody stops rest rfl
    exact ⟨_ :: inside, behind, blocks, dangling, rfl, .leaf .echo account, reports, .cons nofun apart, stopped⟩
  | ⟨.directive name args, span⟩ :: rest =>
    cases role : roleOf name (args.getD "") with
    | standalone =>
      have leaf : Leaf source span (.directive name args) _ := leaf_of_standalone role
      rw [scanBody_leaf stops leaf] at read
      cases read
      obtain ⟨inside, behind, blocks, dangling, rfl, account, reports, apart, stopped⟩ :=
        account_of_scanBody stops rest rfl
      refine ⟨_ :: inside, behind, blocks, dangling, rfl, .leaf leaf account, reports, .cons ?_ apart, stopped⟩
      rintro _ _ _ ⟨⟩ opens
      cases role.symm.trans opens
    | closer closer =>
      by_cases ends : closer ∈ stops
      · cases name_of_closer role
        rw [scanBody_closer stops ends] at read
        cases read
        exact ⟨[], _, [], [], rfl, .nil, .nil, .nil, ends, args, rfl, rfl⟩
      · rw [scanBody_unopened stops role ends] at read
        cases read
        obtain ⟨inside, behind, blocks, dangling, rfl, account, reports, apart, stopped⟩ :=
          account_of_scanBody stops rest rfl
        refine ⟨_ :: inside, behind, blocks, _ :: dangling, rfl, .literal (by rw [role]; nofun) account,
          .cons (.unopened role rfl rfl) reports, .cons ?_ apart, stopped⟩
        rintro _ _ _ ⟨⟩ opens
        cases role.symm.trans opens
    | opener opener =>
      cases tried : scanBlock source opener (args.getD "") span rest with
      | none =>
        rw [scanBody_unclosed stops role tried] at read
        cases read
        obtain ⟨inside, behind, blocks, dangling, rfl, account, reports, apart, stopped⟩ :=
          account_of_scanBody stops rest rfl
        refine ⟨_ :: inside, behind, blocks, _ :: dangling, rfl, .literal (by rw [role]; nofun) account,
          .cons (.unclosed role rfl rfl) reports, .cons ?_ apart, stopped⟩
        rintro _ _ _ ⟨⟩ opens rest closed
        cases role.symm.trans opens
        rw [tried] at closed
        cases closed
      | some block =>
        have := block.shorter
        rw [scanBody_block stops role tried] at read
        cases read
        obtain ⟨inside, blocks, dangling, split, apart, reports, account⟩ := account_of_scanBlock rest role tried
        obtain ⟨more, behind, blocks', dangling', later, further, reports', beyond, stopped⟩ :=
          account_of_scanBody stops block.rest rfl
        refine ⟨⟨.directive name args, span⟩ :: inside ++ more, behind, blocks ++ blocks', dangling ++ dangling', ?_,
          account further, List.rel_append reports reports', ?_, stopped⟩
        · rw [split, later, List.cons_append, List.cons_append, List.append_assoc]
        · rw [later] at apart
          exact apart.append beyond
termination_by (tokens.length, 0)

theorem account_of_scanBlock {name : String} {args : Option String} {start : Span} (tokens : List Lexeme)
    {opener : Opener} (role : roleOf name (args.getD "") = .opener opener) {block : Block tokens.length}
    (tried : scanBlock source opener (args.getD "") start tokens = some block) :
    ∃ inside blocks dangling, tokens = inside ++ block.rest ∧
      Apart source (⟨.directive name args, start⟩ :: inside) block.rest ∧
      List.Forall₂ Reports dangling block.diagnostics ∧
      ∀ {rest nodes blocks' dangling'}, Account source rest nodes blocks' dangling' →
        Account source (⟨.directive name args, start⟩ :: (inside ++ rest)) (block.node.prepend nodes)
          (blocks ++ blocks') (dangling ++ dangling') := by
  -- The block itself ends where it was seen to end.
  have whole {inside : List Lexeme} (split : tokens = inside ++ block.rest) (apart : Apart source inside block.rest) :
      Apart source (⟨.directive name args, start⟩ :: inside) block.rest := by
    refine .cons ?_ apart
    rintro _ _ _ ⟨⟩ opens rest closed
    cases role.symm.trans opens
    rw [← split, tried] at closed
    cases closed
    exact List.suffix_refl _
  obtain ⟨rfl, bodied⟩ := name_of_opener role
  by_cases conditional : opener = .conditional
  · subst conditional
    rw [scanBlock, if_pos rfl] at tried
    obtain ⟨found, seen, rfl⟩ := Option.map_eq_some_iff.1 tried
    obtain ⟨inside, closed, marks, blocks, dangling, split, apart, reports, branching, stop⟩ :=
      branching_of_scanBranches tokens seen
    refine ⟨inside, (⟨.directive "if" args, start⟩ :: marks) :: blocks, dangling, split, whole split apart, reports,
      fun account => ?_⟩
    rw [← stop]
    exact .conditional branching account
  · rw [scanBlock, if_neg conditional] at tried
    obtain ⟨ending, seen, rfl⟩ := Option.map_eq_some_iff.1 tried
    obtain ⟨inside, _, blocks, dangling, split, account, reports, apart, ends, raw, _, rfl⟩ :=
      account_of_scanBody opener.stops tokens (Scan.parts_of_ending seen)
    have split' : tokens = inside ++ [⟨.directive ending.closer.name raw, ending.span⟩] ++ ending.rest := by
      simpa using split
    refine ⟨_, [⟨.directive opener.name args, start⟩, ⟨.directive ending.closer.name raw, ending.span⟩] :: blocks,
      dangling, split', whole split' (.append (by simpa using apart) (.closer _ _ _)), reports, fun behind => ?_⟩
    rw [blockNode_prepend, List.append_assoc]
    exact .block (encloses_blockNode _ conditional ends bodied) account behind
termination_by (tokens.length, 2)

theorem branching_of_scanBranches {condition : String} (tokens : List Lexeme) {found : Branches tokens.length}
    (seen : scanBranches source condition tokens = some found) :
    ∃ inside closed marks blocks dangling, tokens = inside ++ found.rest ∧ Apart source inside found.rest ∧
      List.Forall₂ Reports dangling found.diagnostics ∧
      Branching source condition inside found.branches found.otherwise closed marks blocks dangling ∧
      closed.stop = found.stop := by
  rw [scanBranches] at seen
  cases ended : (scanBody source Opener.conditional.stops tokens).ending with
  | none => simp [ended] at seen
  | some ending =>
    have := ending.shorter
    obtain ⟨inside, _, blocks, dangling, split, account, reports, apart, ends, raw, same, rfl⟩ :=
      account_of_scanBody Opener.conditional.stops tokens (Scan.parts_of_ending ended)
    simp only [ended] at seen
    split at seen
    next elseIf =>
      obtain ⟨others, later, rfl⟩ := Option.map_eq_some_iff.1 seen
      obtain ⟨more, closed, marks, blocks', dangling', splitOthers, beyond, reports', branching, stop⟩ :=
        branching_of_scanBranches ending.rest later
      rw [← same] at branching
      rw [splitOthers, elseIf] at split apart
      refine ⟨inside ++ ⟨.directive "elseif" raw, ending.span⟩ :: more, closed, _, _, _, ?_, ?_,
        List.rel_append reports reports', .elseIf account branching, stop⟩
      · simpa [Closer.name] using split
      · exact .append apart (.append (.closer .elseIf raw _) beyond)
    next noElseIf =>
      split at seen
      next otherwise =>
        obtain ⟨last, later, rfl⟩ := Option.map_eq_some_iff.1 seen
        obtain ⟨final, _, blocks', dangling', splitLast, finals, reports', beyond, ends, raw', _, rfl⟩ :=
          account_of_scanBody [.endIf] ending.rest (Scan.parts_of_ending later)
        rw [List.mem_singleton.1 ends] at splitLast beyond
        rw [splitLast, otherwise] at split apart
        refine ⟨inside ++ ⟨.directive "else" raw, ending.span⟩ ::
          (final ++ [⟨.directive "endif" raw', last.span⟩]), last.span, _, _, _, ?_, ?_,
          List.rel_append reports reports', .otherwise account finals, rfl⟩
        · simpa [Closer.name] using split
        · refine .append ?_ (.append (.closer .otherwise raw _) (.append beyond (.closer .endIf raw' _)))
          simpa [Closer.name] using apart
      next noOtherwise =>
        cases seen
        have endIf : ending.closer = .endIf := by
          simpa [Opener.stops, noElseIf, noOtherwise] using ends
        rw [endIf] at split apart
        refine ⟨inside ++ [⟨.directive "endif" raw, ending.span⟩], ending.span, _, _, _, ?_, ?_, reports,
          .last account, rfl⟩
        · simpa [Closer.name] using split
        · exact .append apart (.closer .endIf raw _)
termination_by (tokens.length, 1)
end

theorem outline_of_scanBody (stops : List Closer) (tokens : List Lexeme) {nodes : List Node}
    {problems : List Diagnostic} {stop : Option Stop}
    (read : (scanBody source stops tokens).parts = (nodes, problems, stop)) :
    ∃ inside behind, tokens = inside ++ behind ∧ Outline source inside nodes ∧ Apart source inside behind ∧
      Behind stops behind stop := by
  obtain ⟨inside, behind, _, _, split, account, _, apart, stopped⟩ := account_of_scanBody stops tokens read
  exact ⟨inside, behind, split, account.outline, apart, stopped⟩

theorem Behind.nil {behind : List Lexeme} {stop : Option Stop} (stopped : Behind [] behind stop) : behind = [] := by
  cases stop with
  | none => exact stopped
  | some found => exact absurd stopped.1 List.not_mem_nil

theorem account_of_read (source : String) : ∃ blocks dangling,
    Account source.toList (tokenize source) (read source).1 blocks dangling ∧
      List.Forall₂ Reports dangling (read source).2 := by
  obtain ⟨inside, behind, blocks, dangling, split, account, reports, _, stopped⟩ :=
    @account_of_scanBody source.toList [] (tokenize source) _ _ _ rfl
  rw [stopped.nil, List.append_nil] at split
  rw [read_eq_scanBody]
  exact ⟨blocks, dangling, split ▸ account, reports⟩

theorem outline_of_read (source : String) : Outline source.toList (tokenize source) (read source).1 := by
  obtain ⟨_, _, account, _⟩ := account_of_read source
  exact account.outline

end Stencil.Template
