import Stencil.Proofs.TemplateScan

/-! The grammar of templates whose blocks are all closed, with the tree that each derivation
stands for. A template is read without diagnostics exactly when its tokens have a derivation,
and then the tree of the derivation is what is read. -/

namespace Stencil.Template
open Text

/-- Tokens that are a node by themselves. -/
inductive Leaf (source : List Char) (span : Span) : Token → Node → Prop where
  | echo {expression : String} {raw : Bool} :
      Leaf source span (.echo expression raw) (.echo span expression !raw)
  | extension {args : Option String} :
      Leaf source span (.directive "extends" args) (.extension span (args.getD ""))
  | yield {args : Option String} : Leaf source span (.directive "yield" args) (.yield span (args.getD ""))
  | inclusion {args : Option String} :
      Leaf source span (.directive "include" args) (.inclusion span (args.getD ""))
  | inlineSection {args : Option String} {first second : String} {others : List String}
      (parts : Argument.list (args.getD "") = first :: second :: others) :
      Leaf source span (.directive "section" args)
        (.sectionInline span first (String.intercalate ", " (second :: others)))
  | other {name : String} {args : Option String}
      (noCloser : ∀ closer : Closer, name ≠ closer.name) (noOpener : ∀ opener : Opener, name ≠ opener.name)
      (unknown : name ∉ ["extends", "yield", "include"]) :
      Leaf source span (.directive name args) (.directive span name args (String.ofList (slice source span)))

/-- The body of a component: the slots directly in it, and the source of all else in it. -/
inductive Divided (source : List Char) : List Node → List Char → List Slot → Prop where
  | nil : Divided source [] [] []
  | slot {span : Span} {slot : Slot} {nodes : List Node} {text : List Char} {slots : List Slot}
      (rest : Divided source nodes text slots) : Divided source (.slot span slot :: nodes) text (slot :: slots)
  | other {node : Node} {nodes : List Node} {text : List Char} {slots : List Slot}
      (noSlot : ∀ span slot, node ≠ .slot span slot) (rest : Divided source nodes text slots) :
      Divided source (node :: nodes) (slice source node.span ++ text) slots

/-- The blocks with a single body: the names that open and close them, and their nodes. -/
inductive Encloses (source : List Char) (opened closed : Span) (args : String) (body : List Node) :
    String → String → Node → Prop where
  | sectionBlock (bodied : (Argument.list args).length < 2) :
      Encloses source opened closed args body "section" "endsection"
        (.sectionBlock ⟨opened.start, closed.stop⟩ args body)
  | foreach :
      Encloses source opened closed args body "foreach" "endforeach"
        (.foreach ⟨opened.start, closed.stop⟩ args body)
  | counting :
      Encloses source opened closed args body "for" "endfor"
        (.counting ⟨opened.start, closed.stop⟩ args body)
  | slot :
      Encloses source opened closed args body "slot" "endslot"
        (.slot ⟨opened.start, closed.stop⟩ ⟨args, String.ofList (slice source ⟨opened.stop, closed.start⟩)⟩)
  | component {text : List Char} {slots : List Slot} (divided : Divided source body text slots) :
      Encloses source opened closed args body "component" "endcomponent"
        (.component ⟨opened.start, closed.stop⟩ args (String.ofList text) slots)

mutual
/-- The tokens of a body whose blocks are all closed, and its nodes. -/
inductive Items (source : List Char) : List Lexeme → List Node → Prop where
  | nil : Items source [] []
  | text {span : Span} {text : String} {rest : List Lexeme} {nodes : List Node}
      (apart : ∀ later after others, nodes = .text later after :: others → span.stop ≠ later.start)
      (behind : Items source rest nodes) :
      Items source (⟨.text text, span⟩ :: rest) (.text span text :: nodes)
  /-- Text that touches the text behind it becomes one with it. -/
  | joined {span : Span} {text after : String} {stop : Nat} {rest : List Lexeme} {nodes : List Node}
      (behind : Items source rest (.text ⟨span.stop, stop⟩ after :: nodes)) :
      Items source (⟨.text text, span⟩ :: rest) (.text ⟨span.start, stop⟩ (text ++ after) :: nodes)
  | leaf {token : Token} {span : Span} {node : Node} {rest : List Lexeme} {nodes : List Node}
      (leaf : Leaf source span token node) (behind : Items source rest nodes) :
      Items source (⟨token, span⟩ :: rest) (node :: nodes)
  | block {opens closes : String} {args ignored : Option String} {opened closed : Span}
      {inside rest : List Lexeme} {node : Node} {body nodes : List Node}
      (encloses : Encloses source opened closed (args.getD "") body opens closes node)
      (within : Items source inside body) (behind : Items source rest nodes) :
      Items source (⟨.directive opens args, opened⟩ :: (inside ++ ⟨.directive closes ignored, closed⟩ :: rest))
        (node :: nodes)
  | conditional {args : Option String} {opened closed : Span} {inside rest : List Lexeme}
      {branches : List (String × List Node)} {otherwise : Option (List Node)} {nodes : List Node}
      (chain : Chain source (args.getD "") inside branches otherwise closed)
      (behind : Items source rest nodes) :
      Items source (⟨.directive "if" args, opened⟩ :: (inside ++ rest))
        (.conditional ⟨opened.start, closed.stop⟩ branches otherwise :: nodes)

/-- The tokens of a conditional behind the directive with its first condition, up to and
with the one that closes it: its branches in order, each under its own condition, and the
body that is left when none of them holds, if there is one. -/
inductive Chain (source : List Char) : String → List Lexeme → List (String × List Node) →
    Option (List Node) → Span → Prop where
  | last {condition : String} {ignored : Option String} {closed : Span} {inside : List Lexeme}
      {body : List Node} (within : Items source inside body) :
      Chain source condition (inside ++ [⟨.directive "endif" ignored, closed⟩]) [(condition, body)] none closed
  | otherwise {condition : String} {ignored ignored' : Option String} {between closed : Span}
      {inside final : List Lexeme} {body other : List Node} (within : Items source inside body)
      (ends : Items source final other) :
      Chain source condition (inside ++ ⟨.directive "else" ignored, between⟩ ::
        (final ++ [⟨.directive "endif" ignored', closed⟩])) [(condition, body)] (some other) closed
  | elseIf {condition : String} {args : Option String} {between closed : Span}
      {inside others : List Lexeme} {body : List Node} {branches : List (String × List Node)}
      {otherwise : Option (List Node)} (within : Items source inside body)
      (further : Chain source (args.getD "") others branches otherwise closed) :
      Chain source condition (inside ++ ⟨.directive "elseif" args, between⟩ :: others)
        ((condition, body) :: branches) otherwise closed
end

variable {source : List Char}

theorem leaf_of_standalone {span : Span} {name : String} {args : Option String}
    (role : roleOf name (args.getD "") = .standalone) :
    Leaf source span (.directive name args)
      (standaloneNode span name args (String.ofList (slice source span))) := by
  rcases roleOf_cases name (args.getD "") with
    ⟨closer, rfl, closes⟩ | ⟨opener, rfl, _, opens⟩ | ⟨rfl, inline, _⟩ | ⟨noCloser, noOpener, _⟩
  · rw [closes] at role
    cases role
  · rw [opens] at role
    cases role
  · have several : 2 ≤ (Argument.list (args.getD "")).length := of_decide_eq_true inline
    match parts : Argument.list (args.getD "") with
    | [] => simp [parts] at several
    | [only] => simp [parts] at several
    | first :: second :: others =>
      have node : standaloneNode span "section" args (String.ofList (slice source span)) =
          .sectionInline span first (String.intercalate ", " (second :: others)) := by
        simp [standaloneNode, parts]
      rw [node]
      exact .inlineSection parts
  · by_cases extension : name = "extends"
    · subst extension
      exact .extension
    by_cases yields : name = "yield"
    · subst yields
      exact .yield
    by_cases inclusion : name = "include"
    · subst inclusion
      exact .inclusion
    have noSection : name ≠ "section" := noOpener .sectionBlock
    have node : standaloneNode span name args (String.ofList (slice source span)) =
        .directive span name args (String.ofList (slice source span)) := by
      simp [standaloneNode, extension, yields, inclusion, noSection]
    rw [node]
    exact .other noCloser noOpener (by simp [extension, yields, inclusion])

theorem Leaf.standalone {span : Span} {name : String} {args : Option String} {node : Node}
    (leaf : Leaf source span (.directive name args) node) :
    roleOf name (args.getD "") = .standalone ∧
      standaloneNode span name args (String.ofList (slice source span)) = node := by
  cases leaf with
  | extension | yield | inclusion => exact ⟨rfl, rfl⟩
  | inlineSection parts =>
    have inline : isInlineSection (args.getD "") = true := by simp [isInlineSection, parts]
    exact ⟨(roleOf_section _).trans (by rw [inline]; rfl), by simp [standaloneNode, parts]⟩
  | other noCloser noOpener unknown =>
    have noSection : name ≠ "section" := noOpener .sectionBlock
    simp only [List.mem_cons, List.not_mem_nil, or_false, not_or] at unknown
    exact ⟨roleOf_other _ noCloser noOpener, by simp [standaloneNode, unknown, noSection]⟩

theorem divided_nodes (nodes : List Node) :
    Divided source nodes ((nodes.filter fun node => node.slot?.isNone).flatMap fun node => slice source node.span)
      (nodes.filterMap Node.slot?) := by
  induction nodes with
  | nil => exact .nil
  | cons node nodes ih =>
    cases node with
    | slot span slot => exact .slot ih
    | _ => exact .other (by simp) ih

theorem Divided.parts {nodes : List Node} {text : List Char} {slots : List Slot}
    (divided : Divided source nodes text slots) :
    String.ofList text = defaultSlot source nodes ∧ slots = nodes.filterMap Node.slot? := by
  suffices both : text = ((nodes.filter fun node => node.slot?.isNone).flatMap fun node =>
      slice source node.span) ∧ slots = nodes.filterMap Node.slot? from
    ⟨congrArg String.ofList both.1, both.2⟩
  induction divided with
  | nil => exact ⟨rfl, rfl⟩
  | slot rest ih =>
    obtain ⟨rfl, rfl⟩ := ih
    exact ⟨rfl, rfl⟩
  | @other node nodes text slots noSlot rest ih =>
    obtain ⟨rfl, rfl⟩ := ih
    cases node with
    | slot span slot => exact absurd rfl (noSlot span slot)
    | _ => exact ⟨rfl, rfl⟩

theorem encloses_blockNode {opener : Opener} {closer : Closer} {opened closed : Span} {args : String}
    (body : List Node) (single : opener ≠ .conditional) (stops : closer ∈ opener.stops)
    (bodied : opener = .sectionBlock → isInlineSection args = false) :
    Encloses source opened closed args body opener.name closer.name
      (blockNode source opener args opened closed body) := by
  cases opener with
  | conditional => exact absurd rfl single
  | sectionBlock =>
    cases List.mem_singleton.1 stops
    exact .sectionBlock (Nat.lt_of_not_le (of_decide_eq_false (bodied rfl)))
  | foreach =>
    cases List.mem_singleton.1 stops
    exact .foreach
  | counting =>
    cases List.mem_singleton.1 stops
    exact .counting
  | slot =>
    cases List.mem_singleton.1 stops
    exact .slot
  | component =>
    cases List.mem_singleton.1 stops
    exact .component (divided_nodes body)

theorem Encloses.blockNode {opened closed : Span} {args : String} {body : List Node}
    {opens closes : String} {node : Node} (encloses : Encloses source opened closed args body opens closes node) :
    ∃ (opener : Opener) (closer : Closer), opener ≠ .conditional ∧ roleOf opens args = .opener opener ∧
      closer ∈ opener.stops ∧ closes = closer.name ∧ node = blockNode source opener args opened closed body := by
  cases encloses with
  | sectionBlock bodied =>
    have noInline : isInlineSection args = false := decide_eq_false (Nat.not_le.2 bodied)
    exact ⟨.sectionBlock, .endSection, by decide, @roleOf_opener .sectionBlock args fun _ => noInline,
      by decide, rfl, rfl⟩
  | foreach => exact ⟨.foreach, .endForeach, by decide, rfl, by decide, rfl, rfl⟩
  | counting => exact ⟨.counting, .endCounting, by decide, rfl, by decide, rfl, rfl⟩
  | slot => exact ⟨.slot, .endSlot, by decide, rfl, by decide, rfl, rfl⟩
  | component divided =>
    obtain ⟨text, slots⟩ := divided.parts
    exact ⟨.component, .endComponent, by decide, rfl, by decide, rfl, by rw [text, slots]; rfl⟩

theorem Leaf.prepend {span : Span} {token : Token} {node : Node} (leaf : Leaf source span token node)
    (nodes : List Node) : node.prepend nodes = node :: nodes := by
  cases leaf <;> rfl

theorem Encloses.prepend {opened closed : Span} {args : String} {body : List Node} {opens closes : String}
    {node : Node} (encloses : Encloses source opened closed args body opens closes node) (nodes : List Node) :
    node.prepend nodes = node :: nodes := by
  cases encloses <;> rfl

theorem Items.prepend_text {span : Span} {text : String} {rest : List Lexeme} {nodes : List Node}
    (behind : Items source rest nodes) :
    Items source (⟨.text text, span⟩ :: rest) ((Node.text span text).prepend nodes) := by
  match nodes, behind with
  | .text later after :: others, behind =>
    by_cases touching : span.stop = later.start
    · obtain ⟨start, stop⟩ := later
      cases touching
      simpa [Node.prepend] using Items.joined behind
    · have alone : (Node.text span text).prepend (.text later after :: others) =
          .text span text :: .text later after :: others := by simp [Node.prepend, touching]
      rw [alone]
      refine .text ?_ behind
      rintro other value more same
      cases same
      exact touching
  | [], behind => exact .text (fun _ _ _ impossible => by cases impossible) behind
  | .echo .. :: _, behind | .extension .. :: _, behind | .sectionBlock .. :: _, behind
  | .sectionInline .. :: _, behind | .yield .. :: _, behind | .conditional .. :: _, behind
  | .foreach .. :: _, behind | .counting .. :: _, behind | .inclusion .. :: _, behind
  | .component .. :: _, behind | .slot .. :: _, behind | .directive .. :: _, behind =>
    exact .text (fun _ _ _ impossible => by cases impossible) behind

/-! What is read does not depend on how long the tokens before it were, so two scans are
compared without the bounds that they carry. -/

abbrev Stop := Closer × String × Span × List Lexeme

def Ending.stopped {bound : Nat} (ending : Ending bound) : Stop :=
  (ending.closer, ending.args, ending.span, ending.rest)

/-- The nodes and diagnostics of a scan, and where it stopped. -/
def Scan.parts {bound : Nat} (scan : Scan bound) : List Node × List Diagnostic × Option Stop :=
  (scan.nodes, scan.diagnostics, scan.ending.map Ending.stopped)

@[simp] theorem Scan.parts_prepend {small large : Nat} (scan : Scan small) (le : small ≤ large) (node : Node)
    (diagnostics : List Diagnostic) :
    (scan.prepend le node diagnostics).parts =
      (node.prepend scan.parts.1, diagnostics ++ scan.parts.2.1, scan.parts.2.2) := by
  simp only [Scan.parts, Scan.prepend, Option.map_map]
  rfl

variable (stops : List Closer)

theorem scanBody_text (span : Span) (text : String) (rest : List Lexeme) :
    (scanBody source stops (⟨.text text, span⟩ :: rest)).parts =
      ((Node.text span text).prepend (scanBody source stops rest).parts.1,
        (scanBody source stops rest).parts.2) := by
  rw [scanBody]
  simp

theorem scanBody_leaf {span : Span} {token : Token} {node : Node} (leaf : Leaf source span token node)
    (rest : List Lexeme) :
    (scanBody source stops (⟨token, span⟩ :: rest)).parts =
      (node :: (scanBody source stops rest).parts.1, (scanBody source stops rest).parts.2) := by
  rw [← leaf.prepend, scanBody]
  match token, leaf with
  | .echo expression raw, .echo => simp
  | .directive name args, leaf =>
    obtain ⟨role, same⟩ := leaf.standalone
    simp only [role, same, Scan.parts_prepend, List.nil_append]

theorem scanBody_closer {closer : Closer} (stop : closer ∈ stops) (args : Option String) (span : Span)
    (rest : List Lexeme) :
    (scanBody source stops (⟨.directive closer.name args, span⟩ :: rest)).parts =
      ([], [], some (closer, args.getD "", span, rest)) := by
  rw [scanBody]
  simp only [roleOf_closer, if_pos stop]
  rfl

theorem scanBody_block {name : String} {args : Option String} {opener : Opener}
    (role : roleOf name (args.getD "") = .opener opener) {span : Span} {rest : List Lexeme}
    {block : Block rest.length} (tried : scanBlock source opener (args.getD "") span rest = some block) :
    (scanBody source stops (⟨.directive name args, span⟩ :: rest)).parts =
      (block.node.prepend (scanBody source stops block.rest).parts.1,
        block.diagnostics ++ (scanBody source stops block.rest).parts.2.1,
        (scanBody source stops block.rest).parts.2.2) := by
  rw [scanBody]
  simp only [role]
  rw [tried]
  simp

theorem scanBody_unopened {name : String} {args : Option String} {closer : Closer}
    (role : roleOf name (args.getD "") = .closer closer) (passed : closer ∉ stops) (span : Span) (rest : List Lexeme) :
    (scanBody source stops (⟨.directive name args, span⟩ :: rest)).parts =
      ((literally source span).prepend (scanBody source stops rest).parts.1,
        ⟨span, .unopened closer.name⟩ :: (scanBody source stops rest).parts.2.1,
        (scanBody source stops rest).parts.2.2) := by
  rw [scanBody]
  simp [role, passed]

theorem scanBody_unclosed {name : String} {args : Option String} {opener : Opener}
    (role : roleOf name (args.getD "") = .opener opener) {span : Span} {rest : List Lexeme}
    (vain : scanBlock source opener (args.getD "") span rest = none) :
    (scanBody source stops (⟨.directive name args, span⟩ :: rest)).parts =
      ((literally source span).prepend (scanBody source stops rest).parts.1,
        ⟨span, .unclosed opener.name⟩ :: (scanBody source stops rest).parts.2.1,
        (scanBody source stops rest).parts.2.2) := by
  rw [scanBody]
  simp only [role]
  rw [vain]
  simp

theorem scanBlock_of_ending {opener : Opener} (single : opener ≠ .conditional) {tokens : List Lexeme}
    {ending : Ending tokens.length} (found : (scanBody source opener.stops tokens).ending = some ending)
    (args : String) (start : Span) :
    scanBlock source opener args start tokens =
      some ⟨blockNode source opener args start ending.span (scanBody source opener.stops tokens).nodes,
        (scanBody source opener.stops tokens).diagnostics, ending.rest, ending.shorter⟩ := by
  rw [scanBlock, if_neg single]
  simp only [found, Option.map_some]

theorem Scan.stopped {bound : Nat} {scan : Scan bound} {nodes : List Node} {closer : Closer} {args : String}
    {span : Span} {rest : List Lexeme} (parts : scan.parts = (nodes, [], some (closer, args, span, rest))) :
    ∃ shorter, scan.ending = some ⟨closer, args, span, rest, shorter⟩ ∧ scan.nodes = nodes ∧
      scan.diagnostics = [] := by
  simp only [Scan.parts, Prod.mk.injEq] at parts
  obtain ⟨nodes, clean, stop⟩ := parts
  obtain ⟨⟨_, _, _, _, shorter⟩, found, same⟩ := Option.map_eq_some_iff.1 stop
  cases same
  exact ⟨shorter, found, nodes, clean⟩

mutual
/-- Whatever stops a scan behind a word of the grammar, it reads the whole word first: no
closer inside the word is left for the blocks around it. -/
theorem scanBody_items {tokens : List Lexeme} {nodes : List Node} (items : Items source tokens nodes)
    (stops : List Closer) (rest : List Lexeme) (stop : Option Stop)
    (stopped : (scanBody source stops rest).parts = ([], [], stop)) :
    (scanBody source stops (tokens ++ rest)).parts = (nodes, [], stop) := by
  match items with
  | .nil => exact stopped
  | @Items.text _ span text tokens nodes apart behind =>
    have onwards := scanBody_items behind stops rest stop stopped
    rw [List.cons_append, scanBody_text, onwards]
    cases nodes with
    | nil => rfl
    | cons node others =>
      cases node with
      | text later after => simp [Node.prepend, apart later after others rfl]
      | _ => rfl
  | .joined behind =>
    have onwards := scanBody_items behind stops rest stop stopped
    rw [List.cons_append, scanBody_text, onwards]
    simp [Node.prepend]
  | .leaf leaf behind =>
    have onwards := scanBody_items behind stops rest stop stopped
    rw [List.cons_append, scanBody_leaf stops leaf, onwards]
  | @Items.block _ opens closes args ignored opened closed inside others node body nodes encloses within behind =>
    obtain ⟨opener, closer, single, role, ends, rfl, node⟩ := encloses.blockNode
    have onwards := scanBody_items behind stops rest stop stopped
    have inner := scanBody_items within opener.stops (⟨.directive closer.name ignored, closed⟩ :: (others ++ rest))
      _ (scanBody_closer opener.stops ends ignored closed (others ++ rest))
    obtain ⟨shorter, found, nodes, clean⟩ := Scan.stopped inner
    have tried := scanBlock_of_ending single found (args.getD "") opened
    rw [List.cons_append, List.append_assoc, List.cons_append, scanBody_block stops role tried, onwards]
    simp only [nodes, clean, ← node, encloses.prepend, List.nil_append]
  | @Items.conditional _ args opened closed inside others branches otherwise nodes chain behind =>
    have onwards := scanBody_items behind stops rest stop stopped
    obtain ⟨shorter, found⟩ := scanBranches_chain chain (rfl : _ = inside ++ (others ++ rest))
    have tried : scanBlock source .conditional (args.getD "") opened (inside ++ (others ++ rest)) =
        some ⟨.conditional ⟨opened.start, closed.stop⟩ branches otherwise, [], others ++ rest, shorter⟩ := by
      rw [scanBlock, if_pos rfl, found]
      rfl
    have role : roleOf "if" (args.getD "") = .opener .conditional := rfl
    rw [List.cons_append, List.append_assoc, scanBody_block stops role tried, onwards]
    rfl

theorem scanBranches_chain {condition : String} {tokens : List Lexeme} {branches : List (String × List Node)}
    {otherwise : Option (List Node)} {closed : Span}
    (chain : Chain source condition tokens branches otherwise closed) {all rest : List Lexeme}
    (split : all = tokens ++ rest) :
    ∃ shorter, scanBranches source condition all =
      some ⟨branches, otherwise, [], closed.stop, rest, shorter⟩ := by
  match chain with
  | @Chain.last _ _ ignored closed inside body within =>
    have inner := scanBody_items within Opener.conditional.stops (⟨.directive "endif" ignored, closed⟩ :: rest)
      _ (scanBody_closer _ (by decide : Closer.endIf ∈ Opener.conditional.stops) ignored closed rest)
    obtain ⟨shorter, found, nodes, clean⟩ := Scan.stopped inner
    rw [List.append_assoc, List.singleton_append] at split
    subst split
    refine ⟨shorter, ?_⟩
    rw [scanBranches]
    simp [found, nodes, clean]
  | @Chain.otherwise _ condition ignored ignored' between closed inside final body other within ends =>
    have inner := scanBody_items within Opener.conditional.stops
      (⟨.directive "else" ignored, between⟩ :: (final ++ ⟨.directive "endif" ignored', closed⟩ :: rest))
      _ (scanBody_closer _ (by decide : Closer.otherwise ∈ Opener.conditional.stops) ignored between _)
    obtain ⟨shorter, found, nodes, clean⟩ := Scan.stopped inner
    have last := scanBody_items ends [.endIf] (⟨.directive "endif" ignored', closed⟩ :: rest)
      _ (scanBody_closer _ (by decide : Closer.endIf ∈ [Closer.endIf]) ignored' closed rest)
    obtain ⟨shorter', found', nodes', clean'⟩ := Scan.stopped last
    rw [List.append_assoc, List.cons_append, List.append_assoc, List.singleton_append] at split
    subst split
    refine ⟨Nat.lt_trans shorter' shorter, ?_⟩
    rw [scanBranches]
    simp [found, nodes, clean, found', nodes', clean']
  | @Chain.elseIf _ condition args between closed inside others body branches otherwise within further =>
    have inner := scanBody_items within Opener.conditional.stops
      (⟨.directive "elseif" args, between⟩ :: (others ++ rest))
      _ (scanBody_closer _ (by decide : Closer.elseIf ∈ Opener.conditional.stops) args between _)
    obtain ⟨shorter, found, nodes, clean⟩ := Scan.stopped inner
    obtain ⟨shorter', found'⟩ := scanBranches_chain further (rfl : _ = others ++ rest)
    rw [List.append_assoc, List.cons_append] at split
    subst split
    refine ⟨Nat.lt_trans shorter' shorter, ?_⟩
    rw [scanBranches]
    simp [found, nodes, clean, found']
end

theorem blockNode_prepend {source : List Char} {opener : Opener} {args : String} {start stop : Span}
    {body : List Node} (nodes : List Node) :
    (blockNode source opener args start stop body).prepend nodes =
      blockNode source opener args start stop body :: nodes := by
  cases opener <;> rfl

/-- What stands behind a word where a scan stopped: one of the stops, or nothing. -/
def Behind (stops : List Closer) (behind : List Lexeme) : Option Stop → Prop
  | none => behind = []
  | some (closer, args, span, rest) =>
    closer ∈ stops ∧ ∃ raw : Option String, raw.getD "" = args ∧ behind = ⟨.directive closer.name raw, span⟩ :: rest

mutual
/-- Without diagnostics no opener was given up and no closer was passed over, so what was
read up to the stop is a word. -/
theorem items_of_scanBody (stops : List Closer) (tokens : List Lexeme) {nodes : List Node} {stop : Option Stop}
    (clean : (scanBody source stops tokens).parts = (nodes, [], stop)) :
    ∃ inside behind, tokens = inside ++ behind ∧ Items source inside nodes ∧ Behind stops behind stop := by
  match tokens with
  | [] =>
    rw [scanBody] at clean
    cases clean
    exact ⟨[], [], rfl, .nil, rfl⟩
  | ⟨.text text, span⟩ :: rest =>
    rcases seen : (scanBody source stops rest).parts with ⟨others, problems, further⟩
    rw [scanBody_text, seen] at clean
    cases clean
    obtain ⟨inside, behind, rfl, items, stopped⟩ := items_of_scanBody stops rest seen
    exact ⟨_ :: inside, behind, rfl, items.prepend_text, stopped⟩
  | ⟨.echo expression raw, span⟩ :: rest =>
    rcases seen : (scanBody source stops rest).parts with ⟨others, problems, further⟩
    rw [scanBody_leaf stops .echo, seen] at clean
    cases clean
    obtain ⟨inside, behind, rfl, items, stopped⟩ := items_of_scanBody stops rest seen
    exact ⟨_ :: inside, behind, rfl, .leaf .echo items, stopped⟩
  | ⟨.directive name args, span⟩ :: rest =>
    cases role : roleOf name (args.getD "") with
    | standalone =>
      have leaf : Leaf source span (.directive name args) _ := leaf_of_standalone role
      rcases seen : (scanBody source stops rest).parts with ⟨others, problems, further⟩
      rw [scanBody_leaf stops leaf, seen] at clean
      cases clean
      obtain ⟨inside, behind, rfl, items, stopped⟩ := items_of_scanBody stops rest seen
      exact ⟨_ :: inside, behind, rfl, .leaf leaf items, stopped⟩
    | closer closer =>
      cases name_of_closer role
      by_cases ends : closer ∈ stops
      · rw [scanBody_closer stops ends] at clean
        cases clean
        exact ⟨[], _, rfl, .nil, ends, args, rfl, rfl⟩
      · rw [scanBody] at clean
        simp [role, ends] at clean
    | opener opener =>
      cases tried : scanBlock source opener (args.getD "") span rest with
      | none =>
        rw [scanBody] at clean
        simp only [role] at clean
        rw [tried] at clean
        simp at clean
      | some block =>
        have := block.shorter
        rcases seen : (scanBody source stops block.rest).parts with ⟨others, problems, further⟩
        rw [scanBody_block stops role tried, seen] at clean
        simp only [Prod.mk.injEq, List.append_eq_nil_iff] at clean
        obtain ⟨rfl, ⟨spotless, rfl⟩, rfl⟩ := clean
        obtain ⟨inside, split, word⟩ := items_of_scanBlock rest role tried spotless
        obtain ⟨more, behind, later, items, stopped⟩ := items_of_scanBody stops block.rest seen
        refine ⟨⟨.directive name args, span⟩ :: (inside ++ more), behind, ?_, word items, stopped⟩
        rw [split, later, List.cons_append, List.append_assoc]
termination_by (tokens.length, 0)

theorem items_of_scanBlock {name : String} {args : Option String} {start : Span} (tokens : List Lexeme)
    {opener : Opener} (role : roleOf name (args.getD "") = .opener opener) {block : Block tokens.length}
    (tried : scanBlock source opener (args.getD "") start tokens = some block) (clean : block.diagnostics = []) :
    ∃ inside, tokens = inside ++ block.rest ∧ ∀ {rest nodes}, Items source rest nodes →
      Items source (⟨.directive name args, start⟩ :: (inside ++ rest)) (block.node.prepend nodes) := by
  obtain ⟨rfl, bodied⟩ := name_of_opener role
  by_cases conditional : opener = .conditional
  · subst conditional
    rw [scanBlock, if_pos rfl] at tried
    obtain ⟨found, seen, rfl⟩ := Option.map_eq_some_iff.1 tried
    obtain ⟨inside, closed, split, chain, stop⟩ := chain_of_scanBranches tokens seen clean
    refine ⟨inside, split, fun items => ?_⟩
    rw [← stop]
    exact .conditional chain items
  · rw [scanBlock, if_neg conditional] at tried
    obtain ⟨ending, seen, rfl⟩ := Option.map_eq_some_iff.1 tried
    have parts : (scanBody source opener.stops tokens).parts =
        ((scanBody source opener.stops tokens).nodes, [], some ending.stopped) :=
      Prod.ext rfl (Prod.ext clean (by simp [Scan.parts, seen]))
    obtain ⟨inside, _, split, items, ends, raw, _, rfl⟩ := items_of_scanBody opener.stops tokens parts
    refine ⟨inside ++ [⟨.directive ending.closer.name raw, ending.span⟩], by simpa using split, fun behind => ?_⟩
    rw [blockNode_prepend, List.append_assoc]
    exact .block (encloses_blockNode _ conditional ends bodied) items behind
termination_by (tokens.length, 2)

theorem chain_of_scanBranches {condition : String} (tokens : List Lexeme) {found : Branches tokens.length}
    (seen : scanBranches source condition tokens = some found) (clean : found.diagnostics = []) :
    ∃ inside closed, tokens = inside ++ found.rest ∧
      Chain source condition inside found.branches found.otherwise closed ∧ closed.stop = found.stop := by
  rw [scanBranches] at seen
  cases ended : (scanBody source Opener.conditional.stops tokens).ending with
  | none => simp [ended] at seen
  | some ending =>
    have := ending.shorter
    have parts (spotless : (scanBody source Opener.conditional.stops tokens).diagnostics = []) :
        (scanBody source Opener.conditional.stops tokens).parts =
          ((scanBody source Opener.conditional.stops tokens).nodes, [], some ending.stopped) :=
      Prod.ext rfl (Prod.ext spotless (by simp [Scan.parts, ended]))
    simp only [ended] at seen
    split at seen
    next elseIf =>
      obtain ⟨others, later, rfl⟩ := Option.map_eq_some_iff.1 seen
      obtain ⟨spotless, cleanOthers⟩ := List.append_eq_nil_iff.1 clean
      obtain ⟨inside, _, split, items, _, raw, same, rfl⟩ := items_of_scanBody _ tokens (parts spotless)
      obtain ⟨more, closed, splitOthers, chain, stop⟩ := chain_of_scanBranches ending.rest later cleanOthers
      rw [← same] at chain
      refine ⟨inside ++ ⟨.directive "elseif" raw, ending.span⟩ :: more, closed, split.trans ?_,
        .elseIf items chain, stop⟩
      rw [elseIf, List.append_assoc, List.cons_append, ← splitOthers]
      rfl
    next noElseIf =>
      split at seen
      next otherwise =>
        obtain ⟨last, later, rfl⟩ := Option.map_eq_some_iff.1 seen
        obtain ⟨spotless, cleanLast⟩ := List.append_eq_nil_iff.1 clean
        have lastParts : (scanBody source [.endIf] ending.rest).parts =
            ((scanBody source [.endIf] ending.rest).nodes, [], some last.stopped) :=
          Prod.ext rfl (Prod.ext cleanLast (by simp [Scan.parts, later]))
        obtain ⟨inside, _, split, items, _, raw, _, rfl⟩ := items_of_scanBody _ tokens (parts spotless)
        obtain ⟨final, _, splitLast, finals, ends, raw', _, rfl⟩ := items_of_scanBody _ ending.rest lastParts
        refine ⟨inside ++ ⟨.directive "else" raw, ending.span⟩ ::
          (final ++ [⟨.directive "endif" raw', last.span⟩]), last.span, split.trans ?_, .otherwise items finals, rfl⟩
        rw [otherwise, List.append_assoc, List.cons_append, List.append_assoc, List.singleton_append]
        rw [List.mem_singleton.1 ends] at splitLast
        exact congrArg (inside ++ _ :: ·) splitLast
      next noOtherwise =>
        cases seen
        obtain ⟨inside, _, split, items, ends, raw, _, rfl⟩ := items_of_scanBody _ tokens (parts clean)
        have endIf : ending.closer = .endIf := by
          simpa [Opener.stops, noElseIf, noOtherwise] using ends
        refine ⟨inside ++ [⟨.directive "endif" raw, ending.span⟩], ending.span, split.trans ?_, .last items, rfl⟩
        rw [endIf, List.append_assoc]
        rfl
termination_by (tokens.length, 1)
end

theorem items_iff_read {source : String} {nodes : List Node} :
    Items source.toList (tokenize source) nodes ↔ read source = (nodes, []) := by
  rw [read_eq_scanBody]
  constructor
  · intro items
    have parts := scanBody_items items [] [] none (by rw [scanBody]; rfl)
    rw [List.append_nil] at parts
    simp only [Scan.parts, Prod.mk.injEq] at parts
    exact Prod.ext parts.1 parts.2.1
  · intro clean
    simp only [Prod.mk.injEq] at clean
    have parts : (scanBody source.toList [] (tokenize source)).parts =
        (nodes, [], (scanBody source.toList [] (tokenize source)).parts.2.2) :=
      Prod.ext clean.1 (Prod.ext clean.2 rfl)
    obtain ⟨inside, behind, split, items, stopped⟩ := items_of_scanBody [] (tokenize source) parts
    cases stop : (scanBody source.toList [] (tokenize source)).parts.2.2 with
    | none =>
      rw [stop] at stopped
      cases stopped
      rwa [split, List.append_nil]
    | some found =>
      rw [stop] at stopped
      exact absurd stopped.1 List.not_mem_nil

/-- Reading reports nothing exactly when the tokens are a word of the grammar, and what is
read then is the tree of its derivation, of which there is only one. -/
theorem clean_iff_word (source : String) :
    ((read source).2 = [] ↔ ∃ nodes, Items source.toList (tokenize source) nodes) ∧
      ∀ nodes, Items source.toList (tokenize source) nodes ↔ read source = (nodes, []) := by
  refine ⟨⟨fun clean => ⟨(read source).1, items_iff_read.2 (Prod.ext rfl clean)⟩, ?_⟩, fun _ => items_iff_read⟩
  rintro ⟨nodes, items⟩
  rw [items_iff_read.1 items]

end Stencil.Template
