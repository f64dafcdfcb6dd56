import Stencil.Proofs.InheritanceChain

/-! The order of sections. A section is printed when it is captured, and what it yields are
the sections captured before it. So sections of a template can change places as long as none
of them prints another; if one does, its place decides whether it finds the other. -/

namespace Stencil
open Render Template

variable {engine other : Engine} {scope : Scope}

namespace Section

/-- Prints the same whether or not a section of this name has been captured. -/
def Ignores (engine : Engine) (scope : Scope) (name : String) (part : Section) : Prop :=
  ∀ stack sections text,
    part.text engine scope stack (Fields.insert sections name text) = part.text engine scope stack sections

structure Independent (engine : Engine) (scope : Scope) (part part' : Section) : Prop where
  different : part.name scope ≠ part'.name scope
  ignores : part.Ignores engine scope (part'.name scope)
  ignored : part'.Ignores engine scope (part.name scope)

theorem Independent.symm {part part' : Section} (independent : Independent engine scope part part') :
    Independent engine scope part' part :=
  ⟨independent.different.symm, independent.ignored, independent.ignores⟩

end Section

namespace Template

/-- Whether the argument may stand for the name. Only a quoted name is known beforehand. -/
def mentions (name args : String) : Bool :=
  match Argument.stringLiteral? args.toList with
  | some literal => String.ofList literal = name
  | none => true

mutual
/-- Whether the section of this name may be printed by the node. -/
def Node.reads (name : String) : Node → Bool
  | .sectionBlock _ args body => mentions name args || anyReads name body
  | .sectionInline _ args _ => mentions name args
  | .yield _ args => mentions name ((Argument.list args).headD "")
  | .conditional _ branches none => branchReads name branches
  | .conditional _ branches (some body) => branchReads name branches || anyReads name body
  | .foreach _ _ body => anyReads name body
  | .counting _ _ body => anyReads name body
  | _ => false

def Node.anyReads (name : String) : List Node → Bool
  | [] => false
  | node :: rest => node.reads name || anyReads name rest

def Node.branchReads (name : String) : List (String × List Node) → Bool
  | [] => false
  | (_, body) :: branches => anyReads name body || branchReads name branches
end

end Template

namespace Render

section Unread
variable {below : Below engine} {sections : Sections} {name text : String}

theorem name_of_unmentioned {args : String} (unmentioned : mentions name args = false) :
    ∃ literal, literal ≠ name ∧ ∀ scope, nameArgument scope args = (pure literal : Render engine String) := by
  unfold mentions at unmentioned
  unfold nameArgument
  cases quoted : Argument.stringLiteral? args.toList with
  | some literal =>
    rw [quoted] at unmentioned
    exact ⟨String.ofList literal, of_decide_eq_false unmentioned, fun scope => rfl⟩
  | none =>
    rw [quoted] at unmentioned
    cases unmentioned

mutual
theorem node_unread (node : Node) (unread : node.reads name = false) (scope : Scope) :
    Render.node below (sections.insert name text) node scope = Render.node below sections node scope := by
  match node with
  | .text .. | .echo .. | .extension .. | .inclusion .. | .component .. | .slot .. | .directive .. => rfl
  | .sectionBlock _ args body =>
    obtain ⟨unmentioned, inside⟩ := Bool.or_eq_false_iff.1 unread
    obtain ⟨literal, different, named⟩ := name_of_unmentioned unmentioned
    rw [Render.node, Render.node, nodes_unread body inside scope, named]
    simp only [pure_bind, Fields.find?_insert, if_neg different]
  | .sectionInline _ args content =>
    obtain ⟨literal, different, named⟩ := name_of_unmentioned unread
    rw [Render.node, Render.node, named]
    simp only [pure_bind, Fields.find?_insert, if_neg different]
  | .yield _ args =>
    obtain ⟨literal, different, named⟩ := name_of_unmentioned unread
    rw [Render.node, Render.node, named]
    simp only [pure_bind, Fields.find?_insert, if_neg different]
  | .conditional _ branches none => exact firstBranch_unread branches unread _ scope
  | .conditional _ branches (some body) =>
    obtain ⟨here, inside⟩ := Bool.or_eq_false_iff.1 unread
    rw [Render.node, Render.node, firstBranch_unread branches here, funext (nodes_unread body inside)]
  | .foreach _ args body =>
    rw [Render.node, Render.node, funext (nodes_unread body unread)]
  | .counting _ args body =>
    rw [Render.node, Render.node, funext (nodes_unread body unread)]

theorem nodes_unread (body : List Node) (unread : Node.anyReads name body = false) (scope : Scope) :
    Render.nodes below (sections.insert name text) body scope = Render.nodes below sections body scope := by
  match body with
  | [] => rfl
  | node :: rest =>
    obtain ⟨here, later⟩ := Bool.or_eq_false_iff.1 unread
    rw [Render.nodes, Render.nodes, node_unread node here scope, nodes_unread rest later scope]

theorem firstBranch_unread (branches : List (String × List Node)) (unread : Node.branchReads name branches = false)
    (otherwise : Scope → Render engine String) (scope : Scope) :
    Render.firstBranch below (sections.insert name text) branches otherwise scope =
      Render.firstBranch below sections branches otherwise scope := by
  match branches with
  | [] => rfl
  | (condition, body) :: branches =>
    obtain ⟨here, later⟩ := Bool.or_eq_false_iff.1 unread
    rw [Render.firstBranch, Render.firstBranch, nodes_unread body here scope,
      firstBranch_unread branches later otherwise scope]
end

end Unread

end Render

namespace Section

def reads (name : String) : Section → Bool
  | .block _ body => Node.anyReads name body
  | .inline .. => false

theorem ignores_of_unread {name : String} {part : Section} (unread : part.reads name = false) :
    part.Ignores engine scope name := by
  intro stack sections text
  have same (below : Below engine) :
      part.content below (Fields.insert sections name text) scope = part.content below sections scope := by
    cases part with
    | block _ body => exact nodes_unread body unread scope
    | inline _ content => rfl
  exact congrArg (engine.settle stack) (funext same)

end Section

namespace Render

theorem captured_cons (stack : List String) (part : Section) (sections result : Sections)
    (rest : List (List String × Section)) :
    captured engine scope sections ((stack, part) :: rest) = .ok result ↔
      sections.contains (part.name scope) = true ∧ captured engine scope sections rest = .ok result ∨
      sections.contains (part.name scope) = false ∧ ∃ text, part.text engine scope stack sections = .ok text ∧
        captured engine scope (sections.insert (part.name scope) text) rest = .ok result := by
  rw [captured]
  cases sections.contains (part.name scope) <;> cases part.text engine scope stack sections <;> simp

theorem captured_swap {part part' : Section} (independent : part.Independent engine scope part')
    {stack : List String} {sections result : Sections} {rest : List (List String × Section)}
    (run : captured engine scope sections ((stack, part) :: (stack, part') :: rest) = .ok result) :
    captured engine scope sections ((stack, part') :: (stack, part) :: rest) = .ok result := by
  obtain ⟨different, ignores, ignored⟩ := independent
  simp only [captured_cons, Fields.contains_insert, different, different.symm, ignored _, ignores _, decide_false,
    Bool.false_or] at run ⊢
  rcases run with ⟨taken, inner⟩ | ⟨free, text, printed, inner⟩
  · rcases inner with ⟨taken', run⟩ | ⟨free', text', printed', run⟩
    · exact .inl ⟨taken', .inl ⟨taken, run⟩⟩
    · exact .inr ⟨free', text', printed', .inl ⟨taken, run⟩⟩
  · rcases inner with ⟨taken', run⟩ | ⟨free', text', printed', run⟩
    · exact .inl ⟨taken', .inr ⟨free, text, printed, run⟩⟩
    · rw [Fields.insert_comm sections different] at run
      exact .inr ⟨free', text', printed', .inr ⟨free, text, printed, run⟩⟩

theorem captured_perm {parts parts' : List Section} (perm : parts.Perm parts')
    (independent : parts.Pairwise (Section.Independent engine scope)) {stack : List String}
    {sections result : Sections} (run : captured engine scope sections (parts.map (stack, ·)) = .ok result) :
    captured engine scope sections (parts'.map (stack, ·)) = .ok result := by
  induction perm generalizing sections with
  | nil => exact run
  | cons part _ ih =>
    rw [List.map_cons, captured_cons] at run ⊢
    have later := (List.pairwise_cons.1 independent).2
    rcases run with ⟨taken, run⟩ | ⟨free, text, printed, run⟩
    · exact .inl ⟨taken, ih later run⟩
    · exact .inr ⟨free, text, printed, ih later run⟩
  | swap part part' rest =>
    have apart := (List.pairwise_cons.1 independent).1 part List.mem_cons_self
    exact captured_swap apart run
  | trans first _ ih ih' =>
    exact ih' ((first.pairwise_iff Section.Independent.symm).1 independent) (ih independent run)

theorem gathered_perm {before after : List Layer} {parent : String} {parts parts' : List Section}
    (perm : parts.Perm parts') (independent : parts.Pairwise (Section.Independent engine scope))
    {stack : List String} {sections : Sections} {result : List String × Sections}
    (run : gathered engine scope stack sections (before ++ ⟨parent, parts⟩ :: after) = .ok result) :
    gathered engine scope stack sections (before ++ ⟨parent, parts'⟩ :: after) = .ok result := by
  induction before generalizing stack sections with
  | nil =>
    rw [List.nil_append, gathered] at run ⊢
    split at run
    next => cases run
    next inner front =>
      rw [captured_perm perm independent front]
      exact run
  | cons layer before ih =>
    rw [List.cons_append, gathered] at run ⊢
    split at run
    next => cases run
    next inner front =>
      split at run
      · cases run
      next room =>
        rw [if_neg room]
        exact ih run

theorem Indifferent.reordered {before after : List Layer} {parent : String} {parts parts' : List Section}
    {body : List Node} (indifferent : Indifferent engine other scope (before ++ ⟨parent, parts⟩ :: after) body)
    (perm : parts.Perm parts') : Indifferent engine other scope (before ++ ⟨parent, parts'⟩ :: after) body where
  limit := indifferent.limit
  body := indifferent.body
  parts := by
    intro layer inside part present
    rcases List.mem_append.1 inside with early | here | ⟨_, late⟩
    · exact indifferent.parts layer (List.mem_append_left _ early) part present
    · exact indifferent.parts ⟨parent, parts⟩ (List.mem_append_right _ List.mem_cons_self) part
        (perm.mem_iff.2 present)
    · exact indifferent.parts layer (List.mem_append_right _ (List.mem_cons_of_mem _ late)) part present

theorem bind_eq_ok {α β : Type} {result : Except Halt α} {next : α → Except Halt β} {value : β} :
    result.bind next = .ok value ↔ ∃ inner, result = .ok inner ∧ next inner = .ok value := by
  cases result <;> simp [Except.bind]

end Render

/-- Nothing that is printed changes when independent sections of one template change places. -/
theorem Engine.printed_reordered {template template' outer outer' : Template} {before after : List Layer}
    {parent : String} {parts parts' : List Section}
    (chain : Chain engine scope 0 template (before ++ ⟨parent, parts⟩ :: after) outer)
    (chain' : Chain other scope 0 template' (before ++ ⟨parent, parts'⟩ :: after) outer')
    (perm : parts.Perm parts') (independent : parts.Pairwise (Section.Independent engine scope))
    (body : outer'.nodes = outer.nodes)
    (indifferent : Indifferent engine other scope (before ++ ⟨parent, parts⟩ :: after) outer.nodes)
    {stack : List String} (room : stack.length ≤ engine.config.maxDepth) (text : String) :
    other.printed scope stack template' = .ok text ↔ engine.printed scope stack template = .ok text := by
  have room' : stack.length ≤ other.config.maxDepth := by
    rw [indifferent.limit]
    exact room
  have independent' : parts'.Pairwise (Section.Independent engine scope) :=
    (perm.pairwise_iff Section.Independent.symm).1 independent
  rw [printed_eq chain room, printed_eq chain' room', (indifferent.reordered perm).gathered, body, bind_eq_ok,
    bind_eq_ok]
  simp only [indifferent.body]
  constructor
  · rintro ⟨reached, run, walk⟩
    exact ⟨reached, gathered_perm perm.symm independent' run, walk⟩
  · rintro ⟨reached, run, walk⟩
    exact ⟨reached, gathered_perm perm independent run, walk⟩

namespace Leaflet

def page (sections : List Node) : Template where
  name := "page"
  source := ""
  nodes := .extension default "'base'" :: sections
  diagnostics := []

def base : Template where
  name := "base"
  source := ""
  nodes := [.yield default "'a'", .yield default "'c'"]
  diagnostics := []

def press : Engine where
  templates := [("base", base)]

def quoting : Node := .sectionBlock default "'a'" [.text default "[", .yield default "'b'", .text default "]"]

def quoted : Node := .sectionBlock default "'b'" [.text default "B"]

def plain : Node := .sectionBlock default "'c'" [.text default "C"]

theorem chain (sections : List Node) :
    Chain press {} 0 (page sections) ([] ++ ⟨"base", (page sections).parts⟩ :: []) base := by
  have toBase : press.layoutName {} "'base'" = .ok "base" := Engine.layoutName_literal (by decide +kernel) rfl rfl
  exact .extending rfl (.inl rfl) toBase rfl (.outermost (.inl rfl))

theorem page_reordered :
    (press.printed {} ["page"] (page [plain, quoting]) = .ok "[]C" ↔
      press.printed {} ["page"] (page [quoting, plain]) = .ok "[]C") ∧
    press.printed {} ["page"] (page [quoting, plain]) = .ok "[]C" := by
  have independent : (page [quoting, plain]).parts.Pairwise (Section.Independent press {}) := by
    refine List.pairwise_pair.2 ⟨by decide +kernel, ?_, ?_⟩
    · exact Section.ignores_of_unread (by decide +kernel)
    · exact Section.ignores_of_unread (by decide +kernel)
  have perm : (page [quoting, plain]).parts.Perm (page [plain, quoting]).parts := List.Perm.swap _ _ _
  refine ⟨?_, by decide +kernel⟩
  exact Engine.printed_reordered (chain [quoting, plain]) (chain [plain, quoting]) perm independent rfl (.refl _ _)
    (by decide) _

/-- A section does not find those that stand behind it. -/
theorem order_shows :
    Chain press {} 0 (page [quoted, quoting]) [⟨"base", (page [quoted, quoting]).parts⟩] base ∧
      Chain press {} 0 (page [quoting, quoted]) [⟨"base", (page [quoting, quoted]).parts⟩] base ∧
      (page [quoted, quoting]).parts.Perm (page [quoting, quoted]).parts ∧
      ((page [quoting, quoted]).parts.map (Section.name {})).Nodup ∧
      press.printed {} ["page"] (page [quoted, quoting]) = .ok "[B]" ∧
      press.printed {} ["page"] (page [quoting, quoted]) = .ok "[]" :=
  ⟨chain _, chain _, List.Perm.swap _ _ _, by decide +kernel, by decide +kernel, by decide +kernel⟩

end Leaflet
end Stencil
