import Stencil.Proofs.DoubledSigns
import Stencil.Proofs.RenderByName
import Stencil.Proofs.TemplateNames

/-! How a reference is taken. An alias comes first, whatever goes by the whole reference; after that it counts what
there is under the reference, and only then what the reference looks like. -/

namespace Stencil

/-- A word, two colons, and what is meant under the alias. -/
structure Aliased (reference short name : String) : Prop where
  word : Template.IsSegment short.toList
  spelled : reference = short ++ "::" ++ name

namespace Config

variable {reference : String}

theorem cut_aliased {short name : String} (aliased : Aliased reference short name) :
    Text.cutFirst? aliasMark reference.toList = some (short.toList, name.toList) := by
  have fresh : ∀ c ∈ short.toList, c ≠ ':' := fun c mem same =>
    aliased.word.not_mem rfl (by decide) (by decide) (same ▸ mem)
  have here : Text.cutFirst? aliasMark (':' :: ([':'] ++ name.toList)) = some ([], name.toList) :=
    Text.cutFirst?_here ':' [':'] _
  have spelled : reference.toList = short.toList ++ ':' :: ([':'] ++ name.toList) := by
    rw [aliased.spelled, String.toList_append, String.toList_append, List.append_assoc]
    rfl
  rw [spelled, aliasMark, Text.cutFirst?_fresh fresh]
  rw [aliasMark] at here
  rw [here]
  simp

theorem expand_aliased {short name : String} (aliased : Aliased reference short name) (config : Config) :
    config.expand reference = match config.aliases.find? short with
      | none => .unknown short
      | some base => .expanded (if base.isEmpty then name else base ++ "." ++ name) := by
  have word : (!Template.isSegment short.toList) = false := by
    rw [Template.isSegment_iff.2 aliased.word]
    rfl
  cases found : config.aliases.find? short <;> simp [expand, cut_aliased aliased, word, found]

theorem expand_unaliased (unaliased : ¬∃ short name, Aliased reference short name) (config : Config) :
    config.expand reference = .plain := by
  unfold expand
  split
  · rfl
  next short name cut =>
    split
    · rfl
    next word =>
      rw [Bool.not_eq_true', Bool.not_eq_false] at word
      refine absurd ⟨String.ofList short, String.ofList name, ?_, ?_⟩ unaliased
      · rw [String.toList_ofList]
        exact Template.isSegment_iff.1 word
      · apply String.toList_injective
        simpa [aliasMark] using Text.cutFirst?_eq_append cut

end Config

open Render Template

namespace Engine

variable {engine : Engine} {reference : String}

/-- What comes of a template that nothing else is rendered around. -/
def page (engine : Engine) (scope : Scope) (template : Template) : Except Halt String :=
  engine.settle [] fun below => entering below template scope

/-- What comes of a name: the template that is registered under it or can be loaded, or the report that there is
none. -/
def pageNamed (engine : Engine) (scope : Scope) (name : String) : Except Halt String :=
  match engine.template? name with
  | some template => engine.page scope template
  | none => .error (.failed (.templateNotFound name))

theorem entering_page {session : Session engine} (empty : session.stack = []) (scope : Scope) (template : Template) :
    (entering (levels engine engine.config.maxDepth) template scope session).1 = engine.page scope template := by
  have steady : (resultRules engine).Steady engine.config.maxDepth
      (entering (levels engine engine.config.maxDepth) template scope)
      (entering (levels engine engine.config.maxDepth) template scope) :=
    Rules.entered (levels_agree (.refl engine) engine.config.maxDepth) (fun _ _ => trivial) scope
  have level : session.stack.length + engine.config.maxDepth = engine.config.maxDepth := by
    rw [empty, List.length_nil, Nat.zero_add]
  rw [page, ← empty]
  exact (settled (fun below => entering below template scope) steady level).1

/-- The template is the only one on the stack, unless there is no room for any. -/
theorem page_printed (room : 0 < engine.config.maxDepth) (scope : Scope) (template : Template) :
    engine.page scope template = engine.printed scope [title template.name] template := by
  obtain ⟨fewer, depth⟩ : ∃ fewer, engine.config.maxDepth = fewer + 1 := ⟨_, (Nat.succ_pred_eq_of_pos room).symm⟩
  have entered := @entering_page engine {} rfl scope template
  rw [depth, entering_fst depth rfl] at entered
  exact entered.symm

theorem named_page {session : Session engine} (empty : session.stack = []) (scope : Scope) :
    (onStack (fun below => named below reference scope) session).1 =
      (engine.resolved reference).bind (engine.pageNamed scope) := by
  rw [onStack_apply, empty]
  change (named (levels engine engine.config.maxDepth) reference scope session).1 = _
  unfold named
  cases resolution : engine.resolved reference with
  | error halt =>
    have failed : resolveName reference session = (.error halt, session) := by rw [resolveName_run, resolution]
    rw [bind_error failed]
    rfl
  | ok name =>
    have resolved : resolveName reference session = (.ok name, session) := by rw [resolveName_run, resolution]
    have fetched := template?_fst name session
    have kept := (template?_kept name session).1
    rw [bind_ok resolved, bind_ok (Prod.ext fetched rfl)]
    change _ = engine.pageNamed scope name
    unfold pageNamed
    cases engine.template? name with
    | none => rfl
    | some template => exact entering_page (kept.trans empty) scope template

/-- What makes a reference a name, in this order. -/
def IsTaken (engine : Engine) (reference : String) : Prop :=
  engine.config.expand reference ≠ .plain ∨ Template.isName reference = true ∨
    (engine.template? reference).isSome = true

theorem isNamed_taken (taken : engine.IsTaken reference) (session : Session engine) :
    ∃ after, engine.isNamed reference session = (.ok true, after) ∧ after.stack = session.stack := by
  unfold isNamed
  by_cases shape : engine.config.expand reference ≠ .plain ∨ Template.isName reference = true
  · rw [if_pos (by simpa using shape)]
    exact ⟨session, rfl, rfl⟩
  · have found : (engine.template? reference).isSome = true :=
      (or_assoc.2 taken).resolve_left shape
    rw [if_neg (by simpa using shape), bind_ok (Prod.ext (template?_fst reference session) rfl), found]
    exact ⟨_, rfl, (template?_kept reference session).1⟩

theorem render_taken (taken : engine.IsTaken reference) (data : Value) (evaluator : Evaluator) :
    (engine.render reference data evaluator).1 =
      (engine.resolved reference).bind (engine.pageNamed (engine.dataScope data)) := by
  obtain ⟨session, named, empty⟩ := isNamed_taken taken { evaluator }
  change (engine.rendering reference data { evaluator }).1 = _
  unfold rendering
  rw [bind_ok named, if_pos rfl]
  exact named_page empty _

theorem template?_none (missing : engine.template? reference = none) (session : Session engine) :
    Render.template? reference session = (.ok none, session) := by
  have fetched := template?_fst reference session
  rw [missing] at fetched
  unfold Render.template? at fetched ⊢
  split
  next found => simp [found] at fetched
  next absent =>
    split
    next kept => simp [absent, kept] at fetched
    next unkept =>
      split
      · rfl
      next loaded =>
        rw [template?, absent, Option.none_or, loaded] at missing
        cases missing

theorem render_untaken (free : ¬engine.IsTaken reference) (data : Value) :
    engine.render reference data = engine.renderInline reference data := by
  obtain ⟨plain, free⟩ := not_or.1 free
  obtain ⟨shapeless, missing⟩ := not_or.1 free
  rw [Bool.not_eq_true, Option.isSome_eq_false_iff, Option.isNone_iff_eq_none] at missing
  have unnamed (session : Session engine) : engine.isNamed reference session = (.ok false, session) := by
    unfold isNamed
    rw [if_neg (by simpa using And.intro (not_not.1 plain) shapeless), bind_ok (template?_none missing session)]
    rfl
  funext evaluator
  unfold render renderInline run rendering
  rw [bind_ok (unnamed { evaluator })]
  rfl

/-- How the reference of a call is taken. -/
structure Dispatched (engine : Engine) (reference : String) (data : Value) : Prop where
  /-- A name behind an alias is looked for where the alias leads, whatever goes by the whole reference. -/
  aliased {short name : String} {segments : List (List Char)} : Aliased reference short name →
    Template.Named segments name → ∀ evaluator,
    (engine.render reference data evaluator).1 = match engine.config.aliases.find? short with
      | none => .error (.failed (.aliasNotRegistered short))
      | some base => engine.pageNamed (engine.dataScope data) (if base.isEmpty then name else base ++ "." ++ name)
  /-- What goes by the reference is rendered, whatever the reference looks like. -/
  present {template : Template} : (¬∃ short name, Aliased reference short name) →
    engine.template? reference = some template →
    ∀ evaluator, (engine.render reference data evaluator).1 = engine.page (engine.dataScope data) template
  /-- The name of no template is not rendered as source. -/
  missing {segments : List (List Char)} : (¬∃ short name, Aliased reference short name) →
    engine.template? reference = none → Template.Named segments reference →
    ∀ evaluator, (engine.render reference data evaluator).1 = .error (.failed (.templateNotFound reference))
  /-- Any other reference is source, and renders as such in every way. -/
  inline : (¬∃ short name, Aliased reference short name) → engine.template? reference = none →
    (¬∃ segments, Template.Named segments reference) → engine.render reference data = engine.renderInline reference data

theorem dispatched (engine : Engine) (reference : String) (data : Value) : engine.Dispatched reference data where
  aliased marked _ evaluator := by
    have expansion := Config.expand_aliased marked engine.config
    rw [render_taken (.inl (by rw [expansion]; split <;> nofun)), resolved, expansion]
    cases engine.config.aliases.find? _ <;> rfl
  present unaliased found evaluator := by
    rw [render_taken (.inr (.inr (by rw [found]; rfl))), resolved, Config.expand_unaliased unaliased]
    change engine.pageNamed _ reference = _
    rw [pageNamed, found]
  missing unaliased absent named evaluator := by
    rw [render_taken (.inr (.inl (isName_iff.2 ⟨_, named⟩))), resolved, Config.expand_unaliased unaliased]
    change engine.pageNamed _ reference = _
    rw [pageNamed, absent]
  inline unaliased absent unnamed := by
    refine render_untaken (not_or.2 ⟨?_, not_or.2 ⟨fun shape => unnamed (isName_iff.1 shape), ?_⟩⟩) data
    · rw [Config.expand_unaliased unaliased]
      simp
    · rw [absent]
      simp

/-- A shop that has registered a template with an alias in its name. -/
def shop : Engine := ({} : Engine).registerTemplate "shop::cart" "C"

theorem page_cart : ∃ template, shop.template? "shop::cart" = some template ∧
    shop.page (shop.dataScope .null) template = .ok "C" := by
  refine ⟨Template.parse "shop::cart" "C", rfl, ?_⟩
  have bare : Bare "C".toList := by decide
  have nodes : (Template.parse "shop::cart" "C").nodes = [.text ⟨0, 1⟩ "C"] := congrArg Prod.fst (read_doubling bare)
  have ends : extension? (Template.parse "shop::cart" "C").nodes = none := by rw [nodes]; rfl
  rw [page_printed (by decide), printed_eq (.outermost (.inl ends)) (by decide), nodes]
  rfl

/-- The template that goes by exactly the reference prints, but the reference does not reach it. A text that is no name
at all prints as source, but is not read as source where it begins like a name behind an alias. -/
theorem whole_name_is_not_reached :
    ((∃ template, shop.template? "shop::cart" = some template ∧
      shop.page (shop.dataScope .null) template = .ok "C") ∧
      (shop.render "shop::cart" .null .empty).1 = .error (.failed (.aliasNotRegistered "shop"))) ∧
    (shop.template? "b::!" = none ∧ (¬∃ segments, Template.Named segments "!") ∧
      (shop.renderInline "b::!" .null .empty).1 = .ok "b::!" ∧
      (shop.render "b::!" .null .empty).1 = .error (.failed (.aliasNotRegistered "b"))) := by
  have bare : Bare "b::!".toList := by decide
  have source : (shop.renderInline "b::!" .null .empty).1 = .ok "b::!" :=
    congrArg Prod.fst (renderInline_doubling bare shop .null .empty)
  have unnamed : ¬∃ segments, Template.Named segments "!" := by
    rw [← isName_iff]
    decide
  exact ⟨⟨page_cart, rfl⟩, rfl, unnamed, source, rfl⟩

end Engine
end Stencil
