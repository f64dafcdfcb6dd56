import Stencil.Proofs.SectionCapture

/-! Bodies that stand alone. What renders no other template, no component and no directive asks
its engine for nothing but the bounds of its loops, so it is the same with every engine of
these bounds. -/

namespace Stencil
open Template

namespace Template

mutual
def Node.standsAlone : Node → Bool
  | .inclusion .. | .component .. | .directive .. => false
  | .sectionBlock _ _ body => allStandAlone body
  | .conditional _ branches none => branchesStandAlone branches
  | .conditional _ branches (some body) => branchesStandAlone branches && allStandAlone body
  | .foreach _ _ body => allStandAlone body
  | .counting _ _ body => allStandAlone body
  | _ => true

def Node.allStandAlone : List Node → Bool
  | [] => true
  | node :: rest => node.standsAlone && allStandAlone rest

def Node.branchesStandAlone : List (String × List Node) → Bool
  | [] => true
  | (_, body) :: branches => allStandAlone body && branchesStandAlone branches
end

end Template

namespace Render

variable {engine other : Engine} {α β : Type}

/-- The actions give the same, whatever the sessions are. -/
def Alike (first : Render engine α) (second : Render other α) : Prop :=
  ∀ session session', (second session').1 = (first session).1

namespace Alike

theorem pure (value : α) : Alike (Pure.pure value : Render engine α) (Pure.pure value : Render other α) :=
  fun _ _ => rfl

theorem bind {first : Render engine α} {second : Render other α} {next : α → Render engine β}
    {next' : α → Render other β} (alike : Alike first second) (rest : ∀ value, Alike (next value) (next' value)) :
    Alike (first >>= next) (second >>= next') := by
  intro session session'
  have same := alike session session'
  rcases ran : first session with ⟨halt | value, after⟩ <;> rcases ran' : second session' with ⟨result', after'⟩ <;>
    rw [ran, ran'] at same <;> cases same
  · rw [bind_error ran, bind_error ran']
  · rw [bind_ok ran, bind_ok ran']
    exact rest value after after'

theorem evaluating {action : StateM Evaluator α} (settled : Settled action) :
    Alike (Render.evaluating action : Render engine α) (Render.evaluating action : Render other α) :=
  fun session session' => congrArg Except.ok (settled.same session'.evaluator session.evaluator)

theorem nameArgument (scope : Scope) (text : String) :
    Alike (Render.nameArgument scope text : Render engine String)
      (Render.nameArgument scope text : Render other String) := by
  intro session session'
  obtain ⟨_, run, _⟩ := nameArgument_run scope text session
  obtain ⟨_, run', _⟩ := nameArgument_run scope text session'
  rw [run, run']

section Loops
variable {body : Scope → Render engine String} {body' : Scope → Render other String}

theorem each (alike : ∀ scope, Alike (body scope) (body' scope)) (scopes : List Scope) (output : String) :
    Alike (Render.each body output scopes) (Render.each body' output scopes) := by
  induction scopes generalizing output with
  | nil => exact pure _
  | cons scope scopes ih => exact (alike scope).bind fun _ => ih _

theorem foreach (alike : ∀ scope, Alike (body scope) (body' scope)) (args : String) (scope : Scope) :
    Alike (Render.foreach args body scope) (Render.foreach args body' scope) := by
  unfold Render.foreach
  split
  next => exact pure _
  next collection name _ =>
    apply (evaluating (Settled.evaluate scope collection)).bind
    intro value
    cases value.array? with
    | none => exact pure _
    | some items => exact each alike _ _

theorem count (goesOn : Int → Bool) (step : Int) {body : Int → Render engine String}
    {body' : Int → Render other String} (alike : ∀ current, Alike (body current) (body' current)) (rounds : Nat)
    (current : Int) (output : String) :
    Alike (Render.count goesOn step body rounds current output)
      (Render.count goesOn step body' rounds current output) := by
  induction rounds generalizing current output with
  | zero => exact pure _
  | succ rounds ih =>
    unfold Render.count
    split
    · exact (alike current).bind fun _ => ih _ _
    · exact pure _

theorem counting (config : other.config = engine.config) (alike : ∀ scope, Alike (body scope) (body' scope))
    (args : String) (scope : Scope) :
    Alike (Render.counting args body scope) (Render.counting args body' scope) := by
  unfold Render.counting
  split
  next => exact pure _
  next counter _ =>
    split
    · exact pure _
    · apply (evaluating (Settled.evaluate scope counter.limit)).bind
      intro value
      dsimp only
      rw [config]
      split
      · exact pure _
      · exact count _ _ (fun current => alike _) _ _ _

end Loops

section Walk
variable {below : Below engine} {below' : Below other}

mutual
theorem node (config : other.config = engine.config) (sections : Sections) (node : Node)
    (alone : node.standsAlone = true) (scope : Scope) :
    Alike (Render.node below sections node scope) (Render.node below' sections node scope) := by
  match node with
  | .text .. | .extension .. | .slot .. => exact pure _
  | .inclusion .. | .component .. | .directive .. => cases alone
  | .echo _ expression _ => exact (evaluating (Settled.evaluate scope expression)).bind fun _ => pure _
  | .sectionBlock _ args body =>
    apply (nameArgument scope args).bind
    intro name
    split
    · exact pure _
    · exact nodes config sections body alone scope
  | .sectionInline _ args content =>
    apply (nameArgument scope args).bind
    intro name
    split
    · exact pure _
    · exact (evaluating (Settled.argument scope content)).bind fun _ => pure _
  | .yield _ args =>
    apply (nameArgument scope _).bind
    intro name
    split
    · exact pure _
    · split
      · exact pure _
      · exact (evaluating (Settled.argument scope _)).bind fun _ => pure _
  | .conditional _ branches none => exact firstBranch config sections branches alone (fun _ => pure _) scope
  | .conditional _ branches (some body) =>
    obtain ⟨here, inside⟩ := Bool.and_eq_true_iff.1 alone
    exact firstBranch config sections branches here (fun scope => nodes config sections body inside scope) scope
  | .foreach _ args body => exact foreach (fun scope => nodes config sections body alone scope) args scope
  | .counting _ args body => exact counting config (fun scope => nodes config sections body alone scope) args scope

theorem nodes (config : other.config = engine.config) (sections : Sections) (body : List Node)
    (alone : Node.allStandAlone body = true) (scope : Scope) :
    Alike (Render.nodes below sections body scope) (Render.nodes below' sections body scope) := by
  match body with
  | [] => exact pure _
  | head :: rest =>
    obtain ⟨here, later⟩ := Bool.and_eq_true_iff.1 alone
    exact (node config sections head here scope).bind fun _ => (nodes config sections rest later scope).bind fun _ => pure _

theorem firstBranch (config : other.config = engine.config) (sections : Sections)
    (branches : List (String × List Node)) (alone : Node.branchesStandAlone branches = true)
    {otherwise : Scope → Render engine String} {otherwise' : Scope → Render other String}
    (alike : ∀ scope, Alike (otherwise scope) (otherwise' scope)) (scope : Scope) :
    Alike (Render.firstBranch below sections branches otherwise scope)
      (Render.firstBranch below' sections branches otherwise' scope) := by
  match branches with
  | [] => exact alike scope
  | (text, body) :: branches =>
    obtain ⟨here, later⟩ := Bool.and_eq_true_iff.1 alone
    apply (evaluating (Settled.condition scope text)).bind
    intro holds
    split
    · exact nodes config sections body here scope
    · exact firstBranch config sections branches later alike scope
end

end Walk
end Alike
end Render

namespace Section

def standsAlone : Section → Bool
  | .block _ body => Node.allStandAlone body
  | .inline .. => true

theorem text_alike {engine other : Engine} (config : other.config = engine.config) {part : Section}
    (alone : part.standsAlone = true) (scope : Scope) (stack : List String) (sections : Render.Sections) :
    part.text other scope stack sections = part.text engine scope stack sections := by
  have alike (below : Render.Below engine) (below' : Render.Below other) :
      Render.Alike (part.content below sections scope) (part.content below' sections scope) := by
    cases part with
    | block _ body => exact .nodes config sections body alone scope
    | inline _ content => exact (Render.Alike.evaluating (Settled.argument scope content)).bind fun _ => .pure _
  exact alike _ _ _ _

end Section
end Stencil
