import Stencil.Proofs.SectionCapture

/-! The variables of an expression. Evaluating looks at nothing of a scope but them, so scopes that bind them
alike give the same value. What a text gives is the same whatever has been read before it, and so is what is
made of several texts. -/

namespace Stencil

namespace Expr

mutual
def names : Expr → List String
  | .literal _ => []
  | .variable name => [name]
  | .member object _ => object.names
  | .index object key => object.names ++ key.names
  | .array items => itemsNames items
  | .applied _ operand => operand.names
  | .binary _ left right => left.names ++ right.names

def itemsNames : List Expr → List String
  | [] => []
  | item :: items => item.names ++ itemsNames items
end

variable {first second : Scope}

mutual
theorem eval_congr (whole : Expr) (agree : ∀ name ∈ whole.names, first.get? name = second.get? name) :
    eval first whole = eval second whole := by
  match whole with
  | .literal _ => rfl
  | .variable name => rw [eval, eval, agree name (List.mem_singleton_self name)]
  | .member object key => rw [eval, eval, eval_congr object agree]
  | .index object key =>
    obtain ⟨outside, inside⟩ := List.forall_mem_append.1 agree
    rw [eval, eval, eval_congr object outside, eval_congr key inside]
  | .array items => rw [eval, eval, evalItems_congr items agree]
  | .applied op operand => cases op <;> rw [eval, eval, eval_congr operand agree]
  | .binary op left right =>
    obtain ⟨before, after⟩ := List.forall_mem_append.1 agree
    cases op <;> simp only [eval, eval_congr left before, eval_congr right after]

theorem evalItems_congr (items : List Expr) (agree : ∀ name ∈ itemsNames items, first.get? name = second.get? name) :
    evalItems first items = evalItems second items := by
  match items with
  | [] => rfl
  | item :: items =>
    obtain ⟨here, others⟩ := List.forall_mem_append.1 agree
    rw [evalItems, evalItems, eval_congr item here, evalItems_congr items others]
end

end Expr

/-- The variable is one of the expression that the text is. -/
def Mentions (text name : String) : Prop :=
  ∃ whole, Expr.parse (Text.trimmed text) = .ok whole ∧ name ∈ whole.names

namespace Scope

/-- The value of a text. -/
def value (scope : Scope) (text : String) : Value :=
  Evaluator.valueOf (Expr.parse (Text.trimmed text)).toOption scope

variable {first second : Scope}

theorem value_of_parse {text : String} {whole : Expr} (parsed : Expr.parse (Text.trimmed text) = .ok whole)
    (scope : Scope) : scope.value text = whole.eval scope := by
  unfold value
  rw [parsed]
  rfl

theorem value_congr {text : String} (agree : ∀ name, Mentions text name → first.get? name = second.get? name) :
    first.value text = second.value text := by
  cases parsed : Expr.parse (Text.trimmed text) with
  | error _ =>
    unfold value
    rw [parsed]
    rfl
  | ok whole =>
    rw [value_of_parse parsed, value_of_parse parsed]
    exact whole.eval_congr fun name mem => agree name ⟨whole, parsed, mem⟩

end Scope

namespace Argument

mutual
/-- The texts that an argument has evaluated. -/
def expressions : Argument → List String
  | .expression text => [text]
  | .object members => membersExpressions members

def membersExpressions : List (String × Argument) → List String
  | [] => []
  | (_, argument) :: members => argument.expressions ++ membersExpressions members
end

/-- The value of an argument, given what expressions evaluate to. -/
def valueBy (expression : String → Value) (argument : Argument) : Value := @evaluate Id _ expression argument

def membersBy (expression : String → Value) (members : List (String × Argument)) : List (String × Value) :=
  @evaluateMembers Id _ expression members

mutual
theorem valueBy_congr {first second : String → Value} (argument : Argument)
    (agree : ∀ text ∈ argument.expressions, first text = second text) :
    argument.valueBy first = argument.valueBy second := by
  match argument with
  | .expression text => exact agree text (List.mem_singleton_self text)
  | .object members => exact congrArg (fun entries => Value.object (Fields.ofEntries entries)) (membersBy_congr members agree)

theorem membersBy_congr {first second : String → Value} (members : List (String × Argument))
    (agree : ∀ text ∈ membersExpressions members, first text = second text) :
    membersBy first members = membersBy second members := by
  match members with
  | [] => rfl
  | (key, argument) :: members =>
    obtain ⟨here, others⟩ := List.forall_mem_append.1 agree
    change (key, argument.valueBy first) :: membersBy first members =
      (key, argument.valueBy second) :: membersBy second members
    rw [valueBy_congr argument here, membersBy_congr members others]
end

end Argument

namespace Scope

/-- The value of an argument. -/
def argument (scope : Scope) (text : String) : Value := (Argument.read text.toList).valueBy scope.value

end Scope

namespace Evaluator

variable {scope : Scope}

@[simp] theorem evaluate_fst (scope : Scope) (text : String) (evaluator : Evaluator) :
    (evaluate scope text evaluator).1 = scope.value text := by
  change valueOf (compile text evaluator).1 scope = _
  rw [compile_fst]
  rfl

mutual
theorem argument_evaluate_fst (argument : Argument) (evaluator : Evaluator) :
    (argument.evaluate (evaluate scope) evaluator).1 = argument.valueBy scope.value := by
  match argument with
  | .expression text => exact evaluate_fst scope text evaluator
  | .object members =>
    exact congrArg (fun entries => Value.object (Fields.ofEntries entries)) (members_evaluate_fst members evaluator)

theorem members_evaluate_fst (members : List (String × Argument)) (evaluator : Evaluator) :
    (Argument.evaluateMembers (evaluate scope) members evaluator).1 = Argument.membersBy scope.value members := by
  match members with
  | [] => rfl
  | (key, argument) :: members =>
    change (key, (argument.evaluate (evaluate scope) evaluator).1) ::
        (Argument.evaluateMembers (evaluate scope) members (argument.evaluate (evaluate scope) evaluator).2).1 =
      (key, argument.valueBy scope.value) :: Argument.membersBy scope.value members
    rw [argument_evaluate_fst argument, members_evaluate_fst members]
end

@[simp] theorem argument_fst (scope : Scope) (text : String) (evaluator : Evaluator) :
    (argument scope text evaluator).1 = scope.argument text := argument_evaluate_fst _ _

end Evaluator

namespace Query

variable {α β : Type}

/-- What a query comes to, given what expressions evaluate to. -/
def resultBy (expression : String → Value) (query : Query α) : α := @run Id _ _ expression query

/-- Every text that the query asks for, whatever the answers are, is one of these. -/
def Asks (allowed : String → Prop) : Query α → Prop
  | .done _ => True
  | .evaluate text next => allowed text ∧ ∀ value, (next value).Asks allowed

theorem Asks.bind {allowed : String → Prop} {query : Query α} {next : α → Query β} (asks : query.Asks allowed)
    (rest : ∀ result, (next result).Asks allowed) : (query >>= next).Asks allowed := by
  induction query with
  | done result => exact rest result
  | evaluate text further ih => exact ⟨asks.1, fun value => ih value (asks.2 value)⟩

theorem run_fst (scope : Scope) (query : Query α) (evaluator : Evaluator) :
    (query.run (Evaluator.evaluate scope) evaluator).1 = query.resultBy scope.value := by
  induction query generalizing evaluator with
  | done result => rfl
  | evaluate text next ih =>
    change ((next (Evaluator.evaluate scope text evaluator).1).run (Evaluator.evaluate scope)
      (Evaluator.evaluate scope text evaluator).2).1 = (next (scope.value text)).resultBy scope.value
    rw [ih, Evaluator.evaluate_fst]

theorem resultBy_congr {first second : String → Value} {allowed : String → Prop} {query : Query α}
    (asks : query.Asks allowed) (agree : ∀ text, allowed text → first text = second text) :
    query.resultBy first = query.resultBy second := by
  induction query with
  | done result => rfl
  | evaluate text next ih =>
    change (next (first text)).resultBy first = (next (second text)).resultBy second
    rw [agree text asks.1]
    exact ih _ (asks.2 _)

end Query

mutual
theorem Argument.evaluate_asks {allowed : String → Prop} (argument : Argument)
    (inside : ∀ text ∈ argument.expressions, allowed text) : (argument.evaluate Query.ask).Asks allowed := by
  match argument with
  | .expression text => exact ⟨inside text (List.mem_singleton_self text), fun _ => trivial⟩
  | .object members => exact (Argument.members_asks members inside).bind fun _ => trivial

theorem Argument.members_asks {allowed : String → Prop} (members : List (String × Argument))
    (inside : ∀ text ∈ Argument.membersExpressions members, allowed text) :
    (Argument.evaluateMembers Query.ask members).Asks allowed := by
  match members with
  | [] => exact trivial
  | (_, argument) :: members =>
    obtain ⟨here, others⟩ := List.forall_mem_append.1 inside
    exact (Argument.evaluate_asks argument here).bind fun _ => (Argument.members_asks members others).bind fun _ => trivial
end

section Results
variable (expression : String → Value) {α β : Type}

theorem Query.bind_resultBy (query : Query α) (next : α → Query β) :
    (query >>= next).resultBy expression = (next (query.resultBy expression)).resultBy expression := by
  induction query with
  | done result => rfl
  | evaluate text further ih => exact ih (expression text)

mutual
theorem Argument.evaluate_resultBy (argument : Argument) :
    (argument.evaluate Query.ask).resultBy expression = argument.valueBy expression := by
  match argument with
  | .expression text => rfl
  | .object members =>
    have fields := Argument.evaluateMembers_resultBy members
    unfold Argument.evaluate
    rw [Query.bind_resultBy, fields]
    rfl

theorem Argument.evaluateMembers_resultBy (members : List (String × Argument)) :
    (Argument.evaluateMembers Query.ask members).resultBy expression = Argument.membersBy expression members := by
  match members with
  | [] => rfl
  | (key, argument) :: members =>
    unfold Argument.evaluateMembers
    rw [Query.bind_resultBy, Argument.evaluate_resultBy argument, Query.bind_resultBy,
      Argument.evaluateMembers_resultBy members]
    rfl
end

/-- What the argument at a place comes to. -/
theorem Call.value?_resultBy (call : Call) (index : Nat) :
    (call.value? index).resultBy expression =
      call.parts[index]?.map fun part => (Argument.read part.toList).valueBy expression := by
  unfold Call.value?
  cases call.parts[index]? with
  | none => rfl
  | some part =>
    dsimp only
    rw [Query.bind_resultBy, Call.valueOf, Argument.evaluate_resultBy]
    rfl

end Results

end Stencil
