import Stencil.Proofs.ExpressionVariables
import Stencil.Proofs.NodeSequence

/-! A counting loop prints all of its rounds or none. Each round is what the body prints by
itself where the variable has the count, since no round leaves anything behind that another
could see. The cap counts rounds, whatever the limit is, so the loop comes to an end. -/

namespace Stencil.Render
open Template Loop

variable {engine : Engine}

/-- What is printed, told from what each round prints and from whether the count of a round is within the limit. -/
structure AllOrNothing (cap : Nat) (within : Nat → Bool) (round : Nat → Except Halt String)
    (printed : Except Halt String) : Prop where
  /-- The rounds are printed in order if the limit ends them before there are more than allowed. -/
  all : ∀ n ≤ cap, (∀ k < n, within k = true) → within n = false → ∀ texts : Nat → String,
    (∀ k < n, round k = .ok (texts k)) → printed = .ok (String.join ((List.range n).map texts))
  /-- If there are more, nothing is printed, not even those that are allowed. -/
  nothing : (∀ k ≤ cap, within k = true) → (∀ k < cap, ∃ text, round k = .ok text) → printed = .ok ""
  /-- The first round that fails, if it comes to that round at all, is the failure of the loop. -/
  failed : ∀ k < cap, (∀ j ≤ k, within j = true) → (∀ j < k, ∃ text, round j = .ok text) →
    ∀ halt, round k = .error halt → printed = .error halt
  /-- The loop has no failure of its own, and in particular it ends if its rounds do. -/
  ends : ∀ halt, printed = .error halt → ∃ k < cap, within k = true ∧ round k = .error halt

section Count
variable {goesOn : Int → Bool} {step : Int} {body : Int → Render engine String} {result : Int → Except Halt String}
  {stack : List String} (alike : ∀ current session, session.stack = stack →
    (body current session).1 = result current ∧ (body current session).2.stack = stack)
include alike

/-- One round more is printed, and it is the stack alone that the next one sees. -/
theorem count_round (rounds : Nat) {current : Int} (output : String) {session : Session engine}
    (level : session.stack = stack) (within : goesOn current = true) {text : String}
    (printed : result current = .ok text) : ∃ after, after.stack = stack ∧
      count goesOn step body (rounds + 1) current output session =
        count goesOn step body rounds (current + step) (output ++ text) after := by
  obtain ⟨same, kept⟩ := alike current session level
  rcases ran : body current session with ⟨result', after⟩
  rw [ran] at same kept
  cases same.trans printed
  refine ⟨after, kept, ?_⟩
  rw [count, if_pos within, bind_ok ran]

/-- After any number of rounds their texts are put together, and the count has gone up as many steps. -/
theorem count_rounds (n rounds : Nat) {current : Int} (output : String) {session : Session engine}
    (level : session.stack = stack) (within : ∀ k < n, goesOn (current + k * step) = true) {texts : Nat → String}
    (printed : ∀ k < n, result (current + k * step) = .ok (texts k)) : ∃ after, after.stack = stack ∧
      count goesOn step body (rounds + n) current output session =
        count goesOn step body rounds (current + n * step) (output ++ String.join ((List.range n).map texts))
          after := by
  induction n generalizing rounds with
  | zero => exact ⟨session, level, by simp⟩
  | succ n ih =>
    obtain ⟨middle, kept, ran⟩ := ih (rounds + 1) (fun k less => within k (Nat.lt_succ_of_lt less)) fun k less =>
      printed k (Nat.lt_succ_of_lt less)
    obtain ⟨after, kept', ran'⟩ := count_round alike rounds (output ++ String.join ((List.range n).map texts)) kept
      (within n (Nat.lt_succ_self n)) (printed n (Nat.lt_succ_self n))
    refine ⟨after, kept', ?_⟩
    have count : current + (n : Int) * step + step = current + ((n + 1 : Nat) : Int) * step := by
      rw [Int.natCast_succ, Int.add_mul, Int.one_mul, Int.add_assoc]
    have output' : output ++ String.join ((List.range n).map texts) ++ texts n =
        output ++ String.join ((List.range (n + 1)).map texts) := by
      rw [List.range_succ, List.map_append, String.append_assoc, String.join_append]
      simp
    rw [← Nat.add_assoc, Nat.add_right_comm, ran, ran', count, output']

/-- Where the rounds fail, one of them does. -/
theorem count_ends (rounds : Nat) {current : Int} {output : String} {session : Session engine}
    (level : session.stack = stack) {halt : Halt}
    (failed : (count goesOn step body rounds current output session).1 = .error halt) :
    ∃ k < rounds, goesOn (current + k * step) = true ∧ result (current + k * step) = .error halt := by
  induction rounds generalizing current output session with
  | zero => cases failed
  | succ rounds ih =>
    cases within : goesOn current with
    | false =>
      rw [count, within] at failed
      cases failed
    | true =>
      cases printed : result current with
      | error other =>
        obtain ⟨same, -⟩ := alike current session level
        rcases ran : body current session with ⟨result', after⟩
        rw [ran] at same
        cases same.trans printed
        rw [count, if_pos within, bind_error ran] at failed
        cases failed
        exact ⟨0, Nat.succ_pos rounds, by simpa using within, by simpa using printed⟩
      | ok text =>
        obtain ⟨after, kept, ran⟩ := count_round alike rounds output level within printed
        obtain ⟨k, less, within, fails⟩ := ih kept (ran ▸ failed)
        have further : current + step + (k : Int) * step = current + ((k + 1 : Nat) : Int) * step := by
          rw [Int.natCast_succ, Int.add_mul, Int.one_mul, Int.add_assoc, Int.add_comm step]
        rw [further] at within fails
        exact ⟨k + 1, Nat.succ_lt_succ less, within, fails⟩

variable (cap : Nat) {start : Int} {session : Session engine} (level : session.stack = stack)
include level

theorem count_all {n : Nat} (fits : n ≤ cap) (within : ∀ k < n, goesOn (start + k * step) = true)
    (stops : goesOn (start + n * step) = false) {texts : Nat → String}
    (printed : ∀ k < n, result (start + k * step) = .ok (texts k)) :
    (count goesOn step body cap start "" session).1 = .ok (String.join ((List.range n).map texts)) := by
  obtain ⟨after, kept, ran⟩ := count_rounds alike n (cap - n) "" level within printed
  rw [Nat.sub_add_cancel fits, String.empty_append] at ran
  rw [ran]
  cases cap - n with
  | zero => rw [count, stops]; rfl
  | succ rounds => rw [count, stops]; rfl

theorem count_nothing (within : ∀ k ≤ cap, goesOn (start + k * step) = true) {texts : Nat → String}
    (printed : ∀ k < cap, result (start + k * step) = .ok (texts k)) :
    (count goesOn step body cap start "" session).1 = .ok "" := by
  obtain ⟨after, kept, ran⟩ := count_rounds alike cap 0 "" level (fun k less => within k (Nat.le_of_lt less)) printed
  rw [Nat.zero_add] at ran
  rw [ran, count, within cap (Nat.le_refl cap)]
  rfl

theorem count_failed {k : Nat} (fits : k < cap) (within : ∀ j ≤ k, goesOn (start + j * step) = true)
    {texts : Nat → String} (printed : ∀ j < k, result (start + j * step) = .ok (texts j)) {halt : Halt}
    (fails : result (start + k * step) = .error halt) :
    (count goesOn step body cap start "" session).1 = .error halt := by
  obtain ⟨after, kept, ran⟩ :=
    count_rounds alike k (cap - k) "" level (fun j less => within j (Nat.le_of_lt less)) printed
  rw [Nat.sub_add_cancel (Nat.le_of_lt fits)] at ran
  obtain ⟨rounds, left⟩ : ∃ rounds, cap - k = rounds + 1 := ⟨cap - k - 1, by omega⟩
  obtain ⟨same, -⟩ := alike (start + k * step) after kept
  rcases failed : body (start + k * step) after with ⟨result', last⟩
  rw [failed] at same
  cases same.trans fails
  rw [ran, left, count, if_pos (within k (Nat.le_refl k)), bind_error failed]

end Count

/-- The text of a round that has been printed. -/
def textOf (result : Except Halt String) : String := result.toOption.getD ""

theorem ok_textOf {result : Except Halt String} (printed : ∃ text, result = .ok text) :
    result = .ok (textOf result) := by
  obtain ⟨text, rfl⟩ := printed
  rfl

theorem count_allOrNothing {goesOn : Int → Bool} {step : Int} {body : Int → Render engine String}
    {result : Int → Except Halt String} {stack : List String} (alike : ∀ current session, session.stack = stack →
      (body current session).1 = result current ∧ (body current session).2.stack = stack) (cap : Nat) (start : Int)
    {session : Session engine} (level : session.stack = stack) :
    AllOrNothing cap (fun k => goesOn (start + k * step)) (fun k => result (start + k * step))
      (count goesOn step body cap start "" session).1 where
  all _ fits within stops _ printed := count_all alike cap level fits within stops printed
  nothing within printed := count_nothing alike cap level within fun k less => ok_textOf (printed k less)
  failed _ fits within printed _ fails :=
    count_failed alike cap level fits within (fun j less => ok_textOf (printed j less)) fails
  ends _ failed := count_ends alike cap level failed

/-! ## The loop as a node -/

/-- The limit of a loop: a number, or the configured one in its place. -/
def bound? (engine : Engine) (counter : Counter) (scope : Scope) : Option Float :=
  (scope.value counter.limit).number?.or (engine.config.loopFallback.map Float.ofNat)

/-- The count of a round; the first is round zero. -/
def countAt (counter : Counter) (k : Nat) : Int := counter.start + k * counter.step

/-- What the body of a loop prints by itself where the variable has a count. -/
def counted (counter : Counter) (sections : Sections) (body : List Node) (scope : Scope) (before : Session engine)
    (count : Int) : Except Halt String :=
  (printing sections body (scope.child.insert counter.name (.number (Float.ofInt count))) before).1

/-- A loop that counts up prints all of its rounds, or nothing. -/
theorem counting_prints_all_or_nothing {args : String} {counter : Counter}
    (header : Counter.ofArgs? args = some counter) (up : 0 < counter.step) (span : Text.Span) (sections : Sections)
    (body : List Node) (scope : Scope) (before : Session engine) :
    match bound? engine counter scope with
    | none => (printing sections [.counting span args body] scope before).1 = .ok ""
    | some limit =>
      AllOrNothing engine.config.maxLoopIterations (fun k => counter.holds limit (countAt counter k))
        (fun k => counted counter sections body scope before (countAt counter k))
        (printing sections [.counting span args body] scope before).1 := by
  -- What stands below is the same in each round, since each leaves the stack as it was.
  let below := levels engine (engine.config.maxDepth - before.stack.length)
  obtain ⟨after, kept, evaluated⟩ : ∃ after : Session engine, after.stack = before.stack ∧
      evaluate scope counter.limit before = (.ok (scope.value counter.limit), after) := by
    have value := Evaluator.evaluate_fst scope counter.limit before.evaluator
    exact ⟨(evaluate scope counter.limit before).2, rfl, Prod.ext (congrArg Except.ok value) rfl⟩
  have alike (count : Int) (session : Session engine) (level : session.stack = before.stack) :
      let inner := scope.child.insert counter.name (.number (Float.ofInt count))
      (nodes below sections body inner session).1 = counted counter sections body scope before count ∧
        (nodes below sections body inner session).2.stack = before.stack := by
    let round := Deed.nodes sections body (scope.child.insert counter.name (.number (Float.ofInt count)))
    have restored := (round.on_alike (rfl : session.stack = session.stack)).2
    rw [level] at restored
    exact ⟨(round.on_alike level).1, restored⟩
  have printed : printing sections [.counting span args body] scope before =
      counting args (nodes below sections body) scope before := by
    unfold printing
    rw [onStack_apply, nodes_single]
    rfl
  rw [printed]
  unfold counting bound?
  rw [header]
  dsimp only
  rw [if_neg (Int.not_le.2 up), bind_ok evaluated]
  cases (scope.value counter.limit).number?.or (engine.config.loopFallback.map Float.ofNat) with
  | none => rfl
  | some limit => exact count_allOrNothing alike engine.config.maxLoopIterations counter.start kept

/-- Three rounds are allowed. -/
def brief : Engine := { config := { maxLoopIterations := 3 } }

/-- Four rounds are one too many. -/
theorem four_rounds_print_nothing :
    Counter.ofArgs? "i = 1; i <= 10; i += 3" = some ⟨"i", 1, "10", true, 3⟩ ∧ (0 : Int) < 3 ∧
      (printing [] [.counting ⟨0, 0⟩ "i = 1; i <= 10; i += 3" [.text ⟨0, 0⟩ "x"]] {} ({} : Session brief)).1 =
        .ok "" := by
  have header : Counter.ofArgs? "i = 1; i <= 10; i += 3" = some ⟨"i", 1, "10", true, 3⟩ := by decide +kernel
  have loop := counting_prints_all_or_nothing header (by decide) ⟨0, 0⟩ [] [.text ⟨0, 0⟩ "x"] {} ({} : Session brief)
  have limit : bound? brief ⟨"i", 1, "10", true, 3⟩ {} = some (Float.ofNat 10) := by decide +kernel
  rw [limit] at loop
  exact ⟨header, by decide, loop.nothing (by decide +kernel) fun _ _ => ⟨"x", rfl⟩⟩

end Stencil.Render
