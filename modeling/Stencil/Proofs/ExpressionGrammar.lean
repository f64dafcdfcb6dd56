import Stencil.Proofs.PhraseReading

/-! The grammar of expressions and the states of a reading. Every state tells how the tokens
so far can be part of an expression, and every state can be completed to one. So the tokens
that take a reading to a state are exactly those that some expression begins with. -/

namespace Stencil.Expr

mutual
/-- The tokens stand for the expression, whose outermost operator binds at least as tightly
as the level. Operators group to the left. -/
inductive Derives : Nat → List Token → Expr → Prop where
  | bool (truth : Bool) : Derives Phrase.accessLevel [.bool truth] (.literal (.bool truth))
  | null : Derives Phrase.accessLevel [.null] (.literal .null)
  | string (text : String) : Derives Phrase.accessLevel [.string text] (.literal (.string text))
  | number (value : Float) : Derives Phrase.accessLevel [.number value] (.literal (.number value))
  | variable (name : String) : Derives Phrase.accessLevel [.ident name] (.variable name)
  | group {tokens : List Token} {whole : Expr} (inside : Derives 0 tokens whole) :
    Derives Phrase.accessLevel (.mark .parenOpen :: tokens ++ [.mark .parenClose]) whole
  | array {tokens : List Token} {items : List Expr} (inside : DerivesItems tokens items) :
    Derives Phrase.accessLevel (.mark .bracketOpen :: tokens ++ [.mark .bracketClose]) (.array items)
  | member {tokens : List Token} {object : Expr} (access : Derives Phrase.accessLevel tokens object) (key : String) :
    Derives Phrase.accessLevel (tokens ++ [.mark .dot, .ident key]) (.member object key)
  | position {tokens : List Token} {object : Expr} (access : Derives Phrase.accessLevel tokens object)
      (value : Float) :
    Derives Phrase.accessLevel (tokens ++ [.mark .dot, .number value]) (.index object (.literal (.number value)))
  | index {tokens keyTokens : List Token} {object key : Expr} (access : Derives Phrase.accessLevel tokens object)
      (inside : Derives 0 keyTokens key) :
    Derives Phrase.accessLevel (tokens ++ .mark .bracketOpen :: keyTokens ++ [.mark .bracketClose])
      (.index object key)
  | applied {tokens : List Token} {operand : Expr} (op : PrefixOp)
      (behind : Derives Phrase.prefixLevel tokens operand) :
    Derives Phrase.prefixLevel (.mark (.ofPrefix op) :: tokens) (.applied op operand)
  | binary {leftTokens rightTokens : List Token} {left right : Expr} (strict : Bool) (op : BinaryOp)
      (first : Derives op.precedence leftTokens left) (second : Derives (op.precedence + 1) rightTokens right) :
    Derives op.precedence (leftTokens ++ .mark (.ofBinary strict op) :: rightTokens) (.binary op left right)
  | tighter {level : Nat} {tokens : List Token} {whole : Expr} (derives : Derives (level + 1) tokens whole) :
    Derives level tokens whole

/-- Items with commas between them. A comma may follow the last item too. -/
inductive DerivesItems : List Token → List Expr → Prop where
  | none : DerivesItems [] []
  | last {tokens : List Token} {item : Expr} (derives : Derives 0 tokens item) : DerivesItems tokens [item]
  | more {tokens rest : List Token} {item : Expr} {items : List Expr} (derives : Derives 0 tokens item)
      (further : DerivesItems rest items) : DerivesItems (tokens ++ .mark .comma :: rest) (item :: items)
end

def IsExpression (tokens : List Token) : Prop := ∃ whole, Derives 0 tokens whole

/-- Some expression begins with the tokens. -/
def Viable (tokens : List Token) : Prop := ∃ rest, IsExpression (tokens ++ rest)

theorem Viable.of_append {tokens rest : List Token} (viable : Viable (tokens ++ rest)) : Viable tokens := by
  obtain ⟨more, whole⟩ := viable
  exact ⟨rest ++ more, by rwa [← List.append_assoc]⟩

theorem Derives.weaken {level lower : Nat} {tokens : List Token} {whole : Expr} (derives : Derives level tokens whole)
    (le : lower ≤ level) : Derives lower tokens whole := by
  induction le with
  | refl => exact derives
  | step _ ih => exact ih derives.tighter

theorem Settles.position {level : Nat} {frames : List Frame} {tokens : List Token} {whole : Expr}
    (settles : Settles Phrase.accessLevel frames tokens whole) (value : Float) :
    Settles level frames (tokens ++ [.mark .dot, .number value]) (.index whole (.literal (.number value))) :=
  .atom (settles.leads.append (.cons rfl (.one rfl)))

mutual
/-- Where there is room for it, what the grammar derives is read. -/
theorem Derives.settles {level : Nat} {tokens : List Token} {whole : Expr} (derives : Derives level tokens whole)
    (frames : List Frame) (room : Room level frames) : Settles level frames tokens whole := by
  match derives with
  | .bool _ => exact .atom (.one rfl)
  | .null => exact .atom (.one rfl)
  | .string _ => exact .atom (.one rfl)
  | .number _ => exact .atom (.one rfl)
  | .variable _ => exact .atom (.one rfl)
  | .group inside => exact .atom (inside.settles (.group :: frames) fun _ => trivial).group
  | .array inside => exact .atom (.cons rfl (inside.leads [] frames))
  | .member access key => exact (access.settles frames (Room.access frames)).member key
  | .position access value => exact (access.settles frames (Room.access frames)).position value
  | @Derives.index _ _ object _ access inside =>
    exact (access.settles frames (Room.access frames)).index (inside.settles (.key object :: frames) fun _ => trivial)
  | .applied op behind => exact (behind.settles (.applied op :: frames) (Room.prefixed _)).applied op
  | @Derives.binary _ _ left _ strict op first second =>
    have quiet : Quiet op.precedence frames := room (precedence_lt_prefixLevel op)
    have behind : Room (op.precedence + 1) (.left op left :: frames) := fun _ => Nat.lt_succ_self _
    exact .binary strict op quiet (first.settles frames room) (second.settles (.left op left :: frames) behind)
  | .tighter derives =>
    exact (derives.settles frames (room.mono (Nat.le_succ _))).weaken (Nat.le_succ _)

theorem DerivesItems.leads {tokens : List Token} {items : List Expr} (derives : DerivesItems tokens items)
    (before : List Expr) (frames : List Frame) :
    State.Leads ⟨.items before :: frames, .operand⟩ (tokens ++ [.mark .bracketClose])
      ⟨frames, .complete (.array (before ++ items))⟩ := by
  match derives with
  | .none =>
    rw [List.append_nil]
    exact .one rfl
  | .last item =>
    exact (item.settles (.items before :: frames) fun _ => trivial).closed trivial
      fun pending operand found => by simp [State.extend?, found]
  | @DerivesItems.more tokens rest item items first further =>
    have comma : State.Leads ⟨.items before :: frames, .operand⟩ (tokens ++ [.mark .comma])
        ⟨.items (before ++ [item]) :: frames, .operand⟩ :=
      (first.settles (.items before :: frames) fun _ => trivial).closed trivial
        fun pending operand found => by simp [State.extend?, found]
    have later := further.leads (before ++ [item]) frames
    simpa using comma.append later
end

/-- The tokens in front of an operand that have left these frames open. -/
inductive Opened : List Frame → List Token → Prop where
  | nil : Opened [] []
  | applied {frames : List Frame} {tokens : List Token} (op : PrefixOp) (outer : Opened frames tokens) :
    Opened (.applied op :: frames) (tokens ++ [.mark (.ofPrefix op)])
  | left {frames : List Frame} {tokens inside : List Token} {operand : Expr} (strict : Bool) (op : BinaryOp)
      (outer : Opened frames tokens) (quiet : Quiet op.precedence frames)
      (derives : Derives op.precedence inside operand) :
    Opened (.left op operand :: frames) (tokens ++ (inside ++ [.mark (.ofBinary strict op)]))
  | group {frames : List Frame} {tokens : List Token} (outer : Opened frames tokens) :
    Opened (.group :: frames) (tokens ++ [.mark .parenOpen])
  /-- Whatever items follow continue those before them. -/
  | items {frames : List Frame} {tokens inside : List Token} {before : List Expr} (outer : Opened frames tokens)
      (continues : ∀ rest items, DerivesItems rest items → DerivesItems (inside ++ rest) (before ++ items)) :
    Opened (.items before :: frames) (tokens ++ .mark .bracketOpen :: inside)
  | key {frames : List Frame} {tokens inside : List Token} {object : Expr} (outer : Opened frames tokens)
      (derives : Derives Phrase.accessLevel inside object) :
    Opened (.key object :: frames) (tokens ++ (inside ++ [.mark .bracketOpen]))

/-- The tokens that have led to a state. -/
inductive Reads : State → List Token → Prop where
  | operand {frames : List Frame} {tokens : List Token} (opened : Opened frames tokens) :
    Reads ⟨frames, .operand⟩ tokens
  | complete {frames : List Frame} {tokens inside : List Token} {operand : Expr} (opened : Opened frames tokens)
      (derives : Derives Phrase.accessLevel inside operand) :
    Reads ⟨frames, .complete operand⟩ (tokens ++ inside)
  | afterDot {frames : List Frame} {tokens inside : List Token} {object : Expr} (opened : Opened frames tokens)
      (derives : Derives Phrase.accessLevel inside object) :
    Reads ⟨frames, .afterDot object⟩ (tokens ++ (inside ++ [.mark .dot]))

/-- The operator on top, if one is open, can have an operand of this level. -/
def Accepts (level : Nat) : List Frame → Prop
  | .applied _ :: _ => Phrase.prefixLevel ≤ level
  | .left op _ :: _ => op.precedence < level
  | _ => True

theorem Accepts.prefixed (frames : List Frame) : Accepts Phrase.prefixLevel frames := by
  cases frames with
  | nil => trivial
  | cons frame frames =>
    cases frame with
    | applied op => exact Nat.le_refl _
    | left op operand => exact precedence_lt_prefixLevel op
    | group | items | key => trivial

theorem Accepts.access (frames : List Frame) : Accepts Phrase.accessLevel frames := by
  cases frames with
  | nil => trivial
  | cons frame frames =>
    cases frame with
    | applied op => exact Nat.le_succ _
    | left op operand => exact Nat.lt_succ_of_lt (precedence_lt_prefixLevel op)
    | group | items | key => trivial

theorem Quiet.accepts {level : Nat} {frames : List Frame} (quiet : Quiet level frames) : Accepts level frames := by
  cases frames with
  | nil => trivial
  | cons frame frames =>
    cases frame with
    | applied op => exact quiet.elim
    | left op operand => exact quiet
    | group | items | key => trivial

/-- Closing operators only regroups what was read. -/
theorem Opened.reduce {frames : List Frame} {tokens : List Token} (opened : Opened frames tokens) {least : Nat}
    (loose : least ≤ Phrase.prefixLevel) {level : Nat} {inside : List Token} {operand : Expr}
    (derives : Derives level inside operand) (accepts : Accepts level frames) (le : least ≤ level) :
    ∃ outer regrouped, tokens ++ inside = outer ++ regrouped ∧
      Opened (State.reduce least frames operand).1 outer ∧
      Derives least regrouped (State.reduce least frames operand).2 ∧
      Quiet least (State.reduce least frames operand).1 := by
  -- An operator that closes takes the operand with it, and the whole is the operand of the one below.
  induction opened generalizing level inside operand with
  | nil => exact ⟨[], inside, rfl, .nil, derives.weaken le, trivial⟩
  | @applied frames tokens op outer ih =>
    have whole := Derives.applied op (derives.weaken accepts)
    obtain ⟨front, regrouped, same, rest⟩ := ih whole (.prefixed frames) loose
    exact ⟨front, regrouped, by rw [← same, List.append_assoc, List.singleton_append], rest⟩
  | @left frames tokens read left strict op outer quiet first ih =>
    by_cases closes : least ≤ op.precedence
    · have whole := Derives.binary strict op first (derives.weaken accepts)
      obtain ⟨front, regrouped, same, rest⟩ := ih whole quiet.accepts closes
      rw [State.reduce, if_pos closes]
      refine ⟨front, regrouped, ?_, rest⟩
      rw [← same, List.append_assoc, List.append_assoc, List.singleton_append]
    · rw [State.reduce, if_neg closes]
      exact ⟨_, inside, rfl, .left strict op outer quiet first, derives.weaken le, Nat.not_le.1 closes⟩
  | group outer => exact ⟨_, inside, rfl, .group outer, derives.weaken le, trivial⟩
  | items outer continues => exact ⟨_, inside, rfl, .items outer continues, derives.weaken le, trivial⟩
  | key outer object => exact ⟨_, inside, rfl, .key outer object, derives.weaken le, trivial⟩

/-- With all operators closed a whole expression stands behind what is open. -/
theorem Opened.closed {frames rest : List Frame} {tokens inside : List Token} {operand whole : Expr}
    (opened : Opened frames tokens) (derives : Derives Phrase.accessLevel inside operand)
    (found : State.reduce 0 frames operand = (rest, whole)) :
    ∃ outer regrouped, tokens ++ inside = outer ++ regrouped ∧ Opened rest outer ∧ Derives 0 regrouped whole := by
  obtain ⟨outer, regrouped, same, opened, derives, -⟩ :=
    opened.reduce (Nat.zero_le _) derives (.access frames) (Nat.zero_le _)
  rw [found] at opened derives
  exact ⟨outer, regrouped, same, opened, derives⟩

theorem spelled_of_binaryOp? {sign : Mark} {op : BinaryOp} (found : State.binaryOp? sign = some op) :
    ∃ strict, sign = .ofBinary strict op := by
  cases sign <;> cases found
  case strictEq | strictNotEq => exact ⟨true, rfl⟩
  all_goals exact ⟨false, rfl⟩

theorem Opened.startOperand {frames : List Frame} {tokens : List Token} (opened : Opened frames tokens) {token : Token}
    {next : State} (step : State.startOperand? frames token = some next) : Reads next (tokens ++ [token]) := by
  unfold State.startOperand? at step
  split at step
  next truth => cases step; exact .complete opened (.bool truth)
  next => cases step; exact .complete opened .null
  next text => cases step; exact .complete opened (.string text)
  next value => cases step; exact .complete opened (.number value)
  next name => cases step; exact .complete opened (.variable name)
  next => cases step; exact .operand (.applied .not opened)
  next => cases step; exact .operand (.applied .negate opened)
  next => cases step; exact .operand (.group opened)
  next => cases step; exact .operand (.items opened fun _ _ => id)
  next =>
    split at step
    next before frames =>
      cases step
      cases opened with
      | @items _ tokens inside _ outer continues =>
        have items := continues [] [] .none
        rw [List.append_nil, List.append_nil] at items
        rw [List.append_assoc]
        exact .complete outer (.array items)
    next => cases step
  next => cases step

theorem Opened.extend {frames : List Frame} {tokens inside : List Token} {operand : Expr}
    (opened : Opened frames tokens) (derives : Derives Phrase.accessLevel inside operand) {token : Token} {next : State}
    (step : State.extend? frames operand token = some next) : Reads next (tokens ++ inside ++ [token]) := by
  unfold State.extend? at step
  split at step
  next =>
    cases step
    rw [List.append_assoc]
    exact .afterDot opened derives
  next =>
    cases step
    rw [List.append_assoc]
    exact .operand (.key opened derives)
  next =>
    split at step
    next frames inner found =>
      cases step
      obtain ⟨outer, regrouped, same, opened, derives⟩ := opened.closed derives found
      cases opened with
      | group outer =>
        rw [same, List.append_assoc, List.append_assoc]
        exact .complete outer (.group derives)
    next => cases step
  next =>
    split at step
    next before frames last found =>
      cases step
      obtain ⟨outer, regrouped, same, opened, derives⟩ := opened.closed derives found
      cases opened with
      | items outer continues =>
        rw [same, List.append_assoc, List.append_assoc]
        refine .complete outer ?_
        simpa using Derives.array (continues _ _ (.last derives))
    next object frames key found =>
      cases step
      obtain ⟨outer, regrouped, same, opened, derives⟩ := opened.closed derives found
      cases opened with
      | key outer object =>
        rw [same, List.append_assoc, List.append_assoc]
        refine .complete outer ?_
        simpa using Derives.index object derives
    next => cases step
  next =>
    split at step
    next before frames item found =>
      cases step
      obtain ⟨outer, regrouped, same, opened, derives⟩ := opened.closed derives found
      cases opened with
      | items outer continues =>
        rw [same, List.append_assoc, List.append_assoc]
        refine .operand (.items outer fun rest items further => ?_)
        simpa using continues _ _ (.more derives further)
    next => cases step
  next sign _ _ _ _ _ =>
    obtain ⟨op, spelled, made⟩ := Option.map_eq_some_iff.1 step
    obtain ⟨strict, rfl⟩ := spelled_of_binaryOp? spelled
    obtain ⟨outer, regrouped, same, opened, derives, quiet⟩ :=
      opened.reduce (Nat.le_of_lt (precedence_lt_prefixLevel op)) derives (.access frames)
        (Nat.le_of_lt (Nat.lt_succ_of_lt (precedence_lt_prefixLevel op)))
    cases made
    rw [same, List.append_assoc]
    exact .operand (.left strict op opened quiet derives)
  next => cases step

theorem Opened.access {frames : List Frame} {tokens inside : List Token} {object : Expr}
    (opened : Opened frames tokens) (derives : Derives Phrase.accessLevel inside object) {token : Token} {next : State}
    (step : State.access? frames object token = some next) :
    Reads next (tokens ++ (inside ++ [.mark .dot]) ++ [token]) := by
  have behind : tokens ++ (inside ++ [.mark .dot]) ++ [token] = tokens ++ (inside ++ [.mark .dot, token]) := by simp
  rw [behind]
  unfold State.access? at step
  split at step
  next name => cases step; exact .complete opened (.member derives name)
  next value => cases step; exact .complete opened (.position derives value)
  next => cases step

theorem Reads.step {state next : State} {tokens : List Token} (reads : Reads state tokens) {token : Token}
    (step : state.step? token = some next) : Reads next (tokens ++ [token]) := by
  cases reads with
  | operand opened => exact opened.startOperand step
  | complete opened derives => exact opened.extend derives step
  | afterDot opened derives => exact opened.access derives step

theorem Reads.leads {state last : State} {tokens further : List Token} (reads : Reads state tokens)
    (leads : state.Leads further last) : Reads last (tokens ++ further) := by
  induction further generalizing state tokens with
  | nil =>
    cases leads
    rwa [List.append_nil]
  | cons token further ih =>
    obtain ⟨middle, step, later⟩ := Option.bind_eq_some_iff.1 leads
    rw [List.append_cons]
    exact ih (reads.step step) later

theorem Reads.finish {state : State} {tokens : List Token} {whole : Expr} (reads : Reads state tokens)
    (finished : state.finish? = some whole) : Derives 0 tokens whole := by
  unfold State.finish? at finished
  split at finished
  next operand focus =>
    split at finished
    next found =>
      cases finished
      cases reads with
      | operand => cases focus
      | afterDot => cases focus
      | complete opened derives =>
        cases focus
        obtain ⟨outer, regrouped, same, opened, derives⟩ := opened.closed derives found
        cases opened
        rwa [same]
    next => cases finished
  next => cases finished

/-- What a reading gives in the end is what the grammar derives. -/
theorem derives_iff {tokens : List Token} {whole : Expr} :
    Derives 0 tokens whole ↔ ∃ last, State.Leads {} tokens last ∧ last.finish? = some whole := by
  constructor
  · intro derives
    obtain ⟨pending, operand, leads, closes, -⟩ := derives.settles [] fun _ => trivial
    have found : State.reduce 0 pending operand = ([], whole) := closes 0 (Nat.zero_le _)
    exact ⟨_, leads, by simp [State.finish?, found]⟩
  · rintro ⟨last, leads, finished⟩
    exact ((Reads.operand .nil).leads leads).finish finished

/-- Closing all operators stops at a bracket, or leaves nothing open. -/
theorem reduce_zero (frames : List Frame) (operand : Expr) :
    ∃ rest whole, State.reduce 0 frames operand = (rest, whole) ∧ rest.length ≤ frames.length ∧
      (rest = [] ∨ (∃ outer, rest = .group :: outer) ∨ (∃ before outer, rest = .items before :: outer) ∨
        ∃ object outer, rest = .key object :: outer) := by
  induction frames generalizing operand with
  | nil => exact ⟨[], operand, rfl, Nat.le_refl _, .inl rfl⟩
  | cons frame frames ih =>
    cases frame with
    | applied op =>
      obtain ⟨rest, whole, found, shorter, top⟩ := ih (.applied op operand)
      exact ⟨rest, whole, found, Nat.le_succ_of_le shorter, top⟩
    | left op left =>
      obtain ⟨rest, whole, found, shorter, top⟩ := ih (.binary op left operand)
      exact ⟨rest, whole, found, Nat.le_succ_of_le shorter, top⟩
    | group => exact ⟨_, operand, rfl, Nat.le_refl _, .inr (.inl ⟨frames, rfl⟩)⟩
    | items before => exact ⟨_, operand, rfl, Nat.le_refl _, .inr (.inr (.inl ⟨before, frames, rfl⟩))⟩
    | key object => exact ⟨_, operand, rfl, Nat.le_refl _, .inr (.inr (.inr ⟨object, frames, rfl⟩))⟩

def State.Completes (state : State) : Prop := ∃ tokens last whole, state.Leads tokens last ∧ last.finish? = some whole

theorem State.Completes.step {state next : State} {token : Token} (step : state.step? token = some next)
    (completes : next.Completes) : state.Completes := by
  obtain ⟨tokens, last, whole, leads, finished⟩ := completes
  exact ⟨token :: tokens, last, whole, .cons step leads, finished⟩

/-- Brackets can be closed one after another, and then the expression is complete. -/
theorem completes_complete (frames : List Frame) (operand : Expr) : State.Completes ⟨frames, .complete operand⟩ := by
  obtain ⟨rest, whole, found, shorter, top⟩ := reduce_zero frames operand
  rcases top with rfl | ⟨outer, rfl⟩ | ⟨before, outer, rfl⟩ | ⟨object, outer, rfl⟩
  · exact ⟨[], _, whole, .nil _, by simp [State.finish?, found]⟩
  · have closes : State.step? ⟨frames, .complete operand⟩ (.mark .parenClose) = some ⟨outer, .complete whole⟩ := by
      simp [State.step?, State.extend?, found]
    exact .step closes (completes_complete outer whole)
  · have closes : State.step? ⟨frames, .complete operand⟩ (.mark .bracketClose) =
        some ⟨outer, .complete (.array (before ++ [whole]))⟩ := by
      simp [State.step?, State.extend?, found]
    exact .step closes (completes_complete outer _)
  · have closes : State.step? ⟨frames, .complete operand⟩ (.mark .bracketClose) =
        some ⟨outer, .complete (.index object whole)⟩ := by
      simp [State.step?, State.extend?, found]
    exact .step closes (completes_complete outer _)
termination_by frames.length

theorem State.completes (state : State) : state.Completes := by
  obtain ⟨frames, focus⟩ := state
  cases focus with
  | operand => exact .step (rfl : step? _ .null = some ⟨frames, .complete _⟩) (completes_complete frames _)
  | complete operand => exact completes_complete frames operand
  | afterDot object =>
    exact .step (rfl : step? _ (.number 0) = some ⟨frames, .complete _⟩) (completes_complete frames _)

theorem isExpression_iff {tokens : List Token} :
    IsExpression tokens ↔ ∃ last, State.Leads {} tokens last ∧ last.finish?.isSome := by
  simp only [IsExpression, derives_iff, Option.isSome_iff_exists]
  grind

/-- The tokens that lead somewhere are those that some expression begins with. -/
theorem viable_iff {tokens : List Token} : Viable tokens ↔ ∃ state, State.Leads {} tokens state := by
  constructor
  · rintro ⟨rest, whole, derives⟩
    obtain ⟨last, leads, -⟩ := derives_iff.1 derives
    unfold State.Leads at leads
    rw [List.foldlM_append] at leads
    obtain ⟨state, reached, -⟩ := Option.bind_eq_some_iff.1 leads
    exact ⟨state, reached⟩
  · rintro ⟨state, leads⟩
    obtain ⟨rest, last, whole, further, finished⟩ := state.completes
    exact ⟨rest, whole, derives_iff.2 ⟨last, leads.append further, finished⟩⟩

end Stencil.Expr
