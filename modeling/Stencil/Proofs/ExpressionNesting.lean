import Stencil.Proofs.ExpressionGrammar

/-! The cap on nesting against the grammar. The pass over the tokens counts brackets exactly, but of the prefix
operators only those of one unbroken run, and with them a minus that stands between two operands. So it comes out too
high where such a minus goes past the cap, and too low where brackets stand in the operand of a prefix operator. -/

namespace Stencil.Expr
open Text

/-- How far the constructs of an expression go into each other. -/
structure Extent where
  /-- The most brackets and prefix operators around a token, the one that it opens itself included. -/
  nesting : Nat := 0
  /-- The prefix operators that the expression begins with, one right behind the other. -/
  signs : Nat := 0
  /-- The most that a minus between operands comes to if it is taken for a prefix operator: the brackets around it, itself
  and the prefix operators right behind it. -/
  minus : Nat := 0
  /-- Whether brackets stand in the operand of a prefix operator. -/
  buried : Bool := false

def Token.opens : Token → Bool
  | .mark .parenOpen | .mark .bracketOpen => true
  | _ => false

namespace Extent

/-- With brackets around it. -/
def enclosed (extent : Extent) : Extent where
  nesting := extent.nesting + 1
  minus := if extent.minus = 0 then 0 else extent.minus + 1
  buried := extent.buried

/-- With a prefix operator in front of it. -/
def applied (extent : Extent) (tokens : List Token) : Extent where
  nesting := extent.nesting + 1
  signs := extent.signs + 1
  minus := extent.minus
  buried := extent.buried || tokens.any Token.opens

/-- One next to another. -/
def beside (first second : Extent) : Extent where
  nesting := max first.nesting second.nesting
  signs := first.signs
  minus := max first.minus second.minus
  buried := first.buried || second.buried

/-- Two operands with an operator between them. -/
def joined (op : BinaryOp) (first second : Extent) : Extent :=
  { first.beside second with
    minus := max (first.beside second).minus (if op = .sub then second.signs + 1 else 0) }

end Extent

mutual
/-- The tokens stand for the expression as the grammar has it, and their constructs go this far into each other. -/
inductive Nests : Nat → List Token → Expr → Extent → Prop where
  | bool (truth : Bool) : Nests Phrase.accessLevel [.bool truth] (.literal (.bool truth)) {}
  | null : Nests Phrase.accessLevel [.null] (.literal .null) {}
  | string (text : String) : Nests Phrase.accessLevel [.string text] (.literal (.string text)) {}
  | number (value : Float) : Nests Phrase.accessLevel [.number value] (.literal (.number value)) {}
  | variable (name : String) : Nests Phrase.accessLevel [.ident name] (.variable name) {}
  | group {tokens : List Token} {whole : Expr} {extent : Extent} (inside : Nests 0 tokens whole extent) :
    Nests Phrase.accessLevel (.mark .parenOpen :: tokens ++ [.mark .parenClose]) whole extent.enclosed
  | array {tokens : List Token} {items : List Expr} {extent : Extent} (inside : NestsItems tokens items extent) :
    Nests Phrase.accessLevel (.mark .bracketOpen :: tokens ++ [.mark .bracketClose]) (.array items) extent.enclosed
  | member {tokens : List Token} {object : Expr} {extent : Extent}
      (access : Nests Phrase.accessLevel tokens object extent) (key : String) :
    Nests Phrase.accessLevel (tokens ++ [.mark .dot, .ident key]) (.member object key) extent
  | position {tokens : List Token} {object : Expr} {extent : Extent}
      (access : Nests Phrase.accessLevel tokens object extent) (value : Float) :
    Nests Phrase.accessLevel (tokens ++ [.mark .dot, .number value]) (.index object (.literal (.number value))) extent
  | index {tokens keyTokens : List Token} {object key : Expr} {extent inner : Extent}
      (access : Nests Phrase.accessLevel tokens object extent) (inside : Nests 0 keyTokens key inner) :
    Nests Phrase.accessLevel (tokens ++ .mark .bracketOpen :: keyTokens ++ [.mark .bracketClose]) (.index object key)
      (extent.beside inner.enclosed)
  | applied {tokens : List Token} {operand : Expr} {extent : Extent} (op : PrefixOp)
      (behind : Nests Phrase.prefixLevel tokens operand extent) :
    Nests Phrase.prefixLevel (.mark (.ofPrefix op) :: tokens) (.applied op operand) (extent.applied tokens)
  | binary {leftTokens rightTokens : List Token} {left right : Expr} {before behind : Extent} (strict : Bool)
      (op : BinaryOp) (first : Nests op.precedence leftTokens left before)
      (second : Nests (op.precedence + 1) rightTokens right behind) :
    Nests op.precedence (leftTokens ++ .mark (.ofBinary strict op) :: rightTokens) (.binary op left right)
      (before.joined op behind)
  | tighter {level : Nat} {tokens : List Token} {whole : Expr} {extent : Extent}
      (nests : Nests (level + 1) tokens whole extent) : Nests level tokens whole extent

inductive NestsItems : List Token → List Expr → Extent → Prop where
  | none : NestsItems [] [] {}
  | last {tokens : List Token} {item : Expr} {extent : Extent} (nests : Nests 0 tokens item extent) :
    NestsItems tokens [item] extent
  | more {tokens rest : List Token} {item : Expr} {items : List Expr} {extent others : Extent}
      (nests : Nests 0 tokens item extent) (further : NestsItems rest items others) :
    NestsItems (tokens ++ .mark .comma :: rest) (item :: items) (extent.beside others)
end

theorem Nests.weaken {level lower : Nat} {tokens : List Token} {whole : Expr} {extent : Extent}
    (nests : Nests level tokens whole extent) (le : lower ≤ level) : Nests lower tokens whole extent := by
  induction le with
  | refl => exact nests
  | step _ ih => exact ih nests.tighter

mutual
theorem Nests.derives {level : Nat} {tokens : List Token} {whole : Expr} {extent : Extent}
    (nests : Nests level tokens whole extent) : Derives level tokens whole := by
  match nests with
  | .bool truth => exact .bool truth
  | .null => exact .null
  | .string text => exact .string text
  | .number value => exact .number value
  | .variable name => exact .variable name
  | .group inside => exact .group inside.derives
  | .array inside => exact .array inside.derives
  | .member access key => exact .member access.derives key
  | .position access value => exact .position access.derives value
  | .index access inside => exact .index access.derives inside.derives
  | .applied op behind => exact .applied op behind.derives
  | .binary strict op first second => exact .binary strict op first.derives second.derives
  | .tighter nests => exact .tighter nests.derives

theorem NestsItems.derives {tokens : List Token} {items : List Expr} {extent : Extent}
    (nests : NestsItems tokens items extent) : DerivesItems tokens items := by
  match nests with
  | .none => exact .none
  | .last item => exact .last item.derives
  | .more item further => exact .more item.derives further.derives
end

mutual
theorem Derives.nests {level : Nat} {tokens : List Token} {whole : Expr} (derives : Derives level tokens whole) :
    ∃ extent, Nests level tokens whole extent := by
  match derives with
  | .bool truth => exact ⟨_, .bool truth⟩
  | .null => exact ⟨_, .null⟩
  | .string text => exact ⟨_, .string text⟩
  | .number value => exact ⟨_, .number value⟩
  | .variable name => exact ⟨_, .variable name⟩
  | .group inside =>
    obtain ⟨_, inside⟩ := inside.nests
    exact ⟨_, .group inside⟩
  | .array inside =>
    obtain ⟨_, inside⟩ := inside.nests
    exact ⟨_, .array inside⟩
  | .member access key =>
    obtain ⟨_, access⟩ := access.nests
    exact ⟨_, .member access key⟩
  | .position access value =>
    obtain ⟨_, access⟩ := access.nests
    exact ⟨_, .position access value⟩
  | .index access inside =>
    obtain ⟨_, access⟩ := access.nests
    obtain ⟨_, inside⟩ := inside.nests
    exact ⟨_, .index access inside⟩
  | .applied op behind =>
    obtain ⟨_, behind⟩ := behind.nests
    exact ⟨_, .applied op behind⟩
  | .binary strict op first second =>
    obtain ⟨_, first⟩ := first.nests
    obtain ⟨_, second⟩ := second.nests
    exact ⟨_, .binary strict op first second⟩
  | .tighter derives =>
    obtain ⟨_, nests⟩ := derives.nests
    exact ⟨_, .tighter nests⟩

theorem DerivesItems.nests {tokens : List Token} {items : List Expr} (derives : DerivesItems tokens items) :
    ∃ extent, NestsItems tokens items extent := by
  match derives with
  | .none => exact ⟨_, .none⟩
  | .last item =>
    obtain ⟨_, item⟩ := item.nests
    exact ⟨_, .last item⟩
  | .more item further =>
    obtain ⟨_, item⟩ := item.nests
    obtain ⟨_, further⟩ := further.nests
    exact ⟨_, .more item further⟩
end

namespace Nesting

def after (nesting : Nesting) (tokens : List Token) : Nesting := tokens.foldl step nesting

/-- The highest count on the way through the tokens. -/
def peak (nesting : Nesting) : List Token → Nat
  | [] => nesting.depth
  | token :: tokens => max nesting.depth (peak (nesting.step token) tokens)

theorem peak_le_iff {nesting : Nesting} {tokens : List Token} :
    nesting.peak tokens ≤ nestingCap ↔ nesting.depth ≤ nestingCap ∧ nesting.fits tokens = true := by
  induction tokens generalizing nesting with
  | nil => simp [peak, fits]
  | cons token tokens ih => simp only [peak, fits, Nat.max_le, ih, Bool.and_eq_true, decide_eq_true_eq]

@[simp] theorem after_append (nesting : Nesting) (first second : List Token) :
    nesting.after (first ++ second) = (nesting.after first).after second := List.foldl_append

@[simp] theorem after_cons (nesting : Nesting) (token : Token) (tokens : List Token) :
    nesting.after (token :: tokens) = (nesting.step token).after tokens := rfl

@[simp] theorem after_nil (nesting : Nesting) : nesting.after [] = nesting := rfl

theorem step_dot (nesting : Nesting) : nesting.step (.mark .dot) = ⟨nesting.brackets, 0⟩ := rfl

theorem depth_le_peak (nesting : Nesting) (tokens : List Token) : nesting.depth ≤ nesting.peak tokens := by
  cases tokens with
  | nil => exact Nat.le_refl _
  | cons token tokens => exact Nat.le_max_left _ _

theorem peak_append (nesting : Nesting) (first second : List Token) :
    nesting.peak (first ++ second) = max (nesting.peak first) ((nesting.after first).peak second) := by
  induction first generalizing nesting with
  | nil => exact (Nat.max_eq_right (depth_le_peak _ _)).symm
  | cons token first ih => simp only [List.cons_append, peak, after_cons, ih, Nat.max_assoc]

end Nesting

/-- The count of the pass against the extent of tokens that it comes to with no run of signs behind it. -/
structure Contained (tokens : List Token) (extent : Extent) : Prop where
  after : ∀ brackets, Nesting.after ⟨brackets, 0⟩ tokens = ⟨brackets, 0⟩
  minus : extent.minus ≤ extent.nesting + 1
  below : ∀ brackets, Nesting.peak ⟨brackets, 0⟩ tokens ≤ brackets + max extent.nesting extent.minus
  above : extent.buried = false → ∀ brackets, brackets + extent.nesting ≤ Nesting.peak ⟨brackets, 0⟩ tokens

/-- The same for an operand, which may stand behind signs. Only those that the operand begins with go on with the run,
and where no bracket breaks it off the run holds all prefix operators. -/
structure Counted (level : Nat) (tokens : List Token) (extent : Extent) : Prop where
  after : ∀ brackets run, Nesting.after ⟨brackets, run⟩ tokens = ⟨brackets, 0⟩
  signs : extent.signs ≤ extent.nesting
  minus : extent.minus ≤ extent.nesting + 1
  below : ∀ brackets run, Nesting.peak ⟨brackets, run⟩ tokens ≤
    brackets + max (run + extent.signs) (max extent.nesting extent.minus)
  above : extent.buried = false → ∀ brackets run, brackets + extent.nesting ≤ Nesting.peak ⟨brackets, run⟩ tokens
  plain : Phrase.prefixLevel ≤ level → tokens.any Token.opens = false → ∀ brackets run,
    brackets + run + extent.nesting ≤ Nesting.peak ⟨brackets, run⟩ tokens

section Limit
variable {tokens : List Token} {extent : Extent} {brackets run limit : Nat}

theorem Contained.peak_le (contained : Contained tokens extent) (nesting : brackets + extent.nesting ≤ limit)
    (minus : brackets + extent.minus ≤ limit) : Nesting.peak ⟨brackets, 0⟩ tokens ≤ limit := by
  have below := contained.below brackets
  omega

theorem Counted.peak_le {level : Nat} (counted : Counted level tokens extent)
    (signs : brackets + run + extent.signs ≤ limit) (nesting : brackets + extent.nesting ≤ limit)
    (minus : brackets + extent.minus ≤ limit) : Nesting.peak ⟨brackets, run⟩ tokens ≤ limit := by
  have below := counted.below brackets run
  omega

/-- What keeps to every limit of two parts keeps to the greater one. -/
theorem le_add_max {peak first second : Nat}
    (bound : ∀ limit, brackets + first ≤ limit → brackets + second ≤ limit → peak ≤ limit) :
    peak ≤ brackets + max first second :=
  bound _ (Nat.add_le_add_left (Nat.le_max_left _ _) _) (Nat.add_le_add_left (Nat.le_max_right _ _) _)

theorem add_max_le {first second other : Nat} : brackets + max first second ≤ other ↔
    brackets + first ≤ other ∧ brackets + second ≤ other := by
  rw [← Nat.add_max_add_left, Nat.max_le]

/-- The count within tokens put behind others is as high as the higher one. -/
theorem Extent.beside_le_peak {first second : Extent} {one other : Nat} (here : brackets + first.nesting ≤ one)
    (there : brackets + second.nesting ≤ other) : brackets + (first.beside second).nesting ≤ max one other :=
  add_max_le.2 ⟨Nat.le_trans here (Nat.le_max_left _ _), Nat.le_trans there (Nat.le_max_right _ _)⟩

theorem Extent.beside_minus {first second : Extent} (here : first.minus ≤ first.nesting + 1)
    (there : second.minus ≤ second.nesting + 1) : (first.beside second).minus ≤ (first.beside second).nesting + 1 :=
  Nat.max_le.2 ⟨Nat.le_trans here (Nat.succ_le_succ (Nat.le_max_left _ _)),
    Nat.le_trans there (Nat.succ_le_succ (Nat.le_max_right _ _))⟩

end Limit

theorem Contained.none : Contained [] {} where
  after _ := rfl
  minus := Nat.zero_le _
  below _ := Nat.le_refl _
  above _ _ := Nat.le_refl _

theorem Contained.more {tokens rest : List Token} {extent others : Extent} (first : Contained tokens extent)
    (further : Contained rest others) : Contained (tokens ++ .mark .comma :: rest) (extent.beside others) where
  after brackets := by
    rw [Nesting.after_append, first.after]
    exact further.after brackets
  minus := Extent.beside_minus first.minus further.minus
  below brackets := le_add_max fun limit nesting minus => by
    obtain ⟨before, behind⟩ := add_max_le.1 nesting
    obtain ⟨before', behind'⟩ := add_max_le.1 minus
    rw [Nesting.peak_append, first.after, Nesting.peak]
    refine Nat.max_le.2 ⟨first.peak_le before before', Nat.max_le.2 ⟨?_, further.peak_le behind behind'⟩⟩
    exact Nat.le_trans (Nat.le_add_right _ _) before
  above apart brackets := by
    obtain ⟨here, there⟩ := Bool.or_eq_false_iff.1 apart
    rw [Nesting.peak_append, first.after, Nesting.peak]
    exact Extent.beside_le_peak (first.above here brackets)
      (Nat.le_trans (further.above there brackets) (Nat.le_max_right _ _))

namespace Counted
variable {level : Nat} {tokens : List Token} {extent : Extent}

theorem contained (counted : Counted level tokens extent) : Contained tokens extent where
  after brackets := counted.after brackets 0
  minus := counted.minus
  below brackets := by
    have := counted.signs
    have := counted.below brackets 0
    omega
  above apart brackets := counted.above apart brackets 0

theorem weaken {lower : Nat} (counted : Counted level tokens extent) (le : lower ≤ level) :
    Counted lower tokens extent :=
  { counted with plain := fun tight => counted.plain (Nat.le_trans tight le) }

/-- A token that breaks off the run and is no bracket. -/
theorem atom {token : Token} (breaks : ∀ nesting, Nesting.step nesting token = ⟨nesting.brackets, 0⟩) :
    Counted level [token] {} where
  after brackets run := breaks _
  signs := Nat.le_refl _
  minus := Nat.zero_le _
  below brackets run := by
    simp only [Nesting.peak, breaks, Nesting.depth]
    omega
  above _ brackets run := Nat.le_trans (Nat.le_add_right brackets run) (Nesting.depth_le_peak ⟨brackets, run⟩ _)
  plain _ _ brackets run := Nesting.depth_le_peak ⟨brackets, run⟩ _

theorem enclosed {opening closing : Token} (opens : ∀ nesting, Nesting.step nesting opening = ⟨nesting.brackets + 1, 0⟩)
    (bracket : opening.opens = true)
    (closes : ∀ nesting, Nesting.step nesting closing = ⟨nesting.brackets - 1, 0⟩) (inside : Contained tokens extent) :
    Counted level (opening :: tokens ++ [closing]) extent.enclosed where
  after brackets run := by simp [opens, inside.after, closes]
  signs := Nat.zero_le _
  minus := by
    have within := inside.minus
    simp only [Extent.enclosed]
    split <;> omega
  below brackets run := by
    have within := inside.below (brackets + 1)
    simp only [List.cons_append, Nesting.peak, opens, Nesting.peak_append, inside.after, closes, Nesting.depth,
      Extent.enclosed]
    split <;> omega
  above apart brackets run := by
    have within := inside.above apart (brackets + 1)
    simp only [List.cons_append, Nesting.peak, opens, Nesting.peak_append, Extent.enclosed]
    omega
  plain _ unbracketed := by simp [bracket] at unbracketed

/-- A key behind a dot. -/
theorem access {key : Token} (breaks : ∀ nesting, Nesting.step nesting key = ⟨nesting.brackets, 0⟩)
    (object : Counted level tokens extent) : Counted level (tokens ++ [.mark .dot, key]) extent where
  after brackets run := by simp [object.after, Nesting.step_dot, breaks]
  signs := object.signs
  minus := object.minus
  below brackets run := by
    have := object.below brackets run
    simp only [Nesting.peak_append, object.after, Nesting.peak, Nesting.step_dot, breaks, Nesting.depth]
    omega
  above apart brackets run := by
    rw [Nesting.peak_append]
    exact Nat.le_trans (object.above apart brackets run) (Nat.le_max_left _ _)
  plain tight unbracketed brackets run := by
    rw [List.any_append, Bool.or_eq_false_iff] at unbracketed
    rw [Nesting.peak_append]
    exact Nat.le_trans (object.plain tight unbracketed.1 brackets run) (Nat.le_max_left _ _)

theorem index {keyTokens : List Token} {inner : Extent} (object : Counted level tokens extent)
    (inside : Contained keyTokens inner) :
    Counted level (tokens ++ .mark .bracketOpen :: keyTokens ++ [.mark .bracketClose])
      (extent.beside inner.enclosed) := by
  have key : Counted level (.mark .bracketOpen :: keyTokens ++ [.mark .bracketClose]) inner.enclosed :=
    .enclosed (fun _ => rfl) rfl (fun _ => rfl) inside
  rw [List.append_assoc]
  exact {
    after := fun brackets run => by rw [Nesting.after_append, object.after, key.after]
    signs := Nat.le_trans object.signs (Nat.le_max_left _ _)
    minus := Extent.beside_minus object.minus key.minus
    below := fun brackets run => le_add_max fun limit signs others => by
      obtain ⟨nesting, minus⟩ := add_max_le.1 others
      obtain ⟨before, behind⟩ := add_max_le.1 nesting
      obtain ⟨before', behind'⟩ := add_max_le.1 minus
      rw [Nesting.peak_append, object.after]
      rw [← Nat.add_assoc] at signs
      exact Nat.max_le.2 ⟨object.peak_le signs before before', key.contained.peak_le behind behind'⟩
    above := fun apart brackets run => by
      obtain ⟨here, there⟩ := Bool.or_eq_false_iff.1 apart
      rw [Nesting.peak_append, object.after]
      exact Extent.beside_le_peak (object.above here brackets run) (key.above there brackets 0)
    plain := fun _ unbracketed => by simp [Token.opens] at unbracketed }

theorem applied (op : PrefixOp) (behind : Counted Phrase.prefixLevel tokens extent) :
    Counted level (.mark (.ofPrefix op) :: tokens) (extent.applied tokens) := by
  have sign (nesting : Nesting) : nesting.step (.mark (.ofPrefix op)) = ⟨nesting.brackets, nesting.run + 1⟩ := by
    cases op <;> rfl
  have plain (unbracketed : tokens.any Token.opens = false) (brackets run : Nat) :
      brackets + run + (extent.nesting + 1) ≤ Nesting.peak ⟨brackets, run⟩ (.mark (.ofPrefix op) :: tokens) := by
    have whole := behind.plain (Nat.le_refl _) unbracketed brackets (run + 1)
    simp only [Nesting.peak, sign]
    omega
  exact {
    after := fun brackets run => by rw [Nesting.after_cons, sign, behind.after]
    signs := Nat.succ_le_succ behind.signs
    minus := Nat.le_succ_of_le behind.minus
    below := fun brackets run => le_add_max fun limit signs others => by
      obtain ⟨nesting, minus⟩ := add_max_le.1 others
      simp only [Extent.applied] at signs nesting
      simp only [Nesting.peak, sign, Nesting.depth]
      exact Nat.max_le.2 ⟨by omega, behind.peak_le (by omega) (by omega) minus⟩
    above := fun apart brackets run => by
      have := plain (Bool.or_eq_false_iff.1 apart).2 brackets run
      simp only [Extent.applied]
      omega
    plain := fun _ unbracketed => plain (by simpa using (Bool.or_eq_false_iff.1 unbracketed).2) }

/-- Of the operators only the minus counts, as the first sign of a run. -/
theorem binary {leftTokens rightTokens : List Token} {before behind : Extent} (strict : Bool) (op : BinaryOp)
    (first : Counted op.precedence leftTokens before) (second : Counted (op.precedence + 1) rightTokens behind) :
    Counted op.precedence (leftTokens ++ .mark (.ofBinary strict op) :: rightTokens) (before.joined op behind) := by
  have sign (brackets : Nat) : Nesting.step ⟨brackets, 0⟩ (.mark (.ofBinary strict op)) =
      ⟨brackets, if op = .sub then 1 else 0⟩ := by
    cases op <;> cases strict <;> rfl
  exact {
    after := fun brackets run => by
      rw [Nesting.after_append, first.after, Nesting.after_cons, sign, second.after]
    signs := Nat.le_trans first.signs (Nat.le_max_left _ _)
    minus := by
      refine Nat.max_le.2 ⟨Extent.beside_minus first.minus second.minus, ?_⟩
      have signs := Nat.le_trans second.signs (Nat.le_max_right before.nesting _)
      split
      · exact Nat.succ_le_succ signs
      · exact Nat.zero_le _
    below := fun brackets run => le_add_max fun limit signs others => by
      obtain ⟨nesting, minus⟩ := add_max_le.1 others
      obtain ⟨minus, own⟩ := add_max_le.1 minus
      obtain ⟨ahead, after⟩ := add_max_le.1 nesting
      obtain ⟨ahead', after'⟩ := add_max_le.1 minus
      have capped := second.signs
      rw [← Nat.add_assoc] at signs
      rw [Nesting.peak_append, first.after, Nesting.peak, sign]
      refine Nat.max_le.2 ⟨first.peak_le signs ahead ahead', Nat.max_le.2 ⟨?_, second.peak_le ?_ after after'⟩⟩
      · exact Nat.le_trans (Nat.le_add_right _ _) ahead
      · -- Without the minus the run behind the operator begins at nothing.
        split at own <;> simp only [*, if_true, if_false] <;> omega
    above := fun apart brackets run => by
      obtain ⟨here, there⟩ := Bool.or_eq_false_iff.1 apart
      rw [Nesting.peak_append, first.after, Nesting.peak, sign]
      exact Extent.beside_le_peak (first.above here brackets run)
        (Nat.le_trans (second.above there brackets _) (Nat.le_max_right _ _))
    plain := fun tight => absurd (Nat.lt_of_lt_of_le (precedence_lt_prefixLevel op) tight) (Nat.lt_irrefl _) }

end Counted

mutual
theorem Nests.counted {level : Nat} {tokens : List Token} {whole : Expr} {extent : Extent}
    (nests : Nests level tokens whole extent) : Counted level tokens extent := by
  match nests with
  | .bool _ | .null | .string _ | .number _ | .variable _ => exact .atom fun _ => rfl
  | .group inside => exact .enclosed (fun _ => rfl) rfl (fun _ => rfl) inside.counted.contained
  | .array inside => exact .enclosed (fun _ => rfl) rfl (fun _ => rfl) inside.contained
  | .member access _ | .position access _ => exact access.counted.access fun _ => rfl
  | .index access inside => exact access.counted.index inside.counted.contained
  | .applied op behind => exact behind.counted.applied op
  | .binary strict op first second => exact .binary strict op first.counted second.counted
  | .tighter nests => exact nests.counted.weaken (Nat.le_succ _)

theorem NestsItems.contained {tokens : List Token} {items : List Expr} {extent : Extent}
    (nests : NestsItems tokens items extent) : Contained tokens extent := by
  match nests with
  | .none => exact .none
  | .last item => exact item.counted.contained
  | .more item further => exact item.counted.contained.more further.contained
end

section Capped
variable {text : String} {tokens : List (Located Token)} (lexed : lex text = .ok tokens)
include lexed

theorem parse_of_fits (fits : Nesting.fits {} (tokens.map Located.value) = true) {whole : Expr}
    (derives : Derives 0 (tokens.map Located.value) whole) : parse text = .ok whole := by
  obtain ⟨last, leads, finished⟩ := derives_iff.1 derives
  simp only [parse, lexed, Nesting.excess?_eq_none.2 fits, ofTokens, leads.run, finished]

theorem parse_of_not_fits (deep : Nesting.fits {} (tokens.map Located.value) = false) :
    ∃ span, parse text = .error ⟨span, .tooDeep⟩ := by
  cases excess : Nesting.excess? {} tokens with
  | none =>
    rw [Nesting.excess?_eq_none.1 excess] at deep
    cases deep
  | some span => exact ⟨span, by simp only [parse, lexed, excess]⟩

end Capped

theorem fits_iff_peak (tokens : List Token) :
    Nesting.fits {} tokens = true ↔ Nesting.peak ⟨0, 0⟩ tokens ≤ nestingCap := by
  rw [Nesting.peak_le_iff]
  exact (and_iff_right (Nat.zero_le _)).symm

/-- An expression is read if it nests no further than the cap and no minus between operands goes past it. One that
nests further is refused, unless brackets in the operand of a prefix operator hide some of that from the pass. -/
theorem nesting_is_capped {text : String} {tokens : List (Located Token)} (lexed : lex text = .ok tokens)
    (expression : IsExpression (tokens.map Located.value)) :
    (∃ whole extent, Nests 0 (tokens.map Located.value) whole extent) ∧
    ∀ whole extent, Nests 0 (tokens.map Located.value) whole extent →
      extent.minus ≤ extent.nesting + 1 ∧
      (extent.nesting ≤ nestingCap → extent.minus ≤ nestingCap → parse text = .ok whole) ∧
      (nestingCap < extent.nesting → extent.buried = false →
        ∃ span, parse text = .error ⟨span, .tooDeep⟩ ∧ Problem.message .tooDeep = "expression nested too deeply") := by
  refine ⟨?_, fun whole extent nests => ?_⟩
  · obtain ⟨whole, derives⟩ := expression
    exact ⟨whole, derives.nests⟩
  · have counted := nests.counted.contained
    refine ⟨counted.minus, fun short low => ?_, fun long apart => ?_⟩
    · have below := counted.below 0
      apply parse_of_fits lexed _ nests.derives
      rw [fits_iff_peak]
      omega
    · have above := counted.above apart 0
      have refused : Nesting.fits {} (tokens.map Located.value) = false := by
        rw [Bool.eq_false_iff, Ne, fits_iff_peak]
        omega
      obtain ⟨span, failed⟩ := parse_of_not_fits lexed refused
      exact ⟨span, failed, rfl⟩

/-! Words wrapped up again and again: behind signs, in parentheses, and in both. -/

namespace Wrapped

def x : Name := ⟨"x", by decide, by simp [literalWords]⟩

/-- So many signs in front of a variable. -/
def signed : Nat → List Word
  | 0 => [.ident x]
  | count + 1 => .mark .bang :: signed count

/-- So many parentheses around a difference. -/
def grouped : Nat → List Word
  | 0 => [.ident x, .mark .minus, .ident x]
  | count + 1 => .mark .parenOpen :: grouped count ++ [.mark .parenClose]

/-- So many signs, with a parenthesis behind each of them. -/
def both : Nat → List Word
  | 0 => [.ident x]
  | count + 1 => .mark .bang :: (.mark .parenOpen :: both count ++ [.mark .parenClose])

def text (words : List Word) : String := String.ofList (Word.spell words)

theorem lex_text (words : List Word) :
    ∃ located, lex (text words) = .ok located ∧ located.map Located.value = words.map Word.token := by
  unfold lex text
  rw [String.toList_ofList]
  exact lexFrom_spell words 0

theorem nests_signed (count : Nat) : ∃ whole extent, Nests Phrase.prefixLevel ((signed count).map Word.token) whole extent ∧
    extent.nesting = count ∧ extent.minus = 0 ∧ extent.buried = false ∧
    ((signed count).map Word.token).any Token.opens = false := by
  induction count with
  | zero => exact ⟨_, _, .tighter (.variable "x"), rfl, rfl, rfl, rfl⟩
  | succ count ih =>
    obtain ⟨whole, extent, nests, deep, minus, apart, bare⟩ := ih
    refine ⟨_, _, .applied .not nests, congrArg Nat.succ deep, minus, ?_, bare⟩
    simp [Extent.applied, apart, bare]

theorem nests_grouped (count : Nat) : ∃ whole extent, Nests 0 ((grouped count).map Word.token) whole extent ∧
    extent.nesting = count := by
  induction count with
  | zero =>
    have operand (level : Nat) (le : level ≤ Phrase.accessLevel) := (Nests.variable "x").weaken le
    have difference := Nests.binary false .sub (operand _ (by decide)) (operand _ (by decide))
    exact ⟨_, _, difference.weaken (Nat.zero_le _), rfl⟩
  | succ count ih =>
    obtain ⟨whole, extent, nests, deep⟩ := ih
    refine ⟨whole, extent.enclosed, ?_, congrArg Nat.succ deep⟩
    simpa [grouped, Word.token] using nests.group.weaken (Nat.zero_le _)

theorem nests_both (count : Nat) : ∃ whole extent, Nests 0 ((both count).map Word.token) whole extent ∧
    extent.nesting = 2 * count := by
  induction count with
  | zero => exact ⟨_, _, Nests.weaken (.variable "x") (Nat.zero_le _), rfl⟩
  | succ count ih =>
    obtain ⟨whole, extent, nests, deep⟩ := ih
    have wrapped := (Nests.applied .not nests.group.tighter).weaken (Nat.zero_le _)
    refine ⟨_, _, by simpa [both, Word.token, Mark.ofPrefix] using wrapped, ?_⟩
    change extent.nesting + 1 + 1 = 2 * (count + 1)
    omega

/-- The cap is met by as many signs and passed by one more. -/
theorem signs_are_capped :
    (∃ tokens, lex (text (signed 32)) = .ok tokens ∧ IsExpression (tokens.map Located.value) ∧
      ∃ whole extent, Nests 0 (tokens.map Located.value) whole extent ∧ extent.nesting = 32 ∧ extent.minus = 0 ∧
        parse (text (signed 32)) = .ok whole) ∧
    ∃ tokens, lex (text (signed 33)) = .ok tokens ∧ IsExpression (tokens.map Located.value) ∧
      ∃ whole extent, Nests 0 (tokens.map Located.value) whole extent ∧ extent.nesting = 33 ∧
        extent.buried = false ∧ ∃ span, parse (text (signed 33)) = .error ⟨span, .tooDeep⟩ := by
  constructor
  · obtain ⟨tokens, lexed, same⟩ := lex_text (signed 32)
    obtain ⟨whole, extent, nests, deep, minus, -, -⟩ := nests_signed 32
    have nests := nests.weaken (Nat.zero_le _)
    rw [← same] at nests
    have expression : IsExpression (tokens.map Located.value) := ⟨whole, nests.derives⟩
    obtain ⟨-, capped⟩ := nesting_is_capped lexed expression
    have accepted := (capped whole extent nests).2.1 (Nat.le_of_eq deep) (by rw [minus]; exact Nat.zero_le _)
    exact ⟨tokens, lexed, expression, whole, extent, nests, deep, minus, accepted⟩
  · obtain ⟨tokens, lexed, same⟩ := lex_text (signed 33)
    obtain ⟨whole, extent, nests, deep, -, apart, -⟩ := nests_signed 33
    have nests := nests.weaken (Nat.zero_le _)
    rw [← same] at nests
    have expression : IsExpression (tokens.map Located.value) := ⟨whole, nests.derives⟩
    obtain ⟨-, capped⟩ := nesting_is_capped lexed expression
    obtain ⟨span, refused, -⟩ := (capped whole extent nests).2.2 (by rw [deep]; decide) apart
    exact ⟨tokens, lexed, expression, whole, extent, nests, deep, apart, span, refused⟩

/-- A difference in as many parentheses as the cap allows is refused, and signs with parentheses between them are read
that go far beyond it. -/
theorem cap_is_missed :
    (∃ tokens whole extent, lex (text (grouped 32)) = .ok tokens ∧ Nests 0 (tokens.map Located.value) whole extent ∧
      extent.nesting = 32 ∧ ∃ span, parse (text (grouped 32)) = .error ⟨span, .tooDeep⟩) ∧
    ∃ tokens whole extent, lex (text (both 17)) = .ok tokens ∧ Nests 0 (tokens.map Located.value) whole extent ∧
      extent.nesting = 34 ∧ parse (text (both 17)) = .ok whole := by
  constructor
  · obtain ⟨tokens, lexed, same⟩ := lex_text (grouped 32)
    obtain ⟨whole, extent, nests, deep⟩ := nests_grouped 32
    have refused := parse_of_not_fits lexed (by rw [same]; rfl)
    exact ⟨tokens, whole, extent, lexed, same ▸ nests, deep, refused⟩
  · obtain ⟨tokens, lexed, same⟩ := lex_text (both 17)
    obtain ⟨whole, extent, nests, deep⟩ := nests_both 17
    have accepted := parse_of_fits lexed (by rw [same]; rfl) (same ▸ nests.derives)
    exact ⟨tokens, whole, extent, lexed, same ▸ nests, deep, accepted⟩

end Wrapped

end Stencil.Expr
