import Stencil.Proofs.PhraseSpelling

/-! Reading undoes writing. Behind the words of a phrase the state may still hold operators
of the phrase, but whatever may follow the phrase closes them first; what it finds then is
the phrase as a whole, in front of whatever was open before. -/

namespace Stencil.Expr
open Text

def State.Leads (before : State) (tokens : List Token) (after : State) : Prop :=
  tokens.foldlM State.step? before = some after

theorem State.Leads.nil (state : State) : state.Leads [] state := rfl

theorem State.Leads.append {before middle after : State} {first second : List Token}
    (leads : before.Leads first middle) (further : middle.Leads second after) :
    before.Leads (first ++ second) after := by
  change (first ++ second).foldlM State.step? before = some after
  rw [List.foldlM_append, leads]
  exact further

theorem State.Leads.cons {before middle after : State} {token : Token} {tokens : List Token}
    (step : before.step? token = some middle) (further : middle.Leads tokens after) :
    before.Leads (token :: tokens) after := by
  change (before.step? token).bind (fun state => tokens.foldlM State.step? state) = some after
  rw [step]
  exact further

theorem State.Leads.one {before after : State} {token : Token} (step : before.step? token = some after) :
    before.Leads [token] after := .cons step (.nil after)

theorem State.Leads.run {tokens : List (Located Token)} {before after : State}
    (leads : before.Leads (tokens.map Located.value) after) : before.run tokens = (after, none) := by
  induction tokens generalizing before with
  | nil => exact congrArg (·, none) (Option.some.inj leads)
  | cons token tokens ih =>
    obtain ⟨middle, step, further⟩ := Option.bind_eq_some_iff.1 leads
    simp only [State.run, step]
    exact ih further

/-- Nothing is open that an operator of this precedence would close. -/
def Quiet (least : Nat) : List Frame → Prop
  | .applied _ :: _ => False
  | .left op _ :: _ => op.precedence < least
  | _ => True

theorem Quiet.reduce {least : Nat} {frames : List Frame} (quiet : Quiet least frames) (operand : Expr) :
    State.reduce least frames operand = (frames, operand) := by
  cases frames with
  | nil => rfl
  | cons frame frames =>
    cases frame with
    | applied op => exact quiet.elim
    | left op left => exact if_neg (Nat.not_le.2 quiet)
    | group | items | key => rfl

theorem Quiet.mono {least higher : Nat} {frames : List Frame} (quiet : Quiet least frames)
    (le : least ≤ higher) : Quiet higher frames := by
  cases frames with
  | nil => trivial
  | cons frame frames =>
    cases frame with
    | applied op => exact quiet
    | left op left => exact Nat.lt_of_lt_of_le quiet le
    | group | items | key => trivial

/-- What binds this tightly can be read without brackets. Prefix operators and what binds more
tightly can be read anywhere. -/
def Room (level : Nat) (frames : List Frame) : Prop := level < Phrase.prefixLevel → Quiet level frames

theorem Room.mono {level higher : Nat} {frames : List Frame} (room : Room level frames)
    (le : level ≤ higher) : Room higher frames :=
  fun binary => (room (Nat.lt_of_le_of_lt le binary)).mono le

theorem Room.prefixed (frames : List Frame) : Room Phrase.prefixLevel frames :=
  fun binary => absurd binary (by decide)

theorem Room.access (frames : List Frame) : Room Phrase.accessLevel frames :=
  fun binary => absurd binary (by decide)

theorem precedence_lt_prefixLevel (op : BinaryOp) : op.precedence < Phrase.prefixLevel := by
  cases op <;> decide

/-- The tokens are read as an operand: closing the operators behind them gives the same as if
the operand were there as a whole. What can be accessed is there as a whole. -/
def Settles (level : Nat) (frames : List Frame) (tokens : List Token) (whole : Expr) : Prop :=
  ∃ pending operand, State.Leads ⟨frames, .operand⟩ tokens ⟨pending, .complete operand⟩ ∧
    (∀ least ≤ level, State.reduce least pending operand = State.reduce least frames whole) ∧
    (Phrase.accessLevel ≤ level → pending = frames ∧ operand = whole)

namespace Settles
variable {level : Nat} {frames : List Frame} {tokens : List Token} {whole : Expr}

theorem atom (leads : State.Leads ⟨frames, .operand⟩ tokens ⟨frames, .complete whole⟩) :
    Settles level frames tokens whole :=
  ⟨frames, whole, leads, fun _ _ => rfl, fun _ => ⟨rfl, rfl⟩⟩

theorem weaken {lower : Nat} (settles : Settles level frames tokens whole) (le : lower ≤ level) :
    Settles lower frames tokens whole := by
  obtain ⟨pending, operand, leads, closes, exact⟩ := settles
  exact ⟨pending, operand, leads, fun least below => closes least (Nat.le_trans below le),
    fun access => exact (Nat.le_trans access le)⟩

theorem leads (settles : Settles Phrase.accessLevel frames tokens whole) :
    State.Leads ⟨frames, .operand⟩ tokens ⟨frames, .complete whole⟩ := by
  obtain ⟨pending, operand, leads, -, exact⟩ := settles
  obtain ⟨rfl, rfl⟩ := exact (Nat.le_refl _)
  exact leads

/-- A token that closes all operators finds the operand. -/
theorem closed (settles : Settles level frames tokens whole) (quiet : Quiet 0 frames) {token : Token}
    {after : State}
    (step : ∀ pending operand, State.reduce 0 pending operand = (frames, whole) →
      State.extend? pending operand token = some after) :
    State.Leads ⟨frames, .operand⟩ (tokens ++ [token]) after := by
  obtain ⟨pending, operand, leads, closes, -⟩ := settles
  have found : State.reduce 0 pending operand = (frames, whole) :=
    (closes 0 (Nat.zero_le _)).trans (quiet.reduce whole)
  exact leads.append (.one (step pending operand found))

theorem group (settles : Settles level (.group :: frames) tokens whole) :
    State.Leads ⟨frames, .operand⟩ (.mark .parenOpen :: tokens ++ [.mark .parenClose])
      ⟨frames, .complete whole⟩ :=
  .cons rfl (settles.closed trivial fun pending operand found => by simp [State.extend?, found])

theorem member (settles : Settles Phrase.accessLevel frames tokens whole) (key : String) :
    Settles level frames (tokens ++ [.mark .dot, .ident key]) (.member whole key) :=
  .atom (settles.leads.append (.cons rfl (.one rfl)))

theorem index (settles : Settles Phrase.accessLevel frames tokens whole) {keyLevel : Nat} {keyTokens : List Token}
    {key : Expr} (inside : Settles keyLevel (.key whole :: frames) keyTokens key) :
    Settles level frames (tokens ++ .mark .bracketOpen :: keyTokens ++ [.mark .bracketClose]) (.index whole key) := by
  refine .atom ?_
  rw [List.append_assoc, List.cons_append]
  exact settles.leads.append (.cons rfl
    (inside.closed trivial fun pending operand found => by simp [State.extend?, found]))

theorem applied (op : PrefixOp) (settles : Settles Phrase.prefixLevel (.applied op :: frames) tokens whole) :
    Settles Phrase.prefixLevel frames (.mark (.ofPrefix op) :: tokens) (.applied op whole) := by
  obtain ⟨pending, operand, leads, closes, -⟩ := settles
  refine ⟨pending, operand, .cons ?_ leads, closes, fun access => absurd access (by decide)⟩
  cases op <;> rfl

theorem binary (strict : Bool) (op : BinaryOp) {left right : Expr} {leftTokens rightTokens : List Token}
    (quiet : Quiet op.precedence frames) (first : Settles op.precedence frames leftTokens left)
    (second : Settles (op.precedence + 1) (.left op left :: frames) rightTokens right) :
    Settles op.precedence frames (leftTokens ++ .mark (.ofBinary strict op) :: rightTokens)
      (.binary op left right) := by
  obtain ⟨leftPending, leftOperand, leftLeads, leftCloses, -⟩ := first
  obtain ⟨pending, operand, rightLeads, closes, -⟩ := second
  have found : State.reduce op.precedence leftPending leftOperand = (frames, left) :=
    (leftCloses op.precedence (Nat.le_refl _)).trans (quiet.reduce left)
  have step : State.extend? leftPending leftOperand (.mark (.ofBinary strict op)) =
      some ⟨.left op left :: frames, .operand⟩ := by
    cases op <;> cases strict <;>
      simp only [Mark.ofBinary, State.extend?, State.binaryOp?, Option.map_some, found, if_true, if_false,
        Bool.false_eq_true]
  refine ⟨pending, operand, leftLeads.append (.cons step rightLeads), ?_, ?_⟩
  · intro least below
    rw [closes least (Nat.le_succ_of_le below)]
    exact if_pos below
  · intro access
    exact absurd (Nat.lt_of_lt_of_le (precedence_lt_prefixLevel op) (by decide)) (Nat.not_lt.2 access)

end Settles

/-- A phrase is read where it has room. -/
def Readable (phrase : Phrase) : Prop :=
  ∀ frames, Room phrase.level frames → Settles phrase.level frames phrase.tokens phrase.expr

/-- Brackets make the room that a phrase needs. -/
theorem Readable.enclose {phrase : Phrase} (readable : Readable phrase) {least : Nat} {frames : List Frame}
    (room : Room least frames) :
    Settles least frames ((Word.enclose (phrase.level < least) phrase.words).map Word.token) phrase.expr := by
  by_cases loose : phrase.level < least
  · have inside := (readable (.group :: frames) fun _ => trivial).group
    simpa [Word.enclose, loose, Phrase.tokens, Word.token] using Settles.atom inside
  · have tight : least ≤ phrase.level := Nat.not_lt.1 loose
    have settles := (readable frames (room.mono tight)).weaken tight
    simpa [Word.enclose, loose, Phrase.tokens] using settles

mutual

theorem Phrase.readable (phrase : Phrase) : Readable phrase :=
  match phrase with
  | .null | .bool _ | .string .. | .number _ | .variable _ => fun _ _ => .atom (.one rfl)
  | .member object key => by
    intro frames _
    have settles := (readable object).enclose (Room.access frames)
    simpa [tokens, words, expr, Word.token] using settles.member key.text
  | .index object key => by
    intro frames _
    have settles := (readable object).enclose (Room.access frames)
    have inside := readable key (.key object.expr :: frames) fun _ => trivial
    simpa [tokens, words, expr, Word.token] using settles.index inside
  | .array items => by
    intro frames _
    refine .atom ?_
    simpa [tokens, words, expr, Word.token] using State.Leads.cons rfl (itemsLead items [] frames)
  | .applied op operand => by
    intro frames _
    have settles := (readable operand).enclose (Room.prefixed (.applied op :: frames))
    simpa [level, tokens, words, expr, Word.token] using settles.applied op
  | .binary strict op left right => by
    intro frames room
    have quiet : Quiet op.precedence frames := room (precedence_lt_prefixLevel op)
    have behind : Room (op.precedence + 1) (.left op left.expr :: frames) := fun _ => Nat.lt_succ_self _
    have first : Settles op.precedence frames _ left.expr := (readable left).enclose room
    have second := (readable right).enclose behind
    simpa [level, tokens, words, expr, Word.token] using Settles.binary strict op quiet first second
termination_by structural phrase

/-- The items behind those already read, up to the end of the array. -/
theorem Phrase.itemsLead (items : List Phrase) (before : List Expr) (frames : List Frame) :
    State.Leads ⟨.items before :: frames, .operand⟩ ((itemWords items).map Word.token ++ [.mark .bracketClose])
      ⟨frames, .complete (.array (before ++ exprs items))⟩ :=
  match items with
  | [] => .one (by simp [State.step?, State.startOperand?, exprs])
  | [item] => by
    have settles := readable item (.items before :: frames) fun _ => trivial
    exact settles.closed trivial fun pending operand found => by simp [State.extend?, found, exprs]
  | item :: next :: items => by
    have settles := readable item (.items before :: frames) fun _ => trivial
    have comma : State.Leads ⟨.items before :: frames, .operand⟩ (item.tokens ++ [.mark .comma])
        ⟨.items (before ++ [item.expr]) :: frames, .operand⟩ :=
      settles.closed trivial fun pending operand found => by simp [State.extend?, found]
    have rest := itemsLead (next :: items) (before ++ [item.expr]) frames
    simpa [itemWords, tokens, exprs, Word.token] using comma.append rest
termination_by structural items

end

theorem Nesting.excess?_eq_none {tokens : List (Located Token)} {nesting : Nesting} :
    nesting.excess? tokens = none ↔ nesting.fits (tokens.map Located.value) = true := by
  induction tokens generalizing nesting with
  | nil => simp [excess?, fits]
  | cons token tokens ih =>
    by_cases past : nestingCap < (nesting.step token.value).depth
    · simp [excess?, fits, past, Nat.not_le.2 past]
    · simp [excess?, fits, past, ih, Nat.not_lt.1 past]

theorem Phrase.finishes (phrase : Phrase) :
    ∃ last, State.Leads {} phrase.tokens last ∧ last.finish? = some phrase.expr := by
  obtain ⟨pending, operand, leads, closes, -⟩ := phrase.readable [] fun _ => trivial
  have found : State.reduce 0 pending operand = ([], phrase.expr) := closes 0 (Nat.zero_le _)
  exact ⟨_, leads, by simp [State.finish?, found]⟩

/-- A phrase that does not nest too deeply is read back from its text. -/
theorem parse_text (phrase : Phrase) (fits : Nesting.fits {} phrase.tokens) :
    parse phrase.text = .ok phrase.expr := by
  obtain ⟨located, read, same⟩ := lexFrom_spell phrase.words 0
  obtain ⟨last, leads, finished⟩ := phrase.finishes
  have cut : lex phrase.text = .ok located := by
    rw [lex, Phrase.text, String.toList_ofList, read]
  have shallow : Nesting.excess? {} located = none := by
    rw [Nesting.excess?_eq_none, same]
    exact fits
  have reached : State.run {} located = (last, none) := by
    refine State.Leads.run ?_
    rw [same]
    exact leads
  simp only [parse, cut, shallow, ofTokens, reached, finished]

/-- A name by itself is a variable. -/
theorem parse_name (name : Name) : parse name.text = .ok (.variable name.text) := by
  have taken := lexFrom_starts ((Word.ident name).starts (.inl rfl)) 0
  rw [List.append_nil, lexFrom_nil] at taken
  have cut : lex name.text = .ok [⟨.ident name.text, ⟨0, 0 + byteLength name.text.toList⟩⟩] := taken
  rw [parse, cut]
  rfl

/-- Both kinds of brackets, both groupings and both places of the minus sign. -/
def crowded : Phrase :=
  let user : Phrase := .variable ⟨"user", by decide, by simp [literalWords]⟩
  let half : Phrase := .number ⟨['0'], ['5'], by simp [Decimal.isDigit], by simp⟩
  let difference : Phrase := .binary false .sub user (.binary false .sub half (.applied .negate half))
  .binary true .eq (.applied .not (.index difference (.array [half, .string .single "it's"])))
    (.binary false .or (.member user ⟨"name", by decide, by simp [literalWords]⟩) .null)

theorem parse_text_crowded : Nesting.fits {} crowded.tokens = true ∧
    crowded.text = "! ( user - ( 0.5 - - 0.5 ) ) [ [ 0.5 , 'it\\'s' ] ] === ( user . name || null )" ∧
    parse crowded.text = .ok crowded.expr :=
  ⟨rfl, by decide, parse_text crowded rfl⟩

end Stencil.Expr
