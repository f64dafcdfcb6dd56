import Stencil.Json.Reader
import Stencil.Proofs.NearestNumber

/-! What a text denotes as JSON, said apart from the reader: a numeral of any length stands
for its exact number, and values stand inside each other to any depth. A text denotes one
value at most, and it is settled where that value ends. -/

namespace Stencil.Json
open Decimal

/-- A number as it is spelled. -/
structure Numeral where
  negative : Bool
  size : Digits
  /-- Neither a fraction nor an exponent is written. -/
  whole : Bool

namespace Numeral

/-- The digits behind a point where one is written, and the text behind them. -/
def fraction? : List Char → Option (List Char × List Char)
  | '.' :: text =>
    let digits := text.takeWhile isDigit
    if digits.isEmpty then none else some (digits, text.dropWhile isDigit)
  | text => some ([], text)

/-- A zero stands in front of no other digit. -/
def unsigned? (negative : Bool) (text : List Char) : Option Numeral := do
  let whole := text.takeWhile isDigit
  let rest := text.dropWhile isDigit
  if whole.isEmpty || (whole.head? == some '0' && 1 < whole.length) then none
  else
    let (fraction, power) ← fraction? rest
    let exponent ← exponent? power
    some ⟨negative, ⟨natOfDigits (whole ++ fraction), exponent - fraction.length⟩, rest.isEmpty⟩

def read? : List Char → Option Numeral
  | '-' :: text => unsigned? true text
  | text => unsigned? false text

def integer (numeral : Numeral) : Int :=
  if numeral.negative then -numeral.size.digits else numeral.size.digits

end Numeral

def isNumeralChar (c : Char) : Bool := isDigit c || c = '-' || c = '+' || c = '.' || c = 'e' || c = 'E'

/-- The numeral in front of all that cannot belong to one. -/
def numeral? (text : List Char) : Option Numeral := Numeral.read? (text.takeWhile isNumeralChar)

mutual
/-- Behind blanks the text starts with the value, and the rest follows. A number with a fraction or an exponent
is the nearest one that is binary. -/
inductive Denotes : List Char → Json → List Char → Prop
  | null {text rest : List Char} (here : skipBlanks text = "null".toList ++ rest) : Denotes text .null rest
  | bool {text rest : List Char} (value : Bool)
    (here : skipBlanks text = (if value then "true" else "false").toList ++ rest) : Denotes text (.bool value) rest
  | integer {text : List Char} {numeral : Numeral} (read : numeral? (skipBlanks text) = some numeral)
    (whole : numeral.whole = true) :
    Denotes text (.integer numeral.integer) ((skipBlanks text).dropWhile isNumeralChar)
  | decimal {text : List Char} {numeral : Numeral} {number : Float} {x : Binary}
    (read : numeral? (skipBlanks text) = some numeral) (broken : numeral.whole = false)
    (finite : Binary.ofFloat? number = some x) (sign : x.negative = numeral.negative)
    (rounds : x.Rounds numeral.size.value) :
    Denotes text (.decimal number) ((skipBlanks text).dropWhile isNumeralChar)
  | string {text inner chars rest : List Char} (opened : skipBlanks text = '"' :: inner)
    (read : readChars? inner = some (chars, rest)) : Denotes text (.string (String.ofList chars)) rest
  | noItems {text inner rest : List Char} (opened : skipBlanks text = '[' :: inner)
    (closed : skipBlanks inner = ']' :: rest) : Denotes text (.array []) rest
  | array {text inner rest : List Char} {items : List Json} (opened : skipBlanks text = '[' :: inner)
    (content : Items inner items rest) : Denotes text (.array items) rest
  | noMembers {text inner rest : List Char} (opened : skipBlanks text = '\x7b' :: inner)
    (closed : skipBlanks inner = '\x7d' :: rest) : Denotes text (.object []) rest
  | object {text inner rest : List Char} {members : List (String × Json)}
    (opened : skipBlanks text = '\x7b' :: inner) (content : Members inner members rest) :
    Denotes text (.object members) rest

/-- Values with commas between them, and the bracket behind the last one. -/
inductive Items : List Char → List Json → List Char → Prop
  | last {text middle rest : List Char} {item : Json} (denotes : Denotes text item middle)
    (closed : skipBlanks middle = ']' :: rest) : Items text [item] rest
  | more {text middle next rest : List Char} {item : Json} {items : List Json} (denotes : Denotes text item middle)
    (comma : skipBlanks middle = ',' :: next) (others : Items next items rest) : Items text (item :: items) rest

/-- A name in quotes, a colon and a value. -/
inductive Member : List Char → String × Json → List Char → Prop
  | named {text inner chars middle behind rest : List Char} {value : Json} (opened : skipBlanks text = '"' :: inner)
    (read : readChars? inner = some (chars, middle)) (colon : skipBlanks middle = ':' :: behind)
    (denotes : Denotes behind value rest) : Member text (String.ofList chars, value) rest

inductive Members : List Char → List (String × Json) → List Char → Prop
  | last {text middle rest : List Char} {member : String × Json} (denotes : Member text member middle)
    (closed : skipBlanks middle = '\x7d' :: rest) : Members text [member] rest
  | more {text middle next rest : List Char} {member : String × Json} {members : List (String × Json)}
    (denotes : Member text member middle) (comma : skipBlanks middle = ',' :: next)
    (others : Members next members rest) : Members text (member :: members) rest
end

/-- The whole text is the document, but for blanks around it. -/
def Means (text : String) (document : Json) : Prop :=
  ∃ rest, Denotes text.toList document rest ∧ skipBlanks rest = []

/-- What the first character of a value tells about it. -/
inductive Kind where
  | null
  | bool (value : Bool)
  | number
  | string
  | array
  | object

def kind : Json → Kind
  | .null => .null
  | .bool value => .bool value
  | .integer _ | .decimal _ => .number
  | .string _ => .string
  | .array _ => .array
  | .object _ => .object

def kindAt? : List Char → Option Kind
  | [] => none
  | c :: _ =>
    if isNumeralChar c then some .number
    else match c with
      | 'n' => some .null
      | 't' => some (.bool true)
      | 'f' => some (.bool false)
      | '"' => some .string
      | '[' => some .array
      | '\x7b' => some .object
      | _ => none

theorem kindAt_numeral {text : List Char} {numeral : Numeral} (read : numeral? text = some numeral) :
    kindAt? text = some .number := by
  cases text with
  | nil => cases read
  | cons c tail =>
    cases starts : isNumeralChar c with
    | true => simp [kindAt?, starts]
    | false =>
      rw [numeral?, List.takeWhile_cons_of_neg (by simp [starts])] at read
      cases read

theorem Denotes.kindAt {text rest : List Char} {value : Json} (denotes : Denotes text value rest) :
    kindAt? (skipBlanks text) = some value.kind := by
  cases denotes with
  | null here => rw [here]; rfl
  | bool value here => cases value <;> rw [here] <;> rfl
  | integer read => exact kindAt_numeral read
  | decimal read => exact kindAt_numeral read
  | string opened => rw [opened]; rfl
  | noItems opened => rw [opened]; rfl
  | array opened => rw [opened]; rfl
  | noMembers opened => rw [opened]; rfl
  | object opened => rw [opened]; rfl

/-- A list that has items does not start with the bracket that ends it. -/
theorem Items.not_closed {text rest tail : List Char} {items : List Json} (content : Items text items rest) :
    skipBlanks text ≠ ']' :: tail := by
  intro closed
  cases content with
  | last denotes => cases closed ▸ denotes.kindAt
  | more denotes => cases closed ▸ denotes.kindAt

theorem Members.not_closed {text rest tail : List Char} {members : List (String × Json)}
    (content : Members text members rest) : skipBlanks text ≠ '\x7d' :: tail := by
  intro closed
  cases content with
  | last denotes => cases denotes with | named opened => cases closed.symm.trans opened
  | more denotes => cases denotes with | named opened => cases closed.symm.trans opened

mutual
theorem Denotes.unique {text rest rest' : List Char} {value value' : Json} (denotes : Denotes text value rest)
    (denotes' : Denotes text value' rest') : value = value' ∧ rest = rest' := by
  -- The first character tells the kind, so only values of one kind are left to be compared.
  have same : value.kind = value'.kind := Option.some.inj (denotes.kindAt.symm.trans denotes'.kindAt)
  cases denotes with
  | null here =>
    cases denotes' with
    | null here' => exact ⟨rfl, List.append_cancel_left (here.symm.trans here')⟩
    | _ => cases same
  | bool value here =>
    cases denotes' with
    | bool value' here' =>
      cases same
      exact ⟨rfl, List.append_cancel_left (here.symm.trans here')⟩
    | _ => cases same
  | integer read whole =>
    cases denotes' with
    | integer read' =>
      cases read.symm.trans read'
      exact ⟨rfl, rfl⟩
    | decimal read' broken =>
      cases read.symm.trans read'
      cases whole.symm.trans broken
    | _ => cases same
  | decimal read broken finite sign rounds =>
    cases denotes' with
    | integer read' whole =>
      cases read.symm.trans read'
      cases whole.symm.trans broken
    | decimal read' broken' finite' sign' rounds' =>
      cases read.symm.trans read'
      rw [rounds.unique rounds' finite finite' (sign.trans sign'.symm)]
      exact ⟨rfl, rfl⟩
    | _ => cases same
  | string opened read =>
    cases denotes' with
    | string opened' read' =>
      cases opened.symm.trans opened'
      cases read.symm.trans read'
      exact ⟨rfl, rfl⟩
    | _ => cases same
  | noItems opened closed =>
    cases denotes' with
    | noItems opened' closed' =>
      cases opened.symm.trans opened'
      cases closed.symm.trans closed'
      exact ⟨rfl, rfl⟩
    | array opened' content' =>
      cases opened.symm.trans opened'
      exact absurd closed content'.not_closed
    | _ => cases same
  | array opened content =>
    cases denotes' with
    | noItems opened' closed' =>
      cases opened.symm.trans opened'
      exact absurd closed' content.not_closed
    | array opened' content' =>
      cases opened.symm.trans opened'
      obtain ⟨rfl, rfl⟩ := content.unique content'
      exact ⟨rfl, rfl⟩
    | _ => cases same
  | noMembers opened closed =>
    cases denotes' with
    | noMembers opened' closed' =>
      cases opened.symm.trans opened'
      cases closed.symm.trans closed'
      exact ⟨rfl, rfl⟩
    | object opened' content' =>
      cases opened.symm.trans opened'
      exact absurd closed content'.not_closed
    | _ => cases same
  | object opened content =>
    cases denotes' with
    | noMembers opened' closed' =>
      cases opened.symm.trans opened'
      exact absurd closed' content.not_closed
    | object opened' content' =>
      cases opened.symm.trans opened'
      obtain ⟨rfl, rfl⟩ := content.unique content'
      exact ⟨rfl, rfl⟩
    | _ => cases same
termination_by sizeOf value

theorem Items.unique {text rest rest' : List Char} {items items' : List Json} (content : Items text items rest)
    (content' : Items text items' rest') : items = items' ∧ rest = rest' := by
  cases content with
  | last denotes closed =>
    cases content' with
    | last denotes' closed' =>
      obtain ⟨rfl, rfl⟩ := denotes.unique denotes'
      cases closed.symm.trans closed'
      exact ⟨rfl, rfl⟩
    | more denotes' comma =>
      obtain ⟨rfl, rfl⟩ := denotes.unique denotes'
      cases closed.symm.trans comma
  | more denotes comma others =>
    cases content' with
    | last denotes' closed =>
      obtain ⟨rfl, rfl⟩ := denotes.unique denotes'
      cases comma.symm.trans closed
    | more denotes' comma' others' =>
      obtain ⟨rfl, rfl⟩ := denotes.unique denotes'
      cases comma.symm.trans comma'
      obtain ⟨rfl, rfl⟩ := others.unique others'
      exact ⟨rfl, rfl⟩
termination_by sizeOf items

theorem Member.unique {text rest rest' : List Char} {member member' : String × Json} (denotes : Member text member rest)
    (denotes' : Member text member' rest') : member = member' ∧ rest = rest' := by
  cases denotes with
  | named opened read colon denotes =>
    cases denotes' with
    | named opened' read' colon' denotes' =>
      cases opened.symm.trans opened'
      cases read.symm.trans read'
      cases colon.symm.trans colon'
      obtain ⟨rfl, rfl⟩ := denotes.unique denotes'
      exact ⟨rfl, rfl⟩
termination_by sizeOf member

theorem Members.unique {text rest rest' : List Char} {members members' : List (String × Json)}
    (content : Members text members rest) (content' : Members text members' rest') :
    members = members' ∧ rest = rest' := by
  cases content with
  | last denotes closed =>
    cases content' with
    | last denotes' closed' =>
      obtain ⟨rfl, rfl⟩ := denotes.unique denotes'
      cases closed.symm.trans closed'
      exact ⟨rfl, rfl⟩
    | more denotes' comma =>
      obtain ⟨rfl, rfl⟩ := denotes.unique denotes'
      cases closed.symm.trans comma
  | more denotes comma others =>
    cases content' with
    | last denotes' closed =>
      obtain ⟨rfl, rfl⟩ := denotes.unique denotes'
      cases comma.symm.trans closed
    | more denotes' comma' others' =>
      obtain ⟨rfl, rfl⟩ := denotes.unique denotes'
      cases comma.symm.trans comma'
      obtain ⟨rfl, rfl⟩ := others.unique others'
      exact ⟨rfl, rfl⟩
termination_by sizeOf members
end

theorem Means.unique {text : String} {document document' : Json} (means : Means text document)
    (means' : Means text document') : document = document' := by
  obtain ⟨_, denotes, _⟩ := means
  obtain ⟨_, denotes', _⟩ := means'
  exact (denotes.unique denotes').1

end Stencil.Json
