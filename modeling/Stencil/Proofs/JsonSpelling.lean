import Stencil.Proofs.DigitText
import Stencil.Proofs.JsonGrammar
import Stencil.Value

/-! The text that a document is written as denotes it, on one line and on many, in front of
all that cannot go on with a numeral. Escaped characters are read back, and a decimal is
written with digits that round to it. -/

namespace Stencil

namespace Decimal

theorem natOfDigits_append_zeros (digits : List Char) (count : Nat) :
    natOfDigits (digits ++ List.replicate count '0') = 10 ^ count * natOfDigits digits := by
  change Nat.ofDigitChars 10 _ 0 = _ * Nat.ofDigitChars 10 _ 0
  rw [Nat.ofDigitChars_append, Nat.ofDigitChars_replicate_zero]

theorem Digits.value_shifted (digits count : Nat) (scale : Int) :
    Digits.value ⟨10 ^ count * digits, scale - count⟩ = Digits.value ⟨digits, scale⟩ := by
  unfold Digits.value
  rw [zpow_sub₀ (by norm_num), zpow_natCast]
  push_cast
  field_simp

end Decimal

namespace Json
open Decimal

/-- Text that no numeral goes on with. -/
def Ends (rest : List Char) : Prop := rest.takeWhile isNumeralChar = []

/-- The whole text is the numeral. -/
structure Spells (text : List Char) (numeral : Numeral) : Prop where
  chars : ∀ c ∈ text, isNumeralChar c = true
  read : Numeral.read? text = some numeral

theorem isNumeralChar_of_isDigit {c : Char} (digit : isDigit c = true) : isNumeralChar c = true := by
  simp [isNumeralChar, digit]

namespace Numeral
variable {negative : Bool} {whole tail fraction power : List Char} {exponent : Int}

theorem fraction?_digits (digits : ∀ c ∈ fraction, isDigit c = true) (nonempty : fraction ≠ [])
    (stops : power.takeWhile isDigit = []) : fraction? ('.' :: (fraction ++ power)) = some (fraction, power) := by
  simp only [fraction?, takeWhile_append digits stops, dropWhile_append digits stops]
  rw [if_neg (by simpa using nonempty)]

theorem exponent?_power (size : Int) :
    exponent? ('e' :: (if size < 0 then '-' else '+') :: Nat.toDigits 10 size.natAbs) = some size := by
  have digits : (Nat.toDigits 10 size.natAbs).all isDigit = true :=
    List.all_eq_true.2 fun _ => isDigit_of_mem_toDigits
  have nonempty : (Nat.toDigits 10 size.natAbs).isEmpty = false := by simp [Nat.toDigits_ne_nil]
  unfold exponent? integer?
  by_cases negative : size < 0
  · simp [negative, digits, nonempty, natOfDigits_toDigits, abs_of_neg]
  · simp [negative, digits, nonempty, natOfDigits_toDigits, abs_of_nonneg (not_lt.1 negative)]

/-- What can stand behind the point of a numeral. -/
theorem chars_pointed (digits : ∀ c ∈ fraction, isDigit c = true) (behind : ∀ c ∈ power, isNumeralChar c = true) :
    ∀ c ∈ '.' :: (fraction ++ power), isNumeralChar c = true :=
  List.forall_mem_cons.2 ⟨rfl, List.forall_mem_append.2 ⟨fun c mem => isNumeralChar_of_isDigit (digits c mem), behind⟩⟩

/-- A numeral put together from its parts. -/
theorem spells (digits : ∀ c ∈ whole, isDigit c = true) (nonempty : whole ≠ [])
    (lead : whole.head? = some '0' → whole.length ≤ 1) (stops : tail.takeWhile isDigit = [])
    (behind : ∀ c ∈ tail, isNumeralChar c = true) (point : fraction? tail = some (fraction, power))
    (scale : exponent? power = some exponent) :
    Spells ((if negative then "-" else "").toList ++ (whole ++ tail))
      ⟨negative, ⟨natOfDigits (whole ++ fraction), exponent - fraction.length⟩, tail.isEmpty⟩ where
  chars c mem := by
    rcases List.mem_append.1 mem with sign | mem
    · cases negative with
      | true => rw [List.mem_singleton.1 sign]; rfl
      | false => cases sign
    · rcases List.mem_append.1 mem with mem | mem
      · exact isNumeralChar_of_isDigit (digits c mem)
      · exact behind c mem
  read := by
    have proper : (whole.isEmpty || (whole.head? == some '0' && decide (1 < whole.length))) = false := by
      simp only [Bool.or_eq_false_iff, Bool.and_eq_false_imp, beq_iff_eq, decide_eq_false_iff_not, not_lt]
      exact ⟨by simpa using nonempty, lead⟩
    have unsigned : unsigned? negative (whole ++ tail) = some
        ⟨negative, ⟨natOfDigits (whole ++ fraction), exponent - fraction.length⟩, tail.isEmpty⟩ := by
      unfold unsigned?
      simp only [takeWhile_append digits stops, dropWhile_append digits stops, proper, point]
      simp [scale]
    cases negative with
    | true => exact unsigned
    | false =>
      rw [← unsigned]
      cases whole with
      | nil => exact absurd rfl nonempty
      | cons c whole =>
        have notSign : c ≠ '-' := by rintro rfl; simp [isDigit] at digits
        simp [read?, notSign]

end Numeral

/-- An integer is spelled as a numeral that is whole. -/
theorem spells_integer (value : Int) :
    ∃ numeral, Spells (toString value).toList numeral ∧ numeral.whole = true ∧ numeral.integer = value := by
  rw [toList_toString, ← List.append_nil (Nat.toDigits 10 value.natAbs)]
  refine ⟨_, Numeral.spells (fun _ => isDigit_of_mem_toDigits) Nat.toDigits_ne_nil ?_ rfl (by simp) rfl rfl, rfl, ?_⟩
  · intro zero
    rcases Nat.eq_zero_or_pos value.natAbs with none | positive
    · rw [none, Nat.toDigits_zero]
      exact le_rfl
    · exact absurd zero (head_toDigits positive)
  · simp only [Numeral.integer, List.append_nil, natOfDigits_toDigits, decide_eq_true_eq]
    split <;> omega

/-- With either sign in front the text is a numeral of that size, and it is not spelled as an integer. -/
def Measures (text : List Char) (size : ℚ) : Prop :=
  ∀ negative : Bool, ∃ numeral, Spells ((if negative then "-" else "").toList ++ text) numeral ∧
    numeral.negative = negative ∧ numeral.whole = false ∧ numeral.size.value = size

theorem measures_parts (whole tail fraction : List Char) {power : List Char} {exponent : Int}
    (digits : ∀ c ∈ whole, isDigit c = true) (nonempty : whole ≠ [])
    (lead : whole.head? = some '0' → whole.length ≤ 1) (stops : tail.takeWhile isDigit = [])
    (behind : ∀ c ∈ tail, isNumeralChar c = true) (point : Numeral.fraction? tail = some (fraction, power))
    (scale : exponent? power = some exponent) (more : tail ≠ []) :
    Measures (whole ++ tail) (Digits.value ⟨natOfDigits (whole ++ fraction), exponent - fraction.length⟩) := fun _ =>
  ⟨_, Numeral.spells digits nonempty lead stops behind point scale, rfl, by simpa using more, rfl⟩

section Decimals
variable {n : Nat} {exponent : Int}

theorem measures_below (small : exponent < 0) :
    Measures (layout.positionalText (Nat.toDigits 10 n) exponent).toList
      (Digits.value ⟨n, exponent + 1 - (Nat.toDigits 10 n).length⟩) := by
  let zeros := List.replicate (-exponent - 1).toNat '0'
  have fraction (c : Char) (mem : c ∈ zeros ++ Nat.toDigits 10 n) : isDigit c = true := by
    rcases List.mem_append.1 mem with mem | mem
    · rw [List.eq_of_mem_replicate mem]; rfl
    · exact isDigit_of_mem_toDigits mem
  have behind := Numeral.chars_pointed fraction (List.forall_mem_nil _)
  have text : (layout.positionalText (Nat.toDigits 10 n) exponent).toList =
      ['0'] ++ '.' :: (zeros ++ Nat.toDigits 10 n ++ []) := by
    simp [Layout.positionalText, small, Layout.zeros, zeros]
  have size : natOfDigits (['0'] ++ (zeros ++ Nat.toDigits 10 n)) = n :=
    (natOfDigits_zeros_append ((-exponent - 1).toNat + 1) (Nat.toDigits 10 n)).trans (natOfDigits_toDigits n)
  have scale : 0 - ((zeros ++ Nat.toDigits 10 n).length : Int) = exponent + 1 - (Nat.toDigits 10 n).length := by
    simp only [zeros, List.length_append, List.length_replicate]
    omega
  have measures := measures_parts ['0'] _ _ (by simp [isDigit]) (by simp) (by simp) (by simp [isDigit]) behind
    (Numeral.fraction?_digits fraction (by simp [Nat.toDigits_ne_nil]) rfl) rfl (by simp)
  rwa [size, scale, ← text] at measures

theorem measures_padded (large : 0 ≤ exponent) (enough : (Nat.toDigits 10 n).length ≤ exponent.toNat + 1)
    (lead : n = 0 → exponent = 0) :
    Measures (layout.positionalText (Nat.toDigits 10 n) exponent).toList
      (Digits.value ⟨n, exponent + 1 - (Nat.toDigits 10 n).length⟩) := by
  let count := exponent.toNat + 1 - (Nat.toDigits 10 n).length
  let zeros := List.replicate count '0'
  have whole (c : Char) (mem : c ∈ Nat.toDigits 10 n ++ zeros) : isDigit c = true := by
    rcases List.mem_append.1 mem with mem | mem
    · exact isDigit_of_mem_toDigits mem
    · rw [List.eq_of_mem_replicate mem]; rfl
  have text : (layout.positionalText (Nat.toDigits 10 n) exponent).toList =
      Nat.toDigits 10 n ++ zeros ++ ".0".toList := by
    simp [Layout.positionalText, not_lt.2 large, enough, Layout.zeros, layout, zeros, count]
  have first : (Nat.toDigits 10 n ++ zeros).head? = some '0' → (Nat.toDigits 10 n ++ zeros).length ≤ 1 := by
    rw [List.head?_append_of_ne_nil _ Nat.toDigits_ne_nil]
    intro zero
    have none : n = 0 := Nat.eq_zero_of_not_pos fun positive => head_toDigits positive zero
    simp [none, lead none, zeros, count]
  have size : natOfDigits (Nat.toDigits 10 n ++ zeros ++ ['0']) = 10 ^ (count + 1) * n := by
    rw [List.append_assoc, ← List.replicate_succ', natOfDigits_append_zeros, natOfDigits_toDigits]
  have measures := measures_parts _ ".0".toList ['0'] whole (by simp [Nat.toDigits_ne_nil]) first (by simp [isDigit])
    (by simp [isNumeralChar, isDigit]) rfl rfl (by simp)
  have scale : 0 - ((['0'] : List Char).length : Int) =
      exponent + 1 - (Nat.toDigits 10 n).length - (count + 1 : Nat) := by
    simp only [count, List.length_singleton]
    omega
  rwa [size, scale, Digits.value_shifted, ← text] at measures

theorem measures_pointed (large : 0 ≤ exponent) (more : exponent.toNat + 1 < (Nat.toDigits 10 n).length) :
    Measures (layout.positionalText (Nat.toDigits 10 n) exponent).toList
      (Digits.value ⟨n, exponent + 1 - (Nat.toDigits 10 n).length⟩) := by
  let count := exponent.toNat + 1
  have fraction (c : Char) (mem : c ∈ (Nat.toDigits 10 n).drop count) : isDigit c = true :=
    isDigit_of_mem_toDigits (List.mem_of_mem_drop mem)
  have behind := Numeral.chars_pointed fraction (List.forall_mem_nil _)
  have text : (layout.positionalText (Nat.toDigits 10 n) exponent).toList =
      (Nat.toDigits 10 n).take count ++ '.' :: ((Nat.toDigits 10 n).drop count ++ []) := by
    simp [Layout.positionalText, not_lt.2 large, not_le.2 more, count]
  have first : ((Nat.toDigits 10 n).take count).head? = some '0' → ((Nat.toDigits 10 n).take count).length ≤ 1 := by
    rw [List.head?_take, if_neg (by simp [count])]
    intro zero
    have none : n = 0 := Nat.eq_zero_of_not_pos fun positive => head_toDigits positive zero
    rw [none, Nat.toDigits_zero] at more
    simp at more
  have scale : 0 - (((Nat.toDigits 10 n).drop count).length : Int) = exponent + 1 - (Nat.toDigits 10 n).length := by
    simp only [count, List.length_drop]
    omega
  have measures := measures_parts _ _ _ (fun c mem => isDigit_of_mem_toDigits (List.mem_of_mem_take mem))
    (by simp [count, Nat.toDigits_ne_nil]) first (by simp [isDigit]) behind
    (Numeral.fraction?_digits fraction (by simp [count]; omega) rfl) rfl (by simp)
  rwa [List.take_append_drop, natOfDigits_toDigits, scale, ← text] at measures

theorem measures_scientific :
    Measures (Layout.scientificText (Nat.toDigits 10 n) exponent).toList
      (Digits.value ⟨n, exponent + 1 - (Nat.toDigits 10 n).length⟩) := by
  let power := 'e' :: (if exponent < 0 then '-' else '+') :: Nat.toDigits 10 exponent.natAbs
  have scale : exponent? power = some exponent := Numeral.exponent?_power exponent
  have letters (c : Char) (mem : c ∈ power) : isNumeralChar c = true := by
    rcases List.mem_cons.1 mem with rfl | mem
    · rfl
    rcases List.mem_cons.1 mem with rfl | mem
    · split <;> rfl
    · exact isNumeralChar_of_isDigit (isDigit_of_mem_toDigits mem)
  have digits (c : Char) (mem : c ∈ Nat.toDigits 10 n) : isDigit c = true := isDigit_of_mem_toDigits mem
  have value := natOfDigits_toDigits n
  have sign : (if exponent < 0 then "-" else "+").toList = [if exponent < 0 then '-' else '+'] := by
    split <;> rfl
  match written : Nat.toDigits 10 n with
  | [] => exact absurd written Nat.toDigits_ne_nil
  | [first] =>
    rw [written] at digits value
    have text : (Layout.scientificText [first] exponent).toList = [first] ++ power := by
      simp [Layout.scientificText, sign, power]
    have measures := measures_parts [first] power [] digits (by simp) (by simp) (by simp [power, isDigit]) letters
      rfl scale (by simp [power])
    rw [List.append_nil, value, ← text] at measures
    convert measures using 3
    simp
  | first :: second :: others =>
    rw [written] at digits value
    have fraction (c : Char) (mem : c ∈ second :: others) : isDigit c = true := digits c (List.mem_cons_of_mem _ mem)
    have behind := Numeral.chars_pointed fraction letters
    have text : (Layout.scientificText (first :: second :: others) exponent).toList =
        [first] ++ '.' :: (second :: others ++ power) := by
      simp [Layout.scientificText, sign, power]
    have measures := measures_parts [first] _ _ (by simpa using digits first List.mem_cons_self) (by simp)
      (by simp) (by simp [isDigit]) behind (Numeral.fraction?_digits fraction (by simp) (by simp [power, isDigit]))
      scale (by simp)
    have place : exponent - ((second :: others).length : Int) = exponent + 1 - (first :: second :: others).length := by
      simp only [List.length_cons]
      omega
    have size : natOfDigits ([first] ++ second :: others) = n := value
    rwa [size, place, ← text] at measures

theorem measures_laid (n : Nat) (exponent : Int) (lead : n = 0 → exponent = 0) :
    Measures (if layout.isPositional exponent then layout.positionalText (Nat.toDigits 10 n) exponent
      else Layout.scientificText (Nat.toDigits 10 n) exponent).toList
      (Digits.value ⟨n, exponent + 1 - (Nat.toDigits 10 n).length⟩) := by
  split
  next =>
    rcases lt_or_ge exponent 0 with small | large
    · exact measures_below small
    · rcases Nat.lt_or_ge (exponent.toNat + 1) (Nat.toDigits 10 n).length with more | enough
      · exact measures_pointed large more
      · exact measures_padded large enough lead
  next => exact measures_scientific

end Decimals

/-- What is written for a number measures its shortest decimal. -/
theorem measures_magnitude (x : Binary) : Measures (layout.magnitude x).toList (x.shortest layout.tie).value := by
  have zero : x.isZero = true → x.shortest layout.tie = ⟨0, 0⟩ := fun zero => by simp [Binary.shortest, zero]
  have positive : x.isZero = false → 0 < (x.shortest layout.tie).digits := fun some =>
    Binary.shortest_pos layout.tie (Nat.pos_of_ne_zero (of_decide_eq_false some))
  unfold Layout.magnitude
  generalize x.shortest layout.tie = decimal at zero positive ⊢
  cases none : x.isZero with
  | true =>
    rw [zero none]
    exact measures_laid 0 0 fun _ => rfl
  | false =>
    have measures := measures_laid decimal.digits (decimal.scale + (Nat.toDigits 10 decimal.digits).length - 1)
      fun zero => absurd zero (positive none).ne'
    rwa [sub_add_cancel, add_sub_cancel_right] at measures

namespace Spells
variable {text rest : List Char} {numeral : Numeral} (spells : Spells text numeral)
include spells

theorem skipBlanks_append : skipBlanks (text ++ rest) = text ++ rest := by
  cases text with
  | nil => cases spells.read
  | cons c text =>
    have first := spells.chars c List.mem_cons_self
    refine List.dropWhile_cons_of_neg fun blank => ?_
    simp only [Bool.or_eq_true, decide_eq_true_eq] at blank
    rcases blank with ((rfl | rfl) | rfl) | rfl <;> simp [isNumeralChar, isDigit] at first

variable (ends : Ends rest)
include ends

theorem numeral?_append : numeral? (skipBlanks (text ++ rest)) = some numeral := by
  rw [spells.skipBlanks_append, numeral?, takeWhile_append spells.chars ends, spells.read]

theorem dropWhile_append : (skipBlanks (text ++ rest)).dropWhile isNumeralChar = rest := by
  rw [spells.skipBlanks_append, Decimal.dropWhile_append spells.chars ends]

end Spells

theorem denotes_integer (value : Int) {rest : List Char} (ends : Ends rest) :
    Denotes ((toString value).toList ++ rest) (.integer value) rest := by
  obtain ⟨numeral, spells, whole, integer⟩ := spells_integer value
  have denotes := Denotes.integer (spells.numeral?_append ends) whole
  rwa [spells.dropWhile_append ends, integer] at denotes

theorem denotes_decimal {number : Float} {x : Binary} {rest : List Char} (finite : Binary.ofFloat? number = some x)
    (ends : Ends rest) : Denotes ((decimalText number).toList ++ rest) (.decimal number) rest := by
  obtain ⟨numeral, spells, sign, broken, size⟩ := measures_magnitude x x.negative
  have rounds : x.Rounds numeral.size.value := size ▸ Binary.rounds_shortest finite layout.tie
  have denotes := Denotes.decimal (spells.numeral?_append ends) broken finite sign.symm rounds
  rw [spells.dropWhile_append ends] at denotes
  simpa [decimalText, finite, Layout.write] using denotes

/-! ## Texts in quotes -/

section Quoted
variable (rest : List Char)

theorem readChars?_simple {mark meant : Char} (known : simpleEscape? mark = some meant) :
    readChars? ('\\' :: mark :: rest) = (readChars? rest).map fun (chars, rest) => (meant :: chars, rest) := by
  rw [Option.map_eq_bind]
  unfold simpleEscape? at known
  split at known <;> cases known <;> rfl

theorem readChars?_unit {a b c d : Char} {unit : Nat} (read : hexUnit? a b c d = some unit)
    (whole : unit < 0xD800 ∨ 0xE000 ≤ unit) : readChars? ('\\' :: 'u' :: a :: b :: c :: d :: rest) =
      (readChars? rest).map fun (chars, rest) => (Char.ofNat unit :: chars, rest) := by
  rw [readChars?.eq_3, read, Option.bind_eq_bind, Option.bind_some, if_neg (by simp; omega), if_neg (by simp; omega),
    Option.map_eq_bind]
  rfl

theorem readChars?_pair {a b c d e f g h : Char} {high low : Nat} (read : hexUnit? a b c d = some high)
    (read' : hexUnit? e f g h = some low) (first : 0xD800 ≤ high ∧ high < 0xDC00)
    (second : 0xDC00 ≤ low ∧ low < 0xE000) :
    readChars? ('\\' :: 'u' :: a :: b :: c :: d :: '\\' :: 'u' :: e :: f :: g :: h :: rest) =
      (readChars? rest).map fun (chars, rest) =>
        (Char.ofNat (0x10000 + (high - 0xD800) * 0x400 + (low - 0xDC00)) :: chars, rest) := by
  rw [readChars?.eq_3, read, Option.bind_eq_bind, Option.bind_some, if_pos (by simpa using first)]
  change (hexUnit? e f g h).bind _ = _
  rw [read', Option.bind_some, if_pos (by simpa using second), Option.map_eq_bind]
  rfl

theorem hexValue?_hexDigit : ∀ n < 16, hexValue? (hexDigit n) = some n := by decide

/-- A small number is read back from its two digits. -/
theorem hexUnit?_hexDigits {n : Nat} (small : n < 256) :
    hexUnit? '0' '0' (hexDigit (n / 16)) (hexDigit (n % 16)) = some n := by
  have zero : hexValue? '0' = some 0 := by decide
  have number : ((0 * 16 + 0) * 16 + n / 16) * 16 + n % 16 = n := by omega
  simp only [hexUnit?, zero, hexValue?_hexDigit (n / 16) (by omega), hexValue?_hexDigit (n % 16) (by omega)]
  exact congrArg some number

theorem readChars?_escapeChar (c : Char) :
    readChars? (escapeChar c ++ rest) = (readChars? rest).map fun (chars, rest) => (c :: chars, rest) := by
  unfold escapeChar
  by_cases quote : c = '"'
  · subst quote; exact readChars?_simple rest rfl
  by_cases slash : c = '\\'
  · subst slash; exact readChars?_simple rest rfl
  by_cases line : c = '\n'
  · subst line; exact readChars?_simple rest rfl
  by_cases carriage : c = '\r'
  · subst carriage; exact readChars?_simple rest rfl
  by_cases tab : c = '\t'
  · subst tab; exact readChars?_simple rest rfl
  rw [if_neg quote, if_neg slash, if_neg line, if_neg carriage, if_neg tab]
  by_cases back : c.toNat = 8
  · rw [if_pos back, ← Char.ofNat_toNat c, back]
    exact readChars?_simple rest rfl
  by_cases feed : c.toNat = 12
  · rw [if_neg back, if_pos feed, ← Char.ofNat_toNat c, feed]
    exact readChars?_simple rest rfl
  rw [if_neg back, if_neg feed]
  by_cases control : c.toNat < 32
  · have read := readChars?_unit rest (hexUnit?_hexDigits (show c.toNat < 256 by omega)) (by omega)
    rw [Char.ofNat_toNat] at read
    rw [if_pos control]
    exact read
  · rw [if_neg control]
    exact readChars?_plain rest (by omega) quote slash

theorem readChars?_escaped (text : List Char) :
    readChars? (text.flatMap escapeChar ++ '"' :: rest) = some (text, rest) := by
  induction text with
  | nil => rfl
  | cons c text ih => rw [List.flatMap_cons, List.append_assoc, readChars?_escapeChar, ih, Option.map_some]

end Quoted

theorem skipBlanks_quote (text : String) (rest : List Char) :
    skipBlanks ((quote text).toList ++ rest) = '"' :: (text.toList.flatMap escapeChar ++ '"' :: rest) := by
  simp [quote, skipBlanks]

theorem denotes_string (text : String) (rest : List Char) :
    Denotes ((quote text).toList ++ rest) (.string text) rest := by
  have denotes := Denotes.string (skipBlanks_quote text rest) (readChars?_escaped rest text.toList)
  rwa [String.ofList_toList] at denotes

/-! ## Lists and objects -/

def Blanks (gap : List Char) : Prop := ∀ rest, skipBlanks (gap ++ rest) = skipBlanks rest

theorem blanks_nil : Blanks [] := fun _ => rfl

theorem blanks_lineBreak (depth : Nat) : Blanks (lineBreak depth).toList := by
  intro rest
  have blank (c : Char) (mem : c ∈ (lineBreak depth).toList) : c = '\n' ∨ c = ' ' := by
    simp only [lineBreak, String.toList_append, String.toList_ofList, List.mem_append, List.mem_replicate] at mem
    simpa using mem.imp_right And.right
  exact List.dropWhile_append_of_pos fun c mem => by rcases blank c mem with rfl | rfl <;> rfl

theorem ends_cons (c : Char) (tail : List Char) (other : isNumeralChar c = false) : Ends (c :: tail) :=
  List.takeWhile_cons_of_neg (by simp [other])

/-- Blanks in front of the text or none, in front of all that cannot go on with a numeral it is the entry. -/
def Writes {α : Type} (entry : List Char → α → List Char → Prop) (text : String) (meant : α) : Prop :=
  ∀ gap rest, Blanks gap → Ends rest → entry (gap ++ (text.toList ++ rest)) meant rest

/-- Only the text behind the blanks counts. -/
theorem Denotes.skipped {text text' rest : List Char} {value : Json} (denotes : Denotes text value rest)
    (same : skipBlanks text = skipBlanks text') : Denotes text' value rest := by
  cases denotes with
  | null here => exact .null (same ▸ here)
  | bool value here => exact .bool value (same ▸ here)
  | integer read whole => exact same ▸ .integer (same ▸ read) whole
  | decimal read broken finite sign rounds => exact same ▸ .decimal (same ▸ read) broken finite sign rounds
  | string opened read => exact .string (same ▸ opened) read
  | noItems opened closed => exact .noItems (same ▸ opened) closed
  | array opened content => exact .array (same ▸ opened) content
  | noMembers opened closed => exact .noMembers (same ▸ opened) closed
  | object opened content => exact .object (same ▸ opened) content

theorem writes_of_denotes {text : String} {value : Json}
    (denotes : ∀ rest, Ends rest → Denotes (text.toList ++ rest) value rest) : Writes Denotes text value :=
  fun _ rest blanks ends => (denotes rest ends).skipped (blanks _).symm

theorem writes_member (colon : String) {space : List Char} (spelled : colon.toList = ':' :: space)
    (blanks : Blanks space) {name text : String} {value : Json} (writes : Writes Denotes text value) :
    Writes Member (quote name ++ colon ++ text) (name, value) := by
  intro gap rest blanks' ends
  have opened : skipBlanks (gap ++ ((quote name ++ colon ++ text).toList ++ rest)) =
      '"' :: (name.toList.flatMap escapeChar ++ '"' :: ':' :: (space ++ (text.toList ++ rest))) := by
    rw [blanks', ← skipBlanks_quote]
    simp [spelled]
  have member := Member.named opened (readChars?_escaped _ name.toList) rfl (writes space rest blanks ends)
  rwa [String.ofList_toList] at member

section Listed
variable {α : Type} (entry : List Char → α → List Char → Prop) (listed : List Char → List α → List Char → Prop)
  {closer : Char} {gap behind : String}
  (last : ∀ {text middle rest meant}, entry text meant middle → skipBlanks middle = closer :: rest →
    listed text [meant] rest)
  (more : ∀ {text middle next rest meant others}, entry text meant middle → skipBlanks middle = ',' :: next →
    listed next others rest → listed text (meant :: others) rest)
  (blanks : Blanks gap.toList) (blanks' : Blanks behind.toList)
include last more blanks blanks'

/-- Entries with commas between them are listed, on one line or on many. -/
theorem listed_of_writes {text : String} {texts : List String} {meant : α} {others : List α}
    (writes : List.Forall₂ (Writes entry) (text :: texts) (meant :: others)) (rest : List Char)
    (ends : Ends (behind.toList ++ closer :: rest)) (bracket : skipBlanks (closer :: rest) = closer :: rest) :
    listed (gap.toList ++
        ((String.intercalate ("," ++ gap) (text :: texts)).toList ++ (behind.toList ++ closer :: rest)))
      (meant :: others) rest := by
  induction texts generalizing text meant others with
  | nil =>
    cases writes with
    | cons first none =>
      cases none
      rw [String.intercalate_singleton]
      exact last (first _ _ blanks ends) ((blanks' _).trans bracket)
  | cons second texts ih =>
    cases writes with
    | cons first writes =>
      cases others with
      | nil => cases writes
      | cons next others =>
        rw [String.intercalate_cons_cons]
        have comma : Ends (',' :: (gap.toList ++ ((String.intercalate ("," ++ gap) (second :: texts)).toList ++
          (behind.toList ++ closer :: rest)))) := ends_cons _ _ rfl
        have listed := more (first _ _ blanks comma) rfl (ih writes)
        simpa using listed

end Listed

section Brackets
variable {texts : List String} (gap behind : String) (blanks : Blanks gap.toList) (blanks' : Blanks behind.toList)
  (stops : ∀ c tail, isNumeralChar c = false → Ends (behind.toList ++ c :: tail))
include blanks blanks' stops

theorem writes_array {items : List Json} (writes : List.Forall₂ (Writes Denotes) texts items) :
    Writes Denotes ("[" ++ gap ++ String.intercalate ("," ++ gap) texts ++ behind ++ "]") (.array items) := by
  refine writes_of_denotes fun rest _ => ?_
  have opened : skipBlanks (("[" ++ gap ++ String.intercalate ("," ++ gap) texts ++ behind ++ "]").toList ++ rest) =
      '[' :: (gap.toList ++ ((String.intercalate ("," ++ gap) texts).toList ++ (behind.toList ++ ']' :: rest))) := by
    simp [skipBlanks]
  cases writes with
  | nil => exact .noItems opened ((blanks _).trans (blanks' _))
  | cons first writes =>
    exact .array opened (listed_of_writes Denotes Items Items.last Items.more blanks blanks' (.cons first writes) rest
      (stops _ _ rfl) rfl)

theorem writes_object {members : List (String × Json)} (writes : List.Forall₂ (Writes Member) texts members) :
    Writes Denotes (openBrace ++ gap ++ String.intercalate ("," ++ gap) texts ++ behind ++ closeBrace)
      (.object members) := by
  refine writes_of_denotes fun rest _ => ?_
  have opened : skipBlanks
      ((openBrace ++ gap ++ String.intercalate ("," ++ gap) texts ++ behind ++ closeBrace).toList ++ rest) =
      '\x7b' :: (gap.toList ++
        ((String.intercalate ("," ++ gap) texts).toList ++ (behind.toList ++ '\x7d' :: rest))) := by
    simp [skipBlanks, openBrace, closeBrace]
  cases writes with
  | nil => exact .noMembers opened ((blanks _).trans (blanks' _))
  | cons first writes =>
    exact .object opened (listed_of_writes Member Members Members.last Members.more blanks blanks' (.cons first writes)
      rest (stops _ _ rfl) rfl)

end Brackets

/-! ## Documents -/

mutual
/-- Every number in the document has a numeral. -/
def Finite : Json → Prop
  | .decimal value => ∃ x, Binary.ofFloat? value = some x
  | .array items => FiniteItems items
  | .object members => FiniteMembers members
  | _ => True

def FiniteItems : List Json → Prop
  | [] => True
  | item :: items => item.Finite ∧ FiniteItems items

def FiniteMembers : List (String × Json) → Prop
  | [] => True
  | (_, value) :: members => value.Finite ∧ FiniteMembers members
end

theorem writes_null : Writes Denotes "null" .null := writes_of_denotes fun _ _ => .null rfl

theorem writes_bool (value : Bool) : Writes Denotes (if value then "true" else "false") (.bool value) :=
  writes_of_denotes fun _ _ => .bool value (by cases value <;> rfl)

mutual
theorem writes_compact : (document : Json) → document.Finite → Writes Denotes document.compact document
  | .null, _ => writes_null
  | .bool value, _ => writes_bool value
  | .integer value, _ => writes_of_denotes fun _ => denotes_integer value
  | .decimal _, ⟨_, finite⟩ => writes_of_denotes fun _ => denotes_decimal finite
  | .string value, _ => writes_of_denotes fun rest _ => denotes_string value rest
  | .array items, finite => by
    simpa [compact] using writes_array "" "" blanks_nil blanks_nil ends_cons (writes_compactItems items finite)
  | .object members, finite => by
    simpa [compact] using writes_object "" "" blanks_nil blanks_nil ends_cons (writes_compactMembers members finite)

theorem writes_compactItems : (items : List Json) → FiniteItems items →
    List.Forall₂ (Writes Denotes) (compactItems items) items
  | [], _ => .nil
  | item :: items, ⟨finite, others⟩ => .cons (writes_compact item finite) (writes_compactItems items others)

theorem writes_compactMembers : (members : List (String × Json)) → FiniteMembers members →
    List.Forall₂ (Writes Member) (compactMembers members) members
  | [], _ => .nil
  | (_, value) :: members, ⟨finite, others⟩ =>
    .cons (writes_member ":" rfl blanks_nil (writes_compact value finite)) (writes_compactMembers members others)
end

theorem blanks_space : Blanks [' '] := fun _ => rfl

theorem ends_lineBreak (depth : Nat) (c : Char) (tail : List Char) (_ : isNumeralChar c = false) :
    Ends ((lineBreak depth).toList ++ c :: tail) := by
  simpa [lineBreak] using ends_cons '\n' _ rfl

/-- Entries on lines of their own are written like those on one line. -/
theorem writes_bracketed {opener closer : String} {texts : List String} {value : Json} (depth : Nat)
    (brackets : ∀ gap behind : String, Blanks gap.toList → Blanks behind.toList →
      (∀ c tail, isNumeralChar c = false → Ends (behind.toList ++ c :: tail)) →
      Writes Denotes (opener ++ gap ++ String.intercalate ("," ++ gap) texts ++ behind ++ closer) value) :
    Writes Denotes (bracketed opener closer depth texts) value := by
  unfold bracketed
  split
  next none =>
    have := brackets "" "" blanks_nil blanks_nil ends_cons
    simpa [List.isEmpty_iff.1 none] using this
  next => exact brackets _ _ (blanks_lineBreak _) (blanks_lineBreak _) (ends_lineBreak _)

mutual
theorem writes_prettyAt : (depth : Nat) → (document : Json) → document.Finite →
    Writes Denotes (document.prettyAt depth) document
  | _, .null, _ => writes_null
  | _, .bool value, _ => writes_bool value
  | _, .integer value, _ => writes_of_denotes fun _ => denotes_integer value
  | _, .decimal _, ⟨_, finite⟩ => writes_of_denotes fun _ => denotes_decimal finite
  | _, .string value, _ => writes_of_denotes fun rest _ => denotes_string value rest
  | depth, .array items, finite => by
    have writes := writes_prettyItems (depth + 1) items finite
    exact writes_bracketed depth fun gap behind blanks blanks' stops =>
      writes_array gap behind blanks blanks' stops writes
  | depth, .object members, finite => by
    have writes := writes_prettyMembers (depth + 1) members finite
    exact writes_bracketed depth fun gap behind blanks blanks' stops =>
      writes_object gap behind blanks blanks' stops writes

theorem writes_prettyItems : (depth : Nat) → (items : List Json) → FiniteItems items →
    List.Forall₂ (Writes Denotes) (prettyItems depth items) items
  | _, [], _ => .nil
  | depth, item :: items, ⟨finite, others⟩ =>
    .cons (writes_prettyAt depth item finite) (writes_prettyItems depth items others)

theorem writes_prettyMembers : (depth : Nat) → (members : List (String × Json)) → FiniteMembers members →
    List.Forall₂ (Writes Member) (prettyMembers depth members) members
  | _, [], _ => .nil
  | depth, (_, value) :: members, ⟨finite, others⟩ =>
    .cons (writes_member ": " rfl blanks_space (writes_prettyAt depth value finite))
      (writes_prettyMembers depth members others)
end

theorem means_of_writes {text : String} {document : Json} (writes : Writes Denotes text document) :
    Means text document := by
  have denotes := writes [] [] blanks_nil rfl
  rw [List.nil_append, List.append_nil] at denotes
  exact ⟨[], denotes, rfl⟩

end Json

mutual
/-- The numbers that have no numeral have become null. -/
theorem Value.toJson_finite : (value : Value) → value.toJson.Finite
  | .null | .bool _ | .string _ | .safe _ => trivial
  | .number value => by
    unfold Value.toJson
    split
    · trivial
    next finite => exact ⟨_, finite⟩
    · trivial
  | .array items => Value.itemsToJson_finite items
  | .object fields => Value.fieldsToJson_finite fields

theorem Value.itemsToJson_finite : (items : List Value) → Json.FiniteItems (Value.itemsToJson items)
  | [] => trivial
  | item :: items => ⟨item.toJson_finite, Value.itemsToJson_finite items⟩

theorem Value.fieldsToJson_finite : (fields : List (String × Value)) → Json.FiniteMembers (Value.fieldsToJson fields)
  | [] => trivial
  | (_, value) :: fields => ⟨value.toJson_finite, Value.fieldsToJson_finite fields⟩
end

end Stencil
