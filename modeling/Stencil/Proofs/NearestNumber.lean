import Mathlib.Algebra.Order.Field.Power
import Mathlib.Data.Rat.Cast.Order
import Mathlib.Tactic.FieldSimp
import Mathlib.Tactic.Linarith
import Mathlib.Tactic.Positivity
import Mathlib.Tactic.Ring
import Stencil.Decimal.Shortest

/-! Which binary number a rational number rounds to, said without any computation on bits:
the nearest one, and of two that are equally near the one whose significand is even. The
shortest decimal of a number rounds to that number and, its sign apart, to no other. -/

namespace Stencil.Decimal

namespace Binary

/-- The size of the number. -/
def magnitude (x : Binary) : ℚ := x.significand * 2 ^ x.exponent

/-- What the parts of a finite number are like. -/
structure Regular (x : Binary) : Prop where
  fits : x.significand < 2 * hiddenBit
  least : -1074 ≤ x.exponent
  greatest : x.exponent ≤ 971
  full : -1074 < x.exponent → hiddenBit ≤ x.significand
  narrow : x.narrowBelow = true ↔ x.significand = hiddenBit ∧ -1074 < x.exponent

/-- The parts of a number as they are stored. -/
theorem stored {number : Float} {x : Binary} (finite : ofFloat? number = some x) :
    ∃ field fraction, field < 2047 ∧ fraction < hiddenBit ∧
      number.toBits.toNat = ((if x.negative then 2048 else 0) + field) * hiddenBit + fraction ∧
      (field = 0 ∧ x.significand = fraction ∧ x.exponent = -1074 ∧ x.narrowBelow = false ∨
        0 < field ∧ x.significand = hiddenBit + fraction ∧ x.exponent = field - 1075 ∧
          x.narrowBelow = decide (fraction = 0 ∧ 1 < field)) := by
  have size : number.toBits.toNat < 2 ^ 64 := number.toBits.toNat_lt
  unfold ofFloat? at finite
  dsimp only at finite
  generalize number.toBits.toNat = bits at finite size
  have field : bits / hiddenBit % 2048 < 2048 := Nat.mod_lt _ (by decide)
  have fraction : bits % hiddenBit < hiddenBit := Nat.mod_lt _ (by decide)
  have restored (negative : Bool) (same : negative = decide (bits / hiddenBit / 2048 = 1)) :
      bits = ((if negative then 2048 else 0) + bits / hiddenBit % 2048) * hiddenBit + bits % hiddenBit := by
    simp only [hiddenBit] at same ⊢
    cases negative
    · have := of_decide_eq_false same.symm
      simp only [Bool.false_eq_true, if_false]
      omega
    · have := of_decide_eq_true same.symm
      simp only [if_true]
      omega
  split at finite
  next => cases finite
  next infinite =>
    refine ⟨bits / hiddenBit % 2048, bits % hiddenBit, by omega, fraction, ?_, ?_⟩
    · split at finite <;> cases finite <;> exact restored _ rfl
    · split at finite
      next zero => cases finite; exact .inl ⟨zero, rfl, rfl, rfl⟩
      next some => cases finite; exact .inr ⟨Nat.pos_of_ne_zero some, rfl, rfl, rfl⟩

theorem regular {number : Float} {x : Binary} (finite : ofFloat? number = some x) : x.Regular := by
  obtain ⟨field, fraction, inside, small, -, parts⟩ := stored finite
  obtain ⟨rfl, significand, exponent, narrow⟩ | ⟨some, significand, exponent, narrow⟩ := parts
  · exact ⟨by omega, by omega, by omega, by omega, by simp [narrow, exponent]⟩
  · refine ⟨by omega, by omega, by omega, by omega, ?_⟩
    rw [narrow, decide_eq_true_eq]
    omega

theorem float_of_parts {first second : Float} {x y : Binary} (finite : ofFloat? first = some x)
    (finite' : ofFloat? second = some y) (sign : x.negative = y.negative)
    (significand : x.significand = y.significand) (exponent : x.exponent = y.exponent) : first = second := by
  obtain ⟨field, fraction, -, small, bits, parts⟩ := stored finite
  obtain ⟨field', fraction', -, small', bits', parts'⟩ := stored finite'
  have same : first.toBits = second.toBits := by
    obtain ⟨rfl, rfl⟩ : field = field' ∧ fraction = fraction' := by omega
    exact UInt64.toNat_inj.1 (by rw [bits, bits', sign])
  obtain ⟨⟨_, _⟩⟩ := first
  obtain ⟨⟨_, _⟩⟩ := second
  cases same
  rfl

theorem two_pow_pos (exponent : ℤ) : (0 : ℚ) < 2 ^ exponent := zpow_pos two_pos _

/-- The magnitude as a multiple of a smaller power of two. -/
theorem magnitude_at (x : Binary) {exponent : ℤ} (le : exponent ≤ x.exponent) :
    x.magnitude = (x.significand * 2 ^ (x.exponent - exponent).toNat : ℕ) * 2 ^ exponent := by
  have lift : (2 : ℚ) ^ x.exponent = 2 ^ (x.exponent - exponent).toNat * 2 ^ exponent := by
    rw [← zpow_natCast, ← zpow_add₀ two_ne_zero, Int.toNat_of_nonneg (Int.sub_nonneg.2 le), Int.sub_add_cancel]
  unfold magnitude
  push_cast
  rw [lift, mul_assoc]

section Gaps
variable {x y : Binary}

/-- How far the next smaller number is away, if there is one. -/
def gapBelow (x : Binary) : ℚ := if x.narrowBelow then 2 ^ (x.exponent - 1) else 2 ^ x.exponent

theorem double_pow_pred (exponent : ℤ) : (2 : ℚ) ^ exponent = 2 * 2 ^ (exponent - 1) := by
  rw [← zpow_one_add₀ two_ne_zero, add_sub_cancel]

/-- The next greater number is one step away. -/
theorem step_above (regular : x.Regular) (regular' : y.Regular) (less : x.magnitude < y.magnitude) :
    x.magnitude + 2 ^ x.exponent ≤ y.magnitude := by
  have step := two_pow_pos x.exponent
  rcases le_or_gt x.exponent y.exponent with le | lower
  · rw [magnitude_at y le] at less ⊢
    unfold magnitude at less ⊢
    have units := Nat.cast_lt.1 (lt_of_mul_lt_mul_right less step.le)
    have units : (x.significand : ℚ) + 1 ≤ (y.significand * 2 ^ (y.exponent - x.exponent).toNat : ℕ) := by
      exact_mod_cast units
    calc
      (x.significand : ℚ) * 2 ^ x.exponent + 2 ^ x.exponent = (x.significand + 1) * 2 ^ x.exponent := by ring
      _ ≤ _ := mul_le_mul_of_nonneg_right units step.le
  · -- A number with a lower exponent is below all those with a greater one.
    have full := regular.full (lt_of_le_of_lt regular'.least lower)
    rw [magnitude_at x lower.le] at less
    unfold magnitude at less
    have units := Nat.cast_lt.1 (lt_of_mul_lt_mul_right less (two_pow_pos y.exponent).le)
    have twice : 2 ≤ 2 ^ (x.exponent - y.exponent).toNat := Nat.le_self_pow (by omega) 2
    have := Nat.mul_le_mul full twice
    have := regular'.fits
    omega

theorem gapBelow_pos (x : Binary) : 0 < x.gapBelow := by
  unfold gapBelow
  split <;> exact two_pow_pos _

theorem gapBelow_le (x : Binary) : x.gapBelow ≤ 2 ^ x.exponent := by
  unfold gapBelow
  split
  · exact zpow_le_zpow_right₀ one_le_two (by omega)
  · exact le_rfl

/-- The next smaller number is one step away, or half a step below the least of those that have the same exponent. -/
theorem step_below (regular : x.Regular) (regular' : y.Regular) (less : y.magnitude < x.magnitude) :
    y.magnitude ≤ x.magnitude - x.gapBelow := by
  have step := two_pow_pos x.exponent
  have gap := x.gapBelow_le
  rcases le_or_gt x.exponent y.exponent with le | lower
  · rw [magnitude_at y le] at less ⊢
    unfold magnitude at less ⊢
    have units := Nat.cast_lt.1 (lt_of_mul_lt_mul_right less step.le)
    have units : ((y.significand * 2 ^ (y.exponent - x.exponent).toNat : ℕ) : ℚ) ≤ x.significand - 1 := by
      rw [le_sub_iff_add_le]
      exact_mod_cast units
    calc
      _ ≤ ((x.significand : ℚ) - 1) * 2 ^ x.exponent := mul_le_mul_of_nonneg_right units step.le
      _ = x.significand * 2 ^ x.exponent - 2 ^ x.exponent := by ring
      _ ≤ _ := sub_le_sub_left gap _
  · have full := regular.full (lt_of_le_of_lt regular'.least lower)
    have half := two_pow_pos (x.exponent - 1)
    have below : y.magnitude ≤ (2 * hiddenBit - 1) * 2 ^ (x.exponent - 1) := by
      have units : (y.significand : ℚ) ≤ 2 * hiddenBit - 1 := by
        rw [le_sub_iff_add_le]
        exact_mod_cast regular'.fits
      have power : (2 : ℚ) ^ y.exponent ≤ 2 ^ (x.exponent - 1) := zpow_le_zpow_right₀ one_le_two (by omega)
      exact mul_le_mul units power (two_pow_pos _).le (by norm_num [hiddenBit])
    refine le_trans below ?_
    unfold magnitude gapBelow
    rw [double_pow_pred x.exponent]
    split
    next narrow =>
      rw [(regular.narrow.1 narrow).1]
      exact le_of_eq (by ring)
    next wide =>
      have more : hiddenBit + 1 ≤ x.significand := by
        have other := mt regular.narrow.2 wide
        have := regular'.least
        omega
      have more : (hiddenBit : ℚ) + 1 ≤ x.significand := by exact_mod_cast more
      nlinarith

/-- An odd multiple of a power of two that no lower power can reach has an odd significand. -/
theorem odd_of_magnitude (regular : x.Regular) (units : ℕ) (exponent : ℤ)
    (same : x.magnitude = units * 2 ^ exponent) (odd : units % 2 = 1)
    (reached : exponent ≤ x.exponent ∨ hiddenBit ≤ units) : x.significand % 2 = 1 := by
  rcases le_or_gt exponent x.exponent with le | lower
  · rw [magnitude_at x le] at same
    have equal := Nat.cast_inj.1 (mul_right_cancel₀ (two_pow_pos exponent).ne' same)
    cases power : (x.exponent - exponent).toNat with
    | zero =>
      rw [power] at equal
      omega
    | succ more =>
      rw [power, Nat.pow_succ, ← Nat.mul_assoc] at equal
      have even : units % 2 = 0 := equal ▸ Nat.mul_mod_left _ 2
      omega
  · have full := reached.resolve_left (not_le.2 lower)
    have lift : (2 : ℚ) ^ exponent = 2 ^ (exponent - x.exponent).toNat * 2 ^ x.exponent := by
      rw [← zpow_natCast, ← zpow_add₀ two_ne_zero, Int.toNat_of_nonneg (by omega), Int.sub_add_cancel]
    rw [lift, ← mul_assoc] at same
    have equal : (x.significand : ℚ) = units * 2 ^ (exponent - x.exponent).toNat :=
      mul_right_cancel₀ (two_pow_pos x.exponent).ne' same
    have equal : x.significand = units * 2 ^ (exponent - x.exponent).toNat := by exact_mod_cast equal
    have twice : 2 ≤ 2 ^ (exponent - x.exponent).toNat := Nat.le_self_pow (by omega) 2
    have := Nat.mul_le_mul full twice
    have := regular.fits
    omega

end Gaps

/-- The value is nearer to the number than to any other, or as near as to one whose significand is odd while its own
is even. It is not so great that it is beyond all numbers. -/
structure Rounds (value : ℚ) (x : Binary) : Prop where
  nearest : ∀ number y, ofFloat? number = some y → y.magnitude ≠ x.magnitude →
    |value - x.magnitude| < |value - y.magnitude| ∨
      |value - x.magnitude| = |value - y.magnitude| ∧ x.significand % 2 = 0 ∧ y.significand % 2 = 1
  inRange : value < 2 ^ 1024 - 2 ^ 970

/-- The value lies no more than half a step from the number, and less than that if its significand is odd. -/
structure Covers (x : Binary) (value : ℚ) : Prop where
  low : x.magnitude - x.gapBelow / 2 ≤ value
  high : value ≤ x.magnitude + 2 ^ x.exponent / 2
  ends : value = x.magnitude - x.gapBelow / 2 ∨ value = x.magnitude + 2 ^ x.exponent / 2 → x.significand % 2 = 0

section Neighbours
variable {x y : Binary} {value : ℚ}

theorem odd_above (regular : x.Regular) (regular' : y.Regular) (even : x.significand % 2 = 0)
    (same : y.magnitude = x.magnitude + 2 ^ x.exponent) : y.significand % 2 = 1 := by
  refine odd_of_magnitude regular' (x.significand + 1) x.exponent ?_ (by omega) ?_
  · rw [same, magnitude]
    push_cast
    ring
  · have full := regular.full
    have least := regular'.least
    omega

theorem odd_below (regular : x.Regular) (regular' : y.Regular) (some : 0 < x.significand)
    (even : x.significand % 2 = 0) (same : y.magnitude = x.magnitude - x.gapBelow) : y.significand % 2 = 1 := by
  unfold gapBelow at same
  split at same
  next narrow =>
    obtain ⟨whole, above⟩ := regular.narrow.1 narrow
    refine odd_of_magnitude regular' (2 * hiddenBit - 1) (x.exponent - 1) ?_ (by decide) (.inr (by decide))
    rw [same, magnitude, whole, double_pow_pred x.exponent, Nat.cast_sub (by decide)]
    push_cast
    ring
  next wide =>
    refine odd_of_magnitude regular' (x.significand - 1) x.exponent ?_ (by omega) ?_
    · rw [same, magnitude, Nat.cast_sub some]
      push_cast
      ring
    · have other := mt regular.narrow.2 wide
      have full := regular.full
      have least := regular'.least
      omega

theorem Covers.beside_less (covers : x.Covers value) (regular : x.Regular) (some : 0 < x.significand)
    (regular' : y.Regular) (less : y.magnitude < x.magnitude) :
    |value - x.magnitude| < |value - y.magnitude| ∨
      |value - x.magnitude| = |value - y.magnitude| ∧ x.significand % 2 = 0 ∧ y.significand % 2 = 1 := by
  have gap := x.gapBelow_pos
  have apart := step_below regular regular' less
  have low := covers.low
  rw [abs_of_pos (a := value - y.magnitude) (by linarith)]
  rcases le_total x.magnitude value with above | below
  · rw [abs_of_nonneg (sub_nonneg.2 above)]
    exact .inl (by linarith)
  · rw [abs_of_nonpos (sub_nonpos.2 below)]
    rcases lt_or_ge (x.magnitude + y.magnitude) (2 * value) with nearer | tie
    · exact .inl (by linarith)
    · have even := covers.ends (.inl (by linarith))
      exact .inr ⟨by linarith, even, odd_below regular regular' some even (by linarith)⟩

theorem Covers.beside_greater (covers : x.Covers value) (regular : x.Regular) (regular' : y.Regular)
    (greater : x.magnitude < y.magnitude) :
    |value - x.magnitude| < |value - y.magnitude| ∨
      |value - x.magnitude| = |value - y.magnitude| ∧ x.significand % 2 = 0 ∧ y.significand % 2 = 1 := by
  have step := two_pow_pos x.exponent
  have apart := step_above regular regular' greater
  have high := covers.high
  rw [abs_of_neg (a := value - y.magnitude) (by linarith)]
  rcases le_total value x.magnitude with below | above
  · rw [abs_of_nonpos (sub_nonpos.2 below)]
    exact .inl (by linarith)
  · rw [abs_of_nonneg (sub_nonneg.2 above)]
    rcases lt_or_ge (2 * value) (x.magnitude + y.magnitude) with nearer | tie
    · exact .inl (by linarith)
    · have even := covers.ends (.inr (by linarith))
      exact .inr ⟨by linarith, even, odd_above regular regular' even (by linarith)⟩

theorem Covers.inRange (covers : x.Covers value) (regular : x.Regular) : value < 2 ^ 1024 - 2 ^ 970 := by
  have step := two_pow_pos x.exponent
  have power : (2 : ℚ) ^ x.exponent ≤ 2 ^ (971 : ℤ) := zpow_le_zpow_right₀ one_le_two regular.greatest
  have scaled (n : ℕ) : (2 : ℚ) ^ (n + 54) - 2 ^ n = (2 * hiddenBit - 1 / 2) * 2 ^ (n + 1) := by
    rw [pow_add, pow_succ]
    norm_num [hiddenBit]
    ring
  have top : (2 : ℚ) ^ 1024 - 2 ^ 970 = (2 * hiddenBit - 1 / 2) * 2 ^ (971 : ℤ) := by
    rw [zpow_ofNat]
    exact scaled 970
  have bound : ((2 : ℚ) * hiddenBit - 1 / 2) * 2 ^ x.exponent ≤ 2 ^ 1024 - 2 ^ 970 := by
    rw [top]
    exact mul_le_mul_of_nonneg_left power (by norm_num [hiddenBit])
  have high := covers.high
  generalize (2 : ℚ) ^ 1024 - 2 ^ 970 = greatest at bound ⊢
  unfold magnitude at high
  rcases Nat.lt_or_ge (x.significand + 1) (2 * hiddenBit) with room | full
  · have room : (x.significand : ℚ) + 1 < 2 * hiddenBit := by exact_mod_cast room
    nlinarith
  · -- The greatest significand is odd, so its end is left out.
    have odd : x.significand % 2 ≠ 0 := by
      have := regular.fits
      simp only [hiddenBit] at this full
      omega
    have other := mt (fun same => covers.ends (.inr same)) odd
    have strict := lt_of_le_of_ne high other
    have units : (x.significand : ℚ) + 1 ≤ 2 * hiddenBit := by exact_mod_cast regular.fits
    have := mul_le_mul_of_nonneg_right units step.le
    linarith

end Neighbours

theorem Covers.rounds {x : Binary} {value : ℚ} (covers : x.Covers value) (regular : x.Regular)
    (some : 0 < x.significand) : Rounds value x where
  nearest _ _ finite other :=
    (lt_or_gt_of_ne other).elim (covers.beside_less regular some (Binary.regular finite))
      (covers.beside_greater regular (Binary.regular finite))
  inRange := covers.inRange regular

/-- Zero stands for itself. -/
theorem rounds_zero {x : Binary} (none : x.significand = 0) : Rounds 0 x where
  nearest _ y _ other := by
    have zero : x.magnitude = 0 := by rw [magnitude, none, Nat.cast_zero, zero_mul]
    rw [zero] at other ⊢
    rw [sub_zero, abs_zero, zero_sub, abs_neg]
    exact .inl (abs_pos.2 other)
  inRange := sub_pos.2 (pow_lt_pow_right₀ one_lt_two (by decide))

/-- There is but one number that a value is nearest to. -/
theorem Rounds.magnitude_unique {value : ℚ} {x y : Binary} {first second : Float} (rounds : Rounds value x)
    (rounds' : Rounds value y) (finite : ofFloat? first = some x) (finite' : ofFloat? second = some y) :
    x.magnitude = y.magnitude := by
  by_contra other
  rcases rounds.nearest second y finite' (Ne.symm other) with nearer | ⟨tie, even, odd⟩ <;>
    rcases rounds'.nearest first x finite other with nearer' | ⟨tie', even', odd'⟩
  · linarith
  · linarith
  · linarith
  · omega

theorem exponent_le {x y : Binary} (regular : x.Regular) (regular' : y.Regular) (same : x.magnitude = y.magnitude) :
    y.exponent ≤ x.exponent := by
  by_contra! lower
  have full := regular'.full (lt_of_le_of_lt regular.least lower)
  rw [magnitude_at y lower.le, magnitude] at same
  have equal := Nat.cast_inj.1 (mul_right_cancel₀ (two_pow_pos x.exponent).ne' same)
  have twice : 2 ≤ 2 ^ (y.exponent - x.exponent).toNat := Nat.le_self_pow (by omega) 2
  have := Nat.mul_le_mul full twice
  have := regular.fits
  omega

/-- So there is but one float with a sign that a value is nearest to. -/
theorem Rounds.unique {value : ℚ} {x y : Binary} {first second : Float} (rounds : Rounds value x)
    (rounds' : Rounds value y) (finite : ofFloat? first = some x) (finite' : ofFloat? second = some y)
    (sign : x.negative = y.negative) : first = second := by
  have same := rounds.magnitude_unique rounds' finite finite'
  have exponent := le_antisymm (exponent_le (regular finite') (regular finite) same.symm)
    (exponent_le (regular finite) (regular finite') same)
  unfold magnitude at same
  rw [exponent] at same
  have significand : x.significand = y.significand :=
    Nat.cast_inj.1 (mul_right_cancel₀ (two_pow_pos y.exponent).ne' same)
  exact float_of_parts finite finite' sign significand exponent

end Binary

/-- The number that the digits stand for. -/
def Digits.value (decimal : Digits) : ℚ := decimal.digits * 10 ^ decimal.scale

theorem zpow_split (base : ℚ) (some : base ≠ 0) (exponent : ℤ) :
    base ^ exponent * base ^ (-exponent).toNat = base ^ exponent.toNat := by
  rw [← zpow_natCast, ← zpow_natCast, ← zpow_add₀ some]
  congr 1
  omega

theorem compareScaled_eq (a : ℕ) (i : ℤ) (b : ℕ) (j : ℤ) :
    compareScaled a i b j = compare ((a : ℚ) * 10 ^ i) (b * 2 ^ j) := by
  have common : (0 : ℚ) < 10 ^ (-i).toNat * 2 ^ (-j).toNat := by positivity
  have left : ((a * Nat.pow 10 i.toNat * Nat.pow 2 (-j).toNat : ℕ) : ℚ) =
      (a * 10 ^ i) * (10 ^ (-i).toNat * 2 ^ (-j).toNat) := by
    simp only [Nat.pow_eq]
    push_cast
    rw [← zpow_split 10 (by norm_num) i]
    ring
  have right : ((b * Nat.pow 2 j.toNat * Nat.pow 10 (-i).toNat : ℕ) : ℚ) =
      (b * 2 ^ j) * (10 ^ (-i).toNat * 2 ^ (-j).toNat) := by
    simp only [Nat.pow_eq]
    push_cast
    rw [← zpow_split 2 two_ne_zero j]
    ring
  unfold compareScaled
  rcases lt_trichotomy ((a : ℚ) * 10 ^ i) (b * 2 ^ j) with less | equal | greater
  · rw [compare_lt_iff_lt.2 less, compare_lt_iff_lt, ← Nat.cast_lt (α := ℚ), left, right]
    exact mul_lt_mul_of_pos_right less common
  · rw [compare_eq_iff_eq.2 equal, compare_eq_iff_eq, ← Nat.cast_inj (R := ℚ), left, right, equal]
  · rw [compare_gt_iff_gt.2 greater, compare_gt_iff_gt, ← Nat.cast_lt (α := ℚ), left, right]
    exact mul_lt_mul_of_pos_right greater common

namespace Binary
variable {x : Binary} {decimal : Digits}

theorem quarter_pow (exponent : ℤ) : (2 : ℚ) ^ (exponent - 2) = 2 ^ exponent / 4 := by
  rw [zpow_sub₀ two_ne_zero]
  norm_num

/-- Half a step below the number, in quarters of a step. -/
theorem quarters_below (some : 0 < x.significand) :
    ((if x.narrowBelow then 4 * x.significand - 1 else 4 * x.significand - 2 : ℕ) : ℚ) * 2 ^ (x.exponent - 2) =
      x.magnitude - x.gapBelow / 2 := by
  have half : (2 : ℚ) ^ (x.exponent - 1) = 2 ^ x.exponent / 2 := by
    rw [double_pow_pred x.exponent]
    ring
  unfold magnitude gapBelow
  rw [quarter_pow]
  split
  · rw [half, Nat.cast_sub (by omega)]
    push_cast
    ring
  · rw [Nat.cast_sub (by omega)]
    push_cast
    ring

theorem quarters_above (x : Binary) :
    ((4 * x.significand + 2 : ℕ) : ℚ) * 2 ^ (x.exponent - 2) = x.magnitude + 2 ^ x.exponent / 2 := by
  unfold magnitude
  rw [quarter_pow]
  push_cast
  ring

theorem covers_of_identified (some : 0 < x.significand) (identified : x.identifiedBy decimal = true) :
    x.Covers decimal.value := by
  have step := two_pow_pos x.exponent
  have gap := x.gapBelow_pos
  unfold identifiedBy at identified
  dsimp only at identified
  rw [compareScaled_eq, compareScaled_eq, quarters_below some, x.quarters_above] at identified
  change ((compare decimal.value _ == .gt || _ && compare decimal.value _ == .eq) &&
    (compare decimal.value _ == .lt || _ && compare decimal.value _ == .eq)) = true at identified
  simp only [Bool.and_eq_true, Bool.or_eq_true, beq_iff_eq, decide_eq_true_eq, compare_gt_iff_gt, compare_eq_iff_eq,
    compare_lt_iff_lt] at identified
  obtain ⟨below, above⟩ := identified
  refine ⟨?_, ?_, ?_⟩
  · rcases below with strict | ⟨-, equal⟩ <;> linarith
  · rcases above with strict | ⟨-, equal⟩ <;> linarith
  · rintro (equal | equal)
    · rcases below with strict | ⟨even, -⟩
      · linarith
      · exact even
    · rcases above with strict | ⟨even, -⟩
      · linarith
      · exact even

theorem covers_self (x : Binary) : x.Covers x.magnitude where
  low := by linarith [x.gapBelow_pos]
  high := by linarith [two_pow_pos x.exponent]
  ends := by
    have := x.gapBelow_pos
    have := two_pow_pos x.exponent
    rintro (equal | equal) <;> linarith

theorem identified_of_onGrid? {tie : Tie} {scale : ℤ} (found : x.onGrid? tie scale = some decimal) :
    x.identifiedBy decimal = true := by
  unfold onGrid? at found
  dsimp only at found
  split at found
  next => cases found
  next low _ => cases found; exact low
  next _ high => cases found; exact high
  next low high =>
    split at found
    · cases found; exact low
    · cases found; exact high
    · split at found <;> cases found
      · exact low
      · exact high

theorem value_stripped (decimal : Digits) (fuel : ℕ) : (decimal.stripped fuel).value = decimal.value := by
  induction fuel generalizing decimal with
  | zero => rfl
  | succ fuel ih =>
    unfold Digits.stripped
    split
    next zero =>
      have whole : (decimal.digits : ℚ) = (decimal.digits / 10 : ℕ) * 10 := by
        exact_mod_cast (Nat.div_mul_cancel (Nat.dvd_of_mod_eq_zero zero)).symm
      rw [ih, Digits.value, Digits.value, whole, zpow_add_one₀ (by norm_num)]
      ring
    next => rfl

theorem value_exact (x : Binary) :
    Digits.value ⟨x.fraction.1 * Nat.pow 5 (-x.exponent).toNat, min x.exponent 0⟩ = x.magnitude := by
  unfold Digits.value fraction magnitude
  simp only [Nat.pow_eq]
  push_cast
  have scale : min x.exponent 0 = -((-x.exponent).toNat : ℤ) := by omega
  have ten : (10 : ℚ) ^ (-x.exponent).toNat = 2 ^ (-x.exponent).toNat * 5 ^ (-x.exponent).toNat := by
    rw [← mul_pow]
    norm_num
  rw [scale, zpow_neg, zpow_natCast, ten, ← zpow_split 2 two_ne_zero x.exponent]
  field_simp

/-- The shortest decimal is no further from the number than from its neighbours. -/
theorem covers_shortest (tie : Tie) (some : 0 < x.significand) : x.Covers (x.shortest tie).value := by
  have nonzero : x.isZero = false := by simp [isZero, some.ne']
  unfold shortest
  rw [nonzero, if_neg Bool.false_ne_true]
  dsimp only
  split
  next decimal found =>
    obtain ⟨scale, -, onGrid⟩ := List.exists_of_findSome?_eq_some found
    rw [value_stripped]
    exact covers_of_identified some (identified_of_onGrid? onGrid)
  next =>
    rw [value_exact]
    exact x.covers_self

theorem shortest_pos (tie : Tie) (some : 0 < x.significand) : 0 < (x.shortest tie).digits := by
  have step := two_pow_pos x.exponent
  have gap := x.gapBelow_le
  have low := (covers_shortest tie some).low
  have least : (2 : ℚ) ^ x.exponent ≤ x.magnitude := by
    have units : (1 : ℚ) ≤ x.significand := by exact_mod_cast some
    exact le_mul_of_one_le_left step.le units
  refine Nat.pos_of_ne_zero fun none => ?_
  rw [Digits.value, none, Nat.cast_zero, zero_mul] at low
  linarith

theorem rounds_shortest {number : Float} (finite : ofFloat? number = some x) (tie : Tie) :
    Rounds (x.shortest tie).value x := by
  rcases Nat.eq_zero_or_pos x.significand with none | some
  · have zero : (x.shortest tie).value = 0 := by simp [shortest, isZero, none, Digits.value]
    rw [zero]
    exact rounds_zero none
  · exact (covers_shortest tie some).rounds (regular finite) some

end Binary
end Stencil.Decimal
