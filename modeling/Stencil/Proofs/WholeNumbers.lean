import Mathlib
import Stencil.Decimal.Binary
import Stencil.Decimal.Numeral

/-! Whole numbers as binary ones. A significand of the binary format has room for every natural number below 2 ^ 53, so
its digits are read as exactly this number. -/

namespace Stencil.Decimal
open Float.Model UnpackedFloat

/-- A significand that fills the format, at a place where the format has it. -/
structure Full (significand : Nat) (exponent : Int) : Prop where
  filled : hiddenBit ≤ significand
  fits : significand < 2 * hiddenBit
  least : -1074 ≤ exponent
  greatest : exponent ≤ 971

/-- Doubling as often as shifting to the right brings a significand back, with nothing cut off. -/
theorem shiftRight_doubled (significand count : Nat) :
    ((⟨significand * 2 ^ count, false, false⟩ : ExtendedMantissa) >>> count) = ⟨significand, false, false⟩ := by
  have general (rest : Nat) : Nat.repeat ExtendedMantissa.shiftRightOne count
      ⟨significand * 2 ^ (count + rest), false, false⟩ = ⟨significand * 2 ^ rest, false, false⟩ := by
    induction count generalizing rest with
    | zero => rw [Nat.zero_add]; rfl
    | succ count ih =>
      have even : significand * 2 ^ (rest + 1) = significand * 2 ^ rest * 2 := by rw [Nat.pow_succ, Nat.mul_assoc]
      rw [Nat.repeat, Nat.add_assoc, Nat.add_comm 1 rest, ih (rest + 1), even]
      simp [ExtendedMantissa.shiftRightOne]
  have whole := general 0
  rwa [Nat.add_zero, Nat.pow_zero, Nat.mul_one] at whole

namespace Full
variable {significand : Nat} {exponent : Int}

theorem pos (full : Full significand exponent) : 0 < significand := Nat.lt_of_lt_of_le (by decide) full.filled

theorem log2_doubled (full : Full significand exponent) (count : Nat) :
    (significand * 2 ^ count).log2 = 52 + count := by
  have some : significand * 2 ^ count ≠ 0 :=
    Nat.mul_ne_zero (Nat.ne_of_gt full.pos) (Nat.ne_of_gt (Nat.two_pow_pos count))
  rw [Nat.log2_eq_iff some, Nat.pow_add, Nat.add_right_comm, Nat.pow_add]
  exact ⟨Nat.mul_le_mul_right _ full.filled, Nat.mul_lt_mul_of_pos_right full.fits (Nat.two_pow_pos count)⟩

theorem shifted (full : Full significand exponent) (count : Nat) :
    shiftToTargetExponent Format.binary64 (significand * 2 ^ count) (exponent - count) .exact =
      (⟨significand, false, false⟩, exponent) := by
  have least := full.least
  have target :
      Format.binary64.targetExponent (totalExponent (significand * 2 ^ count) (exponent - count)) = exponent := by
    rw [totalExponent, full.log2_doubled]
    change max (((52 + count : Nat) : Int) + 1 + (exponent - count) - 53) (-1074) = exponent
    omega
  have amount : (exponent - (exponent - count)).toNat = count := by omega
  rw [shiftToTargetExponent, target, shiftToExponent, amount]
  exact Prod.ext (shiftRight_doubled significand count) (by simp)

/-- Rounding keeps a significand that fits, and takes off the zeros behind it. -/
theorem rounded (full : Full significand exponent) (sign : Sign) (count : Nat) :
    roundWithAccuracy Format.binary64 sign (significand * 2 ^ count) (exponent - count) .exact =
      .finite sign significand exponent full.pos := by
  have again := full.shifted 0
  rw [Nat.pow_zero, Nat.mul_one, Int.natCast_zero, Int.sub_zero] at again
  have kept : ExtendedMantissa.roundedMantissa ⟨significand, false, false⟩ = significand := rfl
  simp only [roundWithAccuracy, full.shifted count, kept, again, Nat.ne_of_gt full.pos, dite_false]

/-- The field of the exponent, as it is stored. -/
def field (exponent : Int) : Nat := (exponent + 1075).toNat

theorem field_bounds (full : Full significand exponent) : 0 < field exponent ∧ field exponent < 2047 := by
  have least := full.least
  have greatest := full.greatest
  unfold field
  omega

theorem packed (full : Full significand exponent) (sign : Sign) :
    UnpackedFloat.pack Format.binary64 (.finite sign significand exponent full.pos) =
      packComponents Format.binary64 sign (BitVec.ofNat 11 (field exponent)) (BitVec.ofNat 52 significand) := by
  have bits : significand.log2 = 52 := by simpa using full.log2_doubled 0
  have biased : (exponent + Format.binary64.exponentBias + Format.binary64.mantissaBitsWithoutImplicit).toNat =
      field exponent := by
    change (exponent + 1023 + 52).toNat = _
    unfold field
    omega
  obtain ⟨-, finite⟩ := full.field_bounds
  rw [UnpackedFloat.pack, biased, bits]
  dsimp only
  exact (if_neg (by omega)).trans (if_pos rfl)

theorem unpackSign_components (sign : Sign) (exponent : BitVec 11) (mantissa : BitVec 52) :
    Sign.ofBitVec (unpackSign (packComponents Format.binary64 sign exponent mantissa)) = sign := by
  have front : (sign.toBitVec ++ exponent ++ mantissa).extractLsb' 63 1 = sign.toBitVec := by
    rw [BitVec.extractLsb'_append_eq_of_le (by decide), BitVec.extractLsb'_append_eq_of_le (by decide)]
    exact BitVec.extractLsb'_eq_self
  change Sign.ofBitVec ((sign.toBitVec ++ exponent ++ mantissa).extractLsb' 63 1) = sign
  rw [front]
  cases sign <;> rfl

/-- The bit in front of the fraction, which is not stored, comes back. -/
theorem restored (full : Full significand exponent) : (1#1 ++ BitVec.ofNat 52 significand).toNat = significand := by
  have filled := full.filled
  have fits := full.fits
  rw [BitVec.toNat_append, ← Nat.shiftLeft_add_eq_or_of_lt (BitVec.ofNat 52 significand).isLt, BitVec.toNat_ofNat]
  simp only [hiddenBit] at filled fits
  simp [Nat.shiftLeft_eq]
  omega

theorem unpacked (full : Full significand exponent) (sign : Sign) :
    UnpackedFloat.unpack Format.binary64 (UnpackedFloat.pack Format.binary64 (.finite sign significand exponent full.pos)) =
      .finite sign significand exponent full.pos := by
  have least := full.least
  obtain ⟨some, finite⟩ := full.field_bounds
  have stored : (BitVec.ofNat 11 (field exponent)).toNat = field exponent := by
    rw [BitVec.toNat_ofNat]
    exact Nat.mod_eq_of_lt (by omega)
  have notInfinite : BitVec.ofNat 11 (field exponent) ≠ -1#11 := by
    intro same
    rw [same] at stored
    change 2047 = field exponent at stored
    omega
  have notSmall : BitVec.ofNat 11 (field exponent) ≠ 0#11 := by
    intro same
    rw [same] at stored
    change 0 = field exponent at stored
    omega
  have back : ((field exponent : Nat) : Int) - (1023 + 52) = exponent := by
    unfold field
    omega
  rw [full.packed, UnpackedFloat.unpack]
  simp only [unpackMantissa_packComponents, unpackExponent_packComponents, unpackSign_components, notInfinite, notSmall,
    if_false, full.restored, stored]
  congr

/-- The number with this significand and exponent. -/
def float (full : Full significand exponent) : Float :=
  .ofModel (.pack (.finite .positive significand exponent full.pos))

theorem toNat_packed (full : Full significand exponent) :
    (UnpackedFloat.pack Format.binary64 (.finite .positive significand exponent full.pos)).toNat =
      field exponent * hiddenBit + (significand - hiddenBit) := by
  have filled := full.filled
  have fits := full.fits
  obtain ⟨-, finite⟩ := full.field_bounds
  have fraction : significand % 2 ^ 52 = significand - hiddenBit := by
    simp only [hiddenBit] at filled fits ⊢
    omega
  have stored : field exponent % 2 ^ 11 = field exponent := Nat.mod_eq_of_lt (by omega)
  have front : ((Sign.positive.toBitVec : BitVec 1) ++ BitVec.ofNat 11 (field exponent)).toNat = field exponent := by
    rw [BitVec.toNat_append, ← Nat.shiftLeft_add_eq_or_of_lt (BitVec.ofNat 11 _).isLt, BitVec.toNat_ofNat, stored]
    exact Nat.zero_add _
  rw [full.packed]
  change (Sign.positive.toBitVec ++ BitVec.ofNat 11 (field exponent) ++ BitVec.ofNat 52 significand).toNat = _
  rw [BitVec.toNat_append, ← Nat.shiftLeft_add_eq_or_of_lt (BitVec.ofNat 52 _).isLt, front, BitVec.toNat_ofNat,
    fraction, Nat.shiftLeft_eq]
  rfl

/-- A number with these parts is taken apart into them. -/
theorem ofFloat? (full : Full significand exponent) :
    ∃ narrow, Binary.ofFloat? full.float = some ⟨false, significand, exponent, narrow⟩ := by
  have filled := full.filled
  have fits := full.fits
  have least := full.least
  obtain ⟨some, finite⟩ := full.field_bounds
  have bits : full.float.toBits.toNat = field exponent * hiddenBit + (significand - hiddenBit) := full.toNat_packed
  have quotient : (field exponent * hiddenBit + (significand - hiddenBit)) / hiddenBit = field exponent := by
    simp only [hiddenBit] at filled fits ⊢
    omega
  have remainder : (field exponent * hiddenBit + (significand - hiddenBit)) % hiddenBit = significand - hiddenBit := by
    simp only [hiddenBit] at filled fits ⊢
    omega
  have stored : field exponent % 2048 = field exponent := Nat.mod_eq_of_lt (by omega)
  have unsigned : ¬field exponent / 2048 = 1 := by omega
  have back : (field exponent : Int) - 1075 = exponent := by
    unfold field
    omega
  rw [Binary.ofFloat?, bits, quotient, remainder, stored, if_neg (by omega), if_neg (by omega), back,
    Nat.add_sub_cancel' filled, decide_eq_false unsigned]
  exact ⟨_, rfl⟩

end Full

/-- How often a number can be doubled until it fills a significand. -/
def spare (n : Nat) : Nat := 52 - n.log2

section Whole
variable {n : Nat} (some : 0 < n) (small : n < 2 ^ 53)
include some small

theorem log2_le : n.log2 ≤ 52 := Nat.le_of_lt_succ ((Nat.log2_lt (Nat.ne_of_gt some)).2 small)

theorem full_of_small : Full (n * 2 ^ spare n) (-(spare n : Int)) := by
  have ends := log2_le some small
  have low := Nat.log2_self_le (Nat.ne_of_gt some)
  have high := @Nat.lt_log2_self n
  have whole : 2 ^ n.log2 * 2 ^ spare n = hiddenBit := by
    rw [spare, ← Nat.pow_add, Nat.add_sub_cancel' ends]
    rfl
  have double : 2 ^ (n.log2 + 1) * 2 ^ spare n = 2 * hiddenBit := by
    rw [Nat.pow_succ, Nat.mul_right_comm, whole, Nat.mul_comm]
  refine ⟨whole ▸ Nat.mul_le_mul_right _ low, ?_, ?_, ?_⟩
  · rw [← double]
    exact Nat.mul_lt_mul_of_pos_right high (Nat.two_pow_pos _)
  · unfold spare
    omega
  · omega

theorem ofNat_small : UnpackedFloat.ofNat Format.binary64 n =
    .finite .positive (n * 2 ^ spare n) (-(spare n : Int)) (full_of_small some small).pos := by
  have full := full_of_small some small
  have ends := log2_le some small
  have positive : compare (n : Int) 0 = .gt := by
    change compareOfLessAndEq (n : Int) 0 = .gt
    rw [compareOfLessAndEq, if_neg (by omega), if_neg (by omega)]
  have target : Format.binary64.targetExponent (totalExponent n 0) = -(spare n : Int) := by
    change max ((n.log2 : Int) + 1 + 0 - 53) (-1074) = _
    unfold spare
    omega
  have amount : (0 - -(spare n : Int)).toNat = spare n := by omega
  have decreased : decreaseExponent n 0 (-(spare n : Int)) = (n * 2 ^ spare n, -(spare n : Int)) := by
    rw [decreaseExponent, amount, Nat.shiftLeft_eq, Int.zero_sub]
  have rounded := full.rounded .positive 0
  rw [Nat.pow_zero, Nat.mul_one, Int.natCast_zero, Int.sub_zero] at rounded
  rw [UnpackedFloat.ofNat, UnpackedFloat.ofInt, UnpackedFloat.normalize, positive]
  change UnpackedFloat.round Format.binary64 .positive n 0 = _
  rw [UnpackedFloat.round, target, decreased]
  exact rounded

/-- The number is converted as it is, and then multiplied by one. -/
theorem ofScientific_small : Float.ofScientific n false 0 = (full_of_small some small).float := by
  have full := full_of_small some small
  have word : n.toUInt64.toNat = n := by
    rw [Nat.toUInt64, UInt64.toNat_ofNat']
    exact Nat.mod_eq_of_lt (by omega)
  have converted : n.toUInt64.toFloat = full.float := by
    change Float.ofModel (.pack (UnpackedFloat.ofNat Format.binary64 n.toUInt64.toNat)) = _
    rw [word, ofNat_small some small]
    rfl
  have one : (getElem Float.exactlyRepresentablePowersOfTen 0 (by decide)).toModel.unpack =
      .finite .positive hiddenBit (-52) (by decide) := by rfl
  have unpacked : full.float.toModel.unpack = .finite .positive _ _ full.pos := full.unpacked .positive
  rw [Float.ofScientific, dif_pos ⟨small, Nat.zero_le _⟩]
  simp only [Bool.false_eq_true, if_false, converted]
  change Float.ofModel (.pack (UnpackedFloat.mul Format.binary64 full.float.toModel.unpack
    (getElem Float.exactlyRepresentablePowersOfTen 0 (by decide)).toModel.unpack)) = _
  rw [unpacked, one]
  exact congrArg (fun product => Float.ofModel (.pack product)) (full.rounded .positive 52)

theorem nearest_small : nearest n 0 = (full_of_small some small).float := by
  have size : (Nat.toDigits 10 n).length ≤ 16 := by
    rw [Nat.length_toDigits_le_iff (by decide) (by decide)]
    exact Nat.lt_of_lt_of_le small (by decide)
  rw [nearest, if_neg (Nat.ne_of_gt some), if_neg (by omega), if_neg (by omega)]
  exact ofScientific_small some small

end Whole

/-- The digits of a number that has room in a significand are read as this number. -/
theorem whole?_nearest {n : Nat} (small : n < 2 ^ 53) : whole? (nearest n 0) = some (n : Int) := by
  rcases Nat.eq_zero_or_pos n with rfl | some
  · decide +kernel
  · obtain ⟨narrow, parts⟩ := (full_of_small some small).ofFloat?
    have power : Nat.pow 2 (-(-(spare n : Int))).toNat = 2 ^ spare n := by
      rw [Int.neg_neg, Int.toNat_natCast]
      rfl
    have unit : Nat.pow 2 (-(spare n : Int)).toNat = 1 := by
      have none : (-(spare n : Int)).toNat = 0 := by omega
      rw [none]
    have fraction :
        Binary.fraction ⟨false, n * 2 ^ spare n, -(spare n : Int), narrow⟩ = (n * 2 ^ spare n, 2 ^ spare n) := by
      rw [Binary.fraction, power, unit, Nat.mul_one]
    have isWhole : Binary.isWhole ⟨false, n * 2 ^ spare n, -(spare n : Int), narrow⟩ = true := by
      simp only [Binary.isWhole, fraction, Nat.mul_mod_left, decide_true]
    have whole : Binary.whole ⟨false, n * 2 ^ spare n, -(spare n : Int), narrow⟩ = n := by
      rw [Binary.whole, fraction]
      exact Nat.mul_div_cancel n (Nat.two_pow_pos _)
    rw [whole?, nearest_small some small, parts]
    change (if Binary.isWhole _ = true then Option.some (Binary.truncate _) else none) = _
    rw [isWhole, if_pos rfl, Binary.truncate, whole]
    simp only [Bool.false_eq_true, if_false]

end Stencil.Decimal
