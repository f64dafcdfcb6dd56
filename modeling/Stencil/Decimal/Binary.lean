import Stencil.Decimal.Word

/-! A finite binary64 number, taken apart into a sign, a natural number and a power of
two. Whole parts and remainders are computed here exactly, with no rounding step. -/

namespace Stencil.Decimal

/-- The number `± significand * 2 ^ exponent`. -/
structure Binary where
  negative : Bool
  significand : Nat
  exponent : Int
  /-- The neighbour towards zero is half as far away as the other one. -/
  narrowBelow : Bool
deriving Repr, DecidableEq

/-- The bit in front of the fraction, which is not stored. -/
def hiddenBit : Nat := 4503599627370496

/-- Infinities and NaN have no such form. -/
def Binary.ofFloat? (x : Float) : Option Binary :=
  let bits := x.toBits.toNat
  let field : Nat := bits / hiddenBit % 2048
  let fraction : Nat := bits % hiddenBit
  let negative := bits / hiddenBit / 2048 = 1
  if field = 2047 then none
  else if field = 0 then some ⟨negative, fraction, -1074, false⟩
  else some ⟨negative, hiddenBit + fraction, field - 1075, fraction = 0 ∧ 1 < field⟩

namespace Binary

/-- The magnitude as a fraction: numerator, then denominator. -/
def fraction (x : Binary) : Nat × Nat := 
  (x.significand * Nat.pow 2 x.exponent.toNat, Nat.pow 2 (-x.exponent).toNat)

def isZero (x : Binary) : Bool := x.significand = 0

/-- The magnitude without its fractional part. -/
def whole (x : Binary) : Nat := x.fraction.1 / x.fraction.2

def isWhole (x : Binary) : Bool := x.fraction.1 % x.fraction.2 = 0

/-- The number without its fractional part. -/
def truncate (x : Binary) : Int := if x.negative then -(x.whole : Int) else x.whole

def toFloat (x : Binary) : Float :=
  let magnitude := (Float.ofNat x.significand).scaleB x.exponent
  if x.negative then -magnitude else magnitude

/-- The remainder of a division that rounds towards zero; it has the dividend's sign. -/
def remainder (dividend divisor : Binary) : Binary :=
  let exponent := min dividend.exponent divisor.exponent
  let scaled (x : Binary) := x.significand * Nat.pow 2 (x.exponent - exponent).toNat
  { dividend with significand := scaled dividend % scaled divisor, exponent }

end Binary

/-- The value of a whole number; numbers with a fractional part, infinities and NaN have none. -/
def whole? (x : Float) : Option Int := do
  let binary ← Binary.ofFloat? x
  if binary.isWhole then some binary.truncate else none

/-- The number without its fractional part, held within 64 bits; NaN counts as zero. -/
def toWord (x : Float) : Int :=
  match Binary.ofFloat? x with
  | some binary => max leastWord (min greatestWord binary.truncate)
  | none => if x.isNaN then 0 else if x < 0 then leastWord else greatestWord

/-- An infinite divisor leaves every finite dividend as it is. -/
def remainder (dividend divisor : Float) : Float :=
  match Binary.ofFloat? dividend, Binary.ofFloat? divisor with
  | some x, some y => (x.remainder y).toFloat
  | some _, none => if divisor.isNaN then divisor else dividend
  | none, _ => dividend - dividend

end Stencil.Decimal
