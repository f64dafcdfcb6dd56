import Stencil.Decimal.Binary

/-! The shortest decimal that identifies a binary number. The reals that round to the
number form an interval; the search tries one digit, then two, and so on, and takes the
first decimal that lies in the interval. Of two decimals of one length the nearer wins. -/

namespace Stencil.Decimal

/-- The number `digits * 10 ^ scale`. -/
structure Digits where
  digits : Nat
  scale : Int
deriving Repr, DecidableEq

/-- Which of two equally near decimals is taken. -/
inductive Tie where
  | even
  | up
deriving Repr, DecidableEq

/-- Compares `a * 10 ^ i` with `b * 2 ^ j`. -/
def compareScaled (a : Nat) (i : Int) (b : Nat) (j : Int) : Ordering :=
  compare (a * Nat.pow 10 i.toNat * Nat.pow 2 (-j).toNat) (b * Nat.pow 2 j.toNat * Nat.pow 10 (-i).toNat)

/-- The decimal lies among the reals that round to the binary number. The interval ends
halfway to the neighbours, and the ends belong to it when the significand is even. -/
def Binary.identifiedBy (x : Binary) (decimal : Digits) : Bool :=
  let low := if x.narrowBelow then 4 * x.significand - 1 else 4 * x.significand - 2
  let closed := x.significand % 2 = 0
  let fromLow := compareScaled decimal.digits decimal.scale low (x.exponent - 2)
  let fromHigh := compareScaled decimal.digits decimal.scale (4 * x.significand + 2) (x.exponent - 2)
  (fromLow == .gt || (closed && fromLow == .eq)) && (fromHigh == .lt || (closed && fromHigh == .eq))

/-- The least number of further powers of ten that bring `numerator` up to `denominator`. -/
def shortfall (numerator denominator : Nat) : Nat → Nat
  | 0 => 0
  | fuel + 1 => if denominator ≤ numerator then 0 else shortfall (numerator * 10) denominator fuel + 1

/-- The decimal exponent just above the first digit: the least `k` with magnitude below `10 ^ k`. -/
def Binary.firstPlace (x : Binary) : Int :=
  let (numerator, denominator) := x.fraction
  if denominator ≤ numerator then (Nat.toDigits 10 (numerator / denominator)).length
  else 1 - (shortfall numerator denominator 400 : Int)

/-- The two neighbours of the number on the grid of `10 ^ scale`, tried as decimals of its own. -/
def Binary.onGrid? (tie : Tie) (x : Binary) (scale : Int) : Option Digits :=
  let (numerator, denominator) := x.fraction
  let numerator := numerator * Nat.pow 10 (-scale).toNat
  let denominator := denominator * Nat.pow 10 scale.toNat
  let below : Digits := ⟨numerator / denominator, scale⟩
  let above : Digits := ⟨numerator / denominator + 1, scale⟩
  match x.identifiedBy below, x.identifiedBy above with
  | false, false => none
  | true, false => some below
  | false, true => some above
  | true, true =>
    match compare (2 * numerator) ((2 * below.digits + 1) * denominator) with
    | .lt => some below
    | .gt => some above
    | .eq => if tie = .even ∧ below.digits % 2 = 0 then some below else some above

/-- Zeros at the end move into the scale. -/
def Digits.stripped (decimal : Digits) : Nat → Digits
  | 0 => decimal
  | fuel + 1 =>
    if decimal.digits % 10 = 0 then Digits.stripped ⟨decimal.digits / 10, decimal.scale + 1⟩ fuel
    else decimal

/-- Seventeen digits identify every number, so the exact value at the end is never reached. -/
def Binary.shortest (tie : Tie) (x : Binary) : Digits :=
  if x.isZero then ⟨0, 0⟩
  else
    let place := x.firstPlace
    let grids := (List.range 17).map fun count => place - (count + 1 : Nat)
    match grids.findSome? (x.onGrid? tie) with
    | some decimal => decimal.stripped 20
    | none => ⟨x.fraction.1 * Nat.pow 5 (-x.exponent).toNat, min x.exponent 0⟩

end Stencil.Decimal
