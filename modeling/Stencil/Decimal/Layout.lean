import Stencil.Decimal.Shortest

/-! How the digits of a number are laid out: as a positional numeral, or as a leading
digit with a power of ten. A layout is a record of the few decisions that differ. -/

namespace Stencil.Decimal

structure Layout where
  tie : Tie
  /-- Exponents of the leading digit that are written without a power of ten; `none` is all of them. -/
  positional : Option (Int × Int)
  /-- Written after a positional numeral that has no fraction. -/
  wholeEnd : String

namespace Layout

def zeros (count : Nat) : String := String.ofList (List.replicate count '0')

def isPositional (layout : Layout) (exponent : Int) : Bool :=
  match layout.positional with
  | none => true
  | some (least, greatest) => least ≤ exponent && exponent ≤ greatest

/-- The exponent of the leading digit decides where the point stands. -/
def positionalText (layout : Layout) (digits : List Char) (exponent : Int) : String :=
  if exponent < 0 then "0." ++ zeros (-exponent - 1).toNat ++ String.ofList digits
  else
    let whole := exponent.toNat + 1
    if digits.length ≤ whole then
      String.ofList digits ++ zeros (whole - digits.length) ++ layout.wholeEnd
    else String.ofList (digits.take whole) ++ "." ++ String.ofList (digits.drop whole)

def scientificText (digits : List Char) (exponent : Int) : String :=
  let fraction := match digits.drop 1 with
    | [] => ""
    | rest => "." ++ String.ofList rest
  let sign := if exponent < 0 then "-" else "+"
  String.ofList (digits.take 1) ++ fraction ++ "e" ++ sign ++ toString exponent.natAbs

def magnitude (layout : Layout) (x : Binary) : String :=
  let decimal := x.shortest layout.tie
  let digits := Nat.toDigits 10 decimal.digits
  let exponent := if x.isZero then 0 else decimal.scale + digits.length - 1
  if layout.isPositional exponent then layout.positionalText digits exponent
  else scientificText digits exponent

def write (layout : Layout) (x : Binary) : String :=
  (if x.negative then "-" else "") ++ layout.magnitude x

end Layout
end Stencil.Decimal
