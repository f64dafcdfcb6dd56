/-! Integers of 64 bits. -/

namespace Stencil.Decimal

def leastWord : Int := -9223372036854775808
def greatestWord : Int := 9223372036854775807

/-- The greatest one without a sign. -/
def greatestUnsigned : Nat := 18446744073709551615

def isWord (n : Int) : Bool := leastWord ≤ n && n ≤ greatestWord

end Stencil.Decimal
