/-! White space is the 25 code points of the Unicode property White_Space. Trimming
removes it from the ends of a text and leaves the inside alone. -/

namespace Stencil.Text

def blankRanges : List (Nat × Nat) :=
  [(0x09, 0x0D), (0x20, 0x20), (0x85, 0x85), (0xA0, 0xA0), (0x1680, 0x1680), (0x2000, 0x200A),
   (0x2028, 0x2029), (0x202F, 0x202F), (0x205F, 0x205F), (0x3000, 0x3000)]

def within (ranges : List (Nat × Nat)) (c : Char) : Bool :=
  ranges.any fun (first, last) => first ≤ c.toNat && c.toNat ≤ last

def isBlank (c : Char) : Bool := within blankRanges c

def trimLeft (text : List Char) : List Char := text.dropWhile isBlank

def trimRight (text : List Char) : List Char := (text.reverse.dropWhile isBlank).reverse

def trim (text : List Char) : List Char := trimRight (trimLeft text)

def trimmed (text : String) : String := String.ofList (trim text.toList)

theorem length_trim_le (text : List Char) : (trim text).length ≤ text.length := by
  have left : (trimLeft text).length ≤ text.length := (List.dropWhile_sublist _).length_le
  have right : ((trimLeft text).reverse.dropWhile isBlank).length ≤ (trimLeft text).reverse.length :=
    (List.dropWhile_sublist _).length_le
  simp only [trim, trimRight, List.length_reverse] at *
  omega

end Stencil.Text
