import Stencil.Text.Blank

/-! Texts shown to developers, between double quotes. Quotes, backslashes and characters
with no shape of their own are escaped, so that every text can be told from every other. -/

namespace Stencil.Text

/-- Controls, marks that join the character before them, and invisible characters. -/
def shapelessRanges : List (Nat × Nat) :=
  [(0x00, 0x1F), (0x7F, 0xA0), (0xAD, 0xAD), (0x300, 0x36F), (0x1680, 0x1680), (0x2000, 0x200F),
   (0x2028, 0x202F), (0x205F, 0x206F), (0x3000, 0x3000), (0xE000, 0xF8FF), (0xFE00, 0xFE0F),
   (0xFEFF, 0xFEFF), (0xF0000, 0x10FFFF)]

def quoteChar (c : Char) : List Char :=
  if c = '"' then ['\\', '"']
  else if c = '\\' then ['\\', '\\']
  else if c = '\n' then ['\\', 'n']
  else if c = '\r' then ['\\', 'r']
  else if c = '\t' then ['\\', 't']
  else if c.toNat = 0 then ['\\', '0']
  else if within shapelessRanges c then ['\\', 'u', '\x7b'] ++ Nat.toDigits 16 c.toNat ++ ['\x7d']
  else [c]

def quoted (text : String) : String := "\"" ++ String.ofList (text.toList.flatMap quoteChar) ++ "\""

end Stencil.Text
