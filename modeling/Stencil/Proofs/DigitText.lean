import Mathlib.Data.List.Basic
import Stencil.Decimal.Numeral

/-! Integers as they are written. Digits are read back as the number that they were made from, and they end where
the text behind them goes on with something else. -/

namespace Stencil.Decimal

section Taken
variable {holds : Char → Bool} {taken rest : List Char} (all : ∀ c ∈ taken, holds c = true)
  (stops : rest.takeWhile holds = [])
include all stops

theorem takeWhile_append : (taken ++ rest).takeWhile holds = taken := by
  rw [List.takeWhile_append_of_pos all, stops, List.append_nil]

theorem dropWhile_append : (taken ++ rest).dropWhile holds = rest := by
  have whole := List.takeWhile_append_dropWhile (p := holds) (l := rest)
  rw [stops, List.nil_append] at whole
  rw [List.dropWhile_append_of_pos all, whole]

end Taken

theorem isDigit_of_mem_toDigits {n : Nat} {c : Char} (mem : c ∈ Nat.toDigits 10 n) : isDigit c = true :=
  Nat.isDigit_of_mem_toDigits (by decide) (by decide) mem

theorem natOfDigits_toDigits (n : Nat) : natOfDigits (Nat.toDigits 10 n) = n := Nat.ofDigitChars_ten_toDigits

theorem natOfDigits_zeros_append (count : Nat) (digits : List Char) :
    natOfDigits (List.replicate count '0' ++ digits) = natOfDigits digits := by
  change Nat.ofDigitChars 10 _ 0 = Nat.ofDigitChars 10 _ 0
  rw [Nat.ofDigitChars_append, Nat.ofDigitChars_replicate_zero, Nat.mul_zero]

/-- A positive number is not written with a zero in front. -/
theorem head_toDigits {n : Nat} (positive : 0 < n) : (Nat.toDigits 10 n).head? ≠ some '0' := by
  induction n using Nat.strongRecOn with
  | ind n ih =>
    rcases Nat.lt_or_ge n 10 with small | large
    · rw [Nat.toDigits_of_lt_base small]
      simp [Nat.ne_of_gt positive]
    · rw [Nat.toDigits_of_base_le (by decide) large, List.head?_append_of_ne_nil _ Nat.toDigits_ne_nil]
      exact ih (n / 10) (by omega) (by omega)

/-- An integer is written as its sign, if it is negative, and the digits of its size. -/
theorem toList_toString (n : Int) :
    (toString n).toList = (if decide (n < 0) then "-" else "").toList ++ Nat.toDigits 10 n.natAbs := by
  cases n with
  | ofNat n => simp [toString, Int.repr, Nat.toList_repr]
  | negSucc n => simp [toString, Int.repr, Nat.toList_repr]

theorem mem_toString {n : Int} {c : Char} (mem : c ∈ (toString n).toList) : c = '-' ∨ isDigit c = true := by
  rw [toList_toString] at mem
  rcases List.mem_append.1 mem with sign | digit
  · split at sign
    · exact .inl (List.mem_singleton.1 sign)
    · cases sign
  · exact .inr (isDigit_of_mem_toDigits digit)

/-- Text without a sign is read as its digits. -/
theorem integer?_digits (n : Nat) : integer? (Nat.toDigits 10 n) = some (n : Int) := by
  have digits : (Nat.toDigits 10 n).all isDigit = true := List.all_eq_true.2 fun _ => isDigit_of_mem_toDigits
  have first : ∀ c ∈ (Nat.toDigits 10 n).head?, isDigit c = true := fun c mem =>
    isDigit_of_mem_toDigits (List.mem_of_mem_head? mem)
  unfold integer?
  split
  next same => rw [same] at first; cases first _ rfl
  next same => rw [same] at first; cases first _ rfl
  next => simp [digits, Nat.toDigits_ne_nil, natOfDigits_toDigits]

theorem integer?_negative (n : Nat) : integer? ('-' :: Nat.toDigits 10 n) = some (-(n : Int)) := by
  have digits : (Nat.toDigits 10 n).all isDigit = true := List.all_eq_true.2 fun _ => isDigit_of_mem_toDigits
  simp [integer?, digits, Nat.toDigits_ne_nil, natOfDigits_toDigits]

theorem integer?_toString (n : Int) : integer? (toString n).toList = some n := by
  rw [toList_toString]
  by_cases negative : n < 0
  · have size : -(n.natAbs : Int) = n := by omega
    have read := integer?_negative n.natAbs
    rw [size] at read
    simpa [negative] using read
  · have size : (n.natAbs : Int) = n := by omega
    have read := integer?_digits n.natAbs
    rw [size] at read
    simpa [negative] using read

end Stencil.Decimal
