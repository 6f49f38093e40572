import Mathlib.Data.Nat.Digits.Defs

/-!
# Decimal numerals

The canonical decimal numeral of a natural number, its most significant digit first, and the
scheme that reads it back digit by digit. The values the scheme goes through only grow, so none
of them is larger than the number read.
-/

namespace FoosballTable.Library

/-- The digits of a number without leading zeros, most significant first. -/
def numeral (n : Nat) : List Nat :=
  if n = 0 then [0] else (Nat.digits 10 n).reverse

/-- Reading digits: the value so far is multiplied by ten and the next digit is added. -/
def readDigits (value : Nat) (digits : List Nat) : Nat :=
  digits.foldl (fun value digit => value * 10 + digit) value

@[simp] theorem read_digits_cons (value digit : Nat) (digits : List Nat) :
    readDigits value (digit :: digits) = readDigits (value * 10 + digit) digits := rfl

/-- Reading further digits never makes the value smaller. -/
theorem le_read_digits (value : Nat) (digits : List Nat) : value ≤ readDigits value digits := by
  induction digits generalizing value with
  | nil => exact Nat.le_refl value
  | cons digit digits ih =>
      rw [read_digits_cons]
      have hstep := ih (value * 10 + digit)
      omega

/-- Every digit of a numeral is a decimal digit. -/
theorem numeral_lt_ten {n digit : Nat} (h : digit ∈ numeral n) : digit < 10 := by
  unfold numeral at h
  split at h
  · simp only [List.mem_singleton] at h
    omega
  · exact Nat.digits_lt_base (by omega) (List.mem_reverse.mp h)

/-- A numeral reads back as its number. -/
theorem read_digits_numeral (n : Nat) : readDigits 0 (numeral n) = n := by
  unfold numeral
  split
  · rename_i hzero
    rw [hzero]
    rfl
  · unfold readDigits
    rw [List.foldl_reverse]
    have hdigits := Nat.ofDigits_digits 10 n
    rw [Nat.ofDigits_eq_foldr] at hdigits
    simpa [Nat.mul_comm, Nat.add_comm] using hdigits

end FoosballTable.Library
