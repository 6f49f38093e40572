import Mathlib.Algebra.Group.Int.Defs
import Mathlib.Algebra.Group.Nat.Defs
import Mathlib.Data.Int.Basic
import Mathlib.Order.Basic

/-!
# Integers of the machine

The C types `int` and `unsigned int` of 32 bits and `long long` of 64 bits, as mathematical
integers: which integers are an `int`, and what is left of an exact result that is stored as one.
-/

namespace FoosballTable.Library

/-- A mathematical integer is a value of the 32-bit type `int`. -/
def IsInt (value : Int) : Prop :=
  -(2 ^ 31) ≤ value ∧ value < 2 ^ 31

/-- `IsInt` is decidable by two comparisons. -/
instance (value : Int) : Decidable (IsInt value) :=
  inferInstanceAs (Decidable (_ ∧ _))

/-- The `int` that a computation with this exact result leaves in its 32 bits. -/
def int32 (value : Int) : Int :=
  value.bmod (2 ^ 32)

/-- The `long long` that a computation with this exact result leaves in its 64 bits. -/
def int64 (value : Int) : Int :=
  value.bmod (2 ^ 64)

/-- Conversion of an `int` to `unsigned int` or `unsigned long`, both of 32 bits. -/
def uint32 (value : Int) : Nat :=
  (value % 2 ^ 32).toNat

/-- Storing an exact result that is an `int` changes nothing. -/
theorem int32_of_is_int {value : Int} (h : IsInt value) : int32 value = value := by
  obtain ⟨hlo, hhi⟩ := h
  unfold int32
  rw [Int.bmod_def]
  split <;> omega

/-- Converting an `int` that is not negative changes nothing. -/
theorem uint32_of_nonneg {value : Int} (h : IsInt value) (hnonneg : 0 ≤ value) :
    (uint32 value : Int) = value := by
  obtain ⟨-, hhi⟩ := h
  unfold uint32
  omega

end FoosballTable.Library
