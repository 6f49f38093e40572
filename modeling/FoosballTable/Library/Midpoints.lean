import Mathlib.Data.Int.ConditionallyCompleteOrder
import Mathlib.Data.Int.SuccPred
import Mathlib.Data.Prod.Lex
import Mathlib.Order.BooleanAlgebra.Basic

/-!
# Places on a row of sensors

Sensors with ascending numbers stand in a row, and an object triggers some of them. The `Place` of
the object is the first sensor triggered, with whether the next one is triggered too, and its
position is that of the sensor, or the middle between the two. Where the sensors are at least two
units apart, the position is a strictly increasing function of the place.
-/

namespace FoosballTable.Library

/-- The first sensor triggered, and whether the next one is too, ordered lexicographically. -/
abbrev Place := Int ×ₗ Bool

/-- The place that a list of sensors stands for. -/
def place : List Int → Option Place
  | [] => none
  | [first] => some (toLex (first, false))
  | first :: second :: _ => some (toLex (first, decide (second = first + 1)))

/-- The position of a place, on a row with the sensors at the positions `mm`. -/
def position (mm : Int → Int) (place : Place) : Int :=
  if (ofLex place).2 then (mm (ofLex place).1 + mm ((ofLex place).1 + 1)) / 2
  else mm (ofLex place).1

/-- Sensors at least two units apart stand in ascending order. -/
theorem sensors_strict_mono {mm : Int → Int} (hgap : ∀ i, mm i + 2 ≤ mm (i + 1)) :
    StrictMono mm := by
  refine strictMono_of_lt_succ ?_
  intro i _
  have hnext := hgap i
  show mm i < mm (i + 1)
  omega

/-- A place lies between its first sensor and the next one. -/
theorem position_bounds {mm : Int → Int} (hgap : ∀ i, mm i + 2 ≤ mm (i + 1)) (place : Place) :
    mm (ofLex place).1 ≤ position mm place ∧
      position mm place < mm ((ofLex place).1 + 1) := by
  have hnext := hgap (ofLex place).1
  unfold position
  split <;> omega

/-- The position of a place is strictly increasing. -/
theorem position_strict_mono {mm : Int → Int} (hgap : ∀ i, mm i + 2 ≤ mm (i + 1)) :
    StrictMono (position mm) := by
  intro place later hlt
  rcases Prod.Lex.lt_iff.mp hlt with hfirst | ⟨hfirst, hadjacent⟩
  · calc position mm place < mm ((ofLex place).1 + 1) := (position_bounds hgap place).2
      _ ≤ mm (ofLex later).1 := (sensors_strict_mono hgap).monotone hfirst
      _ ≤ position mm later := (position_bounds hgap later).1
  · obtain ⟨hnot, hthen⟩ := Bool.lt_iff.mp hadjacent
    have hnext := hgap (ofLex later).1
    simp only [position, hfirst, hnot, hthen, Bool.false_eq_true, if_false, if_true]
    omega

/-- The place of an ascending list of sensors lies between the first one and the last one. -/
theorem position_between {mm : Int → Int} (hgap : ∀ i, mm i + 2 ≤ mm (i + 1))
    {sensors : List Int} (hsensors : sensors.Pairwise (· < ·)) {seen : Place}
    (hplace : place sensors = some seen) {first last : Int} (hfirst : sensors.head? = some first)
    (hlast : sensors.getLast? = some last) :
    mm first ≤ position mm seen ∧ position mm seen ≤ mm last := by
  have hmono := (sensors_strict_mono hgap).monotone
  cases sensors with
  | nil => cases hplace
  | cons sensor rest =>
      obtain rfl := Option.some.inj hfirst
      cases rest with
      | nil =>
          obtain rfl := Option.some.inj hplace
          obtain rfl := Option.some.inj hlast
          exact ⟨Int.le_refl _, Int.le_refl _⟩
      | cons second rest =>
          obtain rfl := Option.some.inj hplace
          obtain ⟨hlower, hupper⟩ := position_bounds hgap
            (toLex (sensor, decide (second = sensor + 1)))
          have hmem : last ∈ second :: rest := by
            rw [List.getLast?_cons_cons] at hlast
            exact List.mem_of_getLast? hlast
          have hlt : sensor < last := (List.pairwise_cons.mp hsensors).1 last hmem
          exact ⟨hlower, Int.le_of_lt (Int.lt_of_lt_of_le hupper (hmono hlt))⟩

end FoosballTable.Library
