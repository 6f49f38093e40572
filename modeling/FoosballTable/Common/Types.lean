import Mathlib.Algebra.Group.Nat.Defs
import Mathlib.Data.Int.Basic
import Mathlib.Order.Basic

/-!
# Types shared by the real-time modules

`FLUTypes.h` and `Point.h`. The constants of `FLUDefs.h` and `Rod.h`, headers that are not part of
the repository, are the fields of `FLUDefs`, so every result below holds for every choice of them.
-/

namespace FoosballTable

/-- `Status`: what the public methods of the real-time modules return. -/
inductive Status where
  | success
  | failure
  deriving DecidableEq, Repr

/-- `Point`: a position in laser or table coordinates and the time it was recorded at. -/
structure Point where
  x : Int
  y : Int
  time : Int
  deriving DecidableEq, Repr

/-- The constants the sources take from headers outside the repository. `goalie` and `fullback`
are the indices `GOALIE` and `FULLBACK` of the rods in `_rods`, `pull` is the code of the motor
direction `PULL`. -/
structure FLUDefs where
  numberXRx : Nat
  numberYRx : Nat
  filterCount : Nat
  numberOfMotors : Nat
  tableWidth : Int
  goalie : Nat
  fullback : Nat
  pull : Int
  deriving Repr

/-- Constants of a small table, for evaluating the model. -/
def FLUDefs.small : FLUDefs where
  numberXRx := 3
  numberYRx := 2
  filterCount := 2
  numberOfMotors := 4
  tableWidth := 700
  goalie := 0
  fullback := 1
  pull := 0

end FoosballTable
