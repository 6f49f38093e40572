import FoosballTable.Common.Types
import FoosballTable.Interface.Grid

/-!
# The ball on the screen

`Ball::draw` of `Ball.cpp`. The ball is a circle around the point that the position in shared
memory has on the screen.
-/

namespace FoosballTable.Interface

/-- The locals `x` and `y` of `Ball::draw`: the centre of the ball. -/
def ballCentre (dim : TableDim) (point : Point) : Int × Int :=
  ((point.x * dim.spacingX).tdiv 2 + dim.startX,
    dim.startY + dim.spacingY.tdiv 2 + (point.y * dim.spacingY).tdiv 2)

/-- `Ball::draw`: the calls for a position in shared memory. -/
def drawBall (dim : TableDim) (ballPosSM : Point) : List UICall :=
  let (x, y) := ballCentre dim ballPosSM
  [.setFillColor .white, .drawCircle 10 x y, .setFontSize .large, .drawInt ballPosSM.x 0 0,
    .drawInt ballPosSM.y 40 0]

/-- The ball is a circle around its centre. -/
theorem ball_drawn (dim : TableDim) (ballPosSM : Point) :
    .drawCircle 10 (ballCentre dim ballPosSM).1 (ballCentre dim ballPosSM).2 ∈
      drawBall dim ballPosSM := by
  simp [drawBall]

/-- With even spacings the centre is computed without a remainder. -/
theorem ball_centre_of_even {dim : TableDim} {halfX halfY : Int} (hx : dim.spacingX = 2 * halfX)
    (hy : dim.spacingY = 2 * halfY) (point : Point) :
    ballCentre dim point =
      (point.x * halfX + dim.startX, dim.startY + halfY + point.y * halfY) := by
  have hhalf : ∀ coordinate half : Int, (coordinate * (2 * half)).tdiv 2 = coordinate * half := by
    intro coordinate half
    rw [Int.mul_left_comm, Int.mul_tdiv_cancel_left _ (by decide)]
  unfold ballCentre
  rw [hx, hy, hhalf, hhalf, Int.mul_tdiv_cancel_left _ (by decide)]

end FoosballTable.Interface
