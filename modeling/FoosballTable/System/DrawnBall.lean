import FoosballTable.Interface.Ball
import FoosballTable.System.SharedPosition

/-!
# The ball and the lasers on the screen

The tracker encodes the broken lasers of an axis as one number, `Ball::draw` turns it into pixels,
and `Table::draw` draws the marks of the lasers. On the y axis both agree. On the x axis
`Ball::draw` leaves out the half of the spacing by which the marks stand off their lines:
`ball_drawn_beside` says that every ball is drawn half a spacing to the left of its x lasers.
-/

namespace FoosballTable.System

open Library Interface

/-! ## One axis -/

/-- The position of a place on a row of marks, for an even spacing. -/
theorem position_of_marks (start half : Int) (seen : Place) :
    position (fun laser => start + laser * (2 * half) + half) seen =
      start + half + laserCoordinate seen * half := by
  have hnext : ((ofLex seen).1 + 1) * (2 * half) = (ofLex seen).1 * (2 * half) + 2 * half := by
    rw [Int.add_mul, Int.one_mul]
  have hdouble : (ofLex seen).1 * (2 * half) = 2 * (ofLex seen).1 * half := by
    rw [← Int.mul_assoc, Int.mul_comm _ 2]
  unfold laserCoordinate
  cases hadjacent : (ofLex seen).2 with
  | false =>
      simp only [position, hadjacent, Bool.false_eq_true, if_false, Int.add_zero]
      omega
  | true =>
      simp only [position, hadjacent, if_true, hnext, Int.add_mul, Int.one_mul]
      omega

/-- The marks of the x lasers. -/
theorem position_x_marks {dim : TableDim} {half : Int} (hx : dim.spacingX = 2 * half)
    (seen : Place) :
    position dim.laserLocX seen = dim.startX + half + laserCoordinate seen * half := by
  rw [← position_of_marks dim.startX half seen]
  refine congrArg (position · seen) (funext fun laser => ?_)
  rw [TableDim.laserLocX, hx, Int.mul_tdiv_cancel_left _ (by decide)]

/-- The marks of the y lasers. -/
theorem position_y_marks {dim : TableDim} {half : Int} (hy : dim.spacingY = 2 * half)
    (seen : Place) :
    position dim.laserLocY seen = dim.startY + half + laserCoordinate seen * half := by
  rw [← position_of_marks dim.startY half seen]
  refine congrArg (position · seen) (funext fun laser => ?_)
  rw [TableDim.laserLocY, hy, Int.mul_tdiv_cancel_left _ (by decide)]

/-! ## The frames -/

/-- A place has a laser as one of its one or two. -/
def Among (seen : Place) (laser : Int) : Prop :=
  laser = (ofLex seen).1 ∨ (ofLex seen).2 = true ∧ laser = (ofLex seen).1 + 1

/-- The centre lies in the column of one of the x lasers. -/
def InColumns (dim : TableDim) (xSeen : Place) (centre : Int × Int) : Prop :=
  ∃ laser, Among xSeen laser ∧
    (xRect dim laser).x1 ≤ centre.1 ∧ centre.1 ≤ (xRect dim laser).x2

/-- What is claimed of the centre of a ball: it sits on the marks of its lasers, or in the middle
between them, and in the columns of the x lasers. -/
structure OnLasers (dim : TableDim) (xSeen ySeen : Place) (centre : Int × Int) : Prop where
  x : centre.1 = position dim.laserLocX xSeen
  y : centre.2 = position dim.laserLocY ySeen
  columns : InColumns dim xSeen centre

/-- What the centre is: it has the y coordinate of its lasers and lies in the columns of the x
lasers, but is half a spacing to the left of them. -/
structure BesideLasers (dim : TableDim) (xSeen ySeen : Place) (centre : Int × Int) : Prop where
  x : centre.1 + dim.spacingX.tdiv 2 = position dim.laserLocX xSeen
  y : centre.2 = position dim.laserLocY ySeen
  columns : InColumns dim xSeen centre

/-- A ball beside its lasers is not on them. -/
theorem BesideLasers.not_on {dim : TableDim} {xSeen ySeen : Place} {centre : Int × Int}
    (h : BesideLasers dim xSeen ySeen centre) (hx : 2 ≤ dim.spacingX) :
    ¬ OnLasers dim xSeen ySeen centre := by
  intro hon
  have hoff := h.x.trans hon.x.symm
  rw [Int.tdiv_eq_ediv_of_nonneg (by omega)] at hoff
  omega

/-- The ball for the position of two places is beside its lasers. -/
theorem beside_lasers {dim : TableDim} (hx : 0 < dim.spacingX) (hxEven : 2 ∣ dim.spacingX)
    (hyEven : 2 ∣ dim.spacingY) (xSeen ySeen : Place) {point : Point}
    (hpointX : point.x = laserCoordinate xSeen) (hpointY : point.y = laserCoordinate ySeen) :
    BesideLasers dim xSeen ySeen (ballCentre dim point) := by
  obtain ⟨halfX, hhalfX⟩ := hxEven
  obtain ⟨halfY, hhalfY⟩ := hyEven
  rw [ball_centre_of_even hhalfX hhalfY, hpointX, hpointY]
  refine ⟨?_, ?_, (ofLex xSeen).1, .inl rfl, ?_⟩
  · rw [position_x_marks hhalfX, hhalfX, Int.mul_tdiv_cancel_left _ (by decide)]
    omega
  · exact (position_y_marks hhalfY ySeen).symm
  · have hdouble : 2 * (ofLex xSeen).1 * halfX = (ofLex xSeen).1 * dim.spacingX := by
      rw [hhalfX, ← Int.mul_assoc, Int.mul_comm _ 2]
    unfold laserCoordinate xRect
    dsimp only
    split <;> rw [Int.add_mul, hdouble] <;> omega

namespace Published

variable {defs : FLUDefs} {run : Published defs}

/-- The ball for a publication of two lists with breaks is drawn beside their lasers, and not on
them. -/
def BallBeside (dim : TableDim) (run : Published defs) (event : Tracker.Event defs) : Prop :=
  run.Publishes event →
    ∀ xSeen ySeen, place (publishedList (run.step event).log.state.x.shareMem) = some xSeen →
      place (publishedList (run.step event).log.state.y.shareMem) = some ySeen →
      BesideLasers dim xSeen ySeen (ballCentre dim (run.step event).log.state.curPosShareMem) ∧
        ¬ OnLasers dim xSeen ySeen (ballCentre dim (run.step event).log.state.curPosShareMem)

/-- The position that a publication shares is that of the lists that it publishes. -/
theorem Placed.shared_position (h : run.Placed) {event : Tracker.Event defs}
    (hpublishes : run.Publishes event) {xSeen ySeen : Place}
    (hx : place (publishedList (run.step event).log.state.x.shareMem) = some xSeen)
    (hy : place (publishedList (run.step event).log.state.y.shareMem) = some ySeen) :
    (run.step event).log.state.curPosShareMem.x = laserCoordinate xSeen ∧
      (run.step event).log.state.curPosShareMem.y = laserCoordinate ySeen := by
  have hplaced := h.step event
  rw [step_published hpublishes] at hx hy hplaced ⊢
  have hcurX := hplaced.x
  have hcurY := hplaced.y
  dsimp only at hx hy hcurX hcurY ⊢
  rw [last_coordinate_cons, hx] at hcurX
  rw [last_coordinate_cons, hy] at hcurY
  rw [position_copied hpublishes]
  exact ⟨hcurX, hcurY⟩

/-- On every table with even spacings, in every run of the tracker, no published ball is drawn on
its lasers: the centre has their y coordinate, and is half a spacing to the left of them. -/
theorem ball_drawn_beside {dim : TableDim} (hx : 0 < dim.spacingX) (hxEven : 2 ∣ dim.spacingX)
    (hyEven : 2 ∣ dim.spacingY) (x : Tracker.Axis defs.numberXRx) (y : Tracker.Axis defs.numberYRx)
    (events : List (Tracker.Event defs)) :
    Along step (BallBeside dim) (start x y) events := by
  have hkeep : ∀ (run : Published defs) (event : Tracker.Event defs), run.Placed →
      (run.step event).Placed := fun _ event h => h.step event
  refine along_of_invariant hkeep ?_ (placed_start x y) events
  intro run event h hpublishes xSeen ySeen hxSeen hySeen
  obtain ⟨hpointX, hpointY⟩ := h.shared_position hpublishes hxSeen hySeen
  have hbeside := beside_lasers hx hxEven hyEven xSeen ySeen hpointX hpointY
  exact ⟨hbeside, hbeside.not_on (Int.le_of_dvd hx hxEven)⟩

/-- Play is started, and x laser 1 and y laser 0 are broken until the next period is a
publication. -/
def oneLaserEach : List (Tracker.Event FLUDefs.small) :=
  .startPlay :: List.replicate 3 (.period ⟨[(1 : Fin 3)], List.nodup_singleton _⟩
    ⟨[(0 : Fin 2)], List.nodup_singleton _⟩)

/-- On the default table the ball for x laser 1 is drawn at 46, and the mark of the laser at 54. -/
theorem ball_left_of_mark :
    let run := oneLaserEach.foldl step (start (Tracker.Axis.zero 3) (Tracker.Axis.zero 2))
    let published := run.step (.period ⟨[], List.nodup_nil⟩ ⟨[], List.nodup_nil⟩)
    (published.xLists = [[1]] ∧ published.yLists = [[0]] ∧
        ballCentre .default published.log.state.curPosShareMem = (46, 36) ∧
        TableDim.default.laserLocX 1 = 54 ∧ TableDim.default.laserLocY 0 = 36) ∧
      ¬ OnLasers .default (toLex (1, false)) (toLex (0, false))
        (ballCentre .default published.log.state.curPosShareMem) := by
  intro run published
  have hcentre : ballCentre .default published.log.state.curPosShareMem = (46, 36) := by decide
  refine ⟨⟨by decide, by decide, hcentre, by decide, by decide⟩, ?_⟩
  intro hon
  have hx := hon.x
  rw [hcentre] at hx
  exact absurd hx (by decide)

/-- The ball of the default table in that run is beside its lasers. -/
theorem one_laser_each_beside :
    Along step (BallBeside .default)
      (start (Tracker.Axis.zero FLUDefs.small.numberXRx)
        (Tracker.Axis.zero FLUDefs.small.numberYRx))
      (oneLaserEach ++ [.period ⟨[], List.nodup_nil⟩ ⟨[], List.nodup_nil⟩]) := by
  have hspacing : 0 < TableDim.default.spacingX := by decide
  have hxEven : 2 ∣ TableDim.default.spacingX := by decide
  have hyEven : 2 ∣ TableDim.default.spacingY := by decide
  exact ball_drawn_beside hspacing hxEven hyEven (Tracker.Axis.zero FLUDefs.small.numberXRx)
    (Tracker.Axis.zero FLUDefs.small.numberYRx) _

end Published

end FoosballTable.System
