import FoosballTable.Interface.Table

/-!
# The grid of the table

The part of `Table::draw` of `Table.cpp` before the breaks. A loop for each axis draws a line of the
grid and a mark beside the table for every laser, with their numbers, and a last line follows after
each loop. `x_mark_drawn`, `y_mark_drawn` and `outline_drawn` say where the marks and the border
of the table are.
-/

namespace FoosballTable.Interface

/-- `GUIHColor`. -/
inductive GUIHColor where
  | white
  | black
  | red
  | green
  | blue
  | yellow
  | pink
  deriving DecidableEq, Repr

/-- `GUIHSize`. -/
inductive GUIHSize where
  | small
  | normal
  | large
  deriving DecidableEq, Repr

/-- A call of a method of `GenericUIHandler`. -/
inductive UICall where
  | setFontSize (size : GUIHSize)
  | setLineColor (color : GUIHColor)
  | setFillColor (color : GUIHColor)
  | drawCircle (radius xCenter yCenter : Int)
  | drawAxisLine (x1 y1 x2 y2 : Int)
  | drawInt (number x y : Int)
  deriving DecidableEq, Repr

namespace TableDim

variable (dim : TableDim)

/-- The x coordinate of the line of an x laser, `line_loc`. -/
def lineLocX (x : Int) : Int :=
  dim.startX + x * dim.spacingX

/-- The y coordinate of the line of a y laser, `line_loc`. -/
def lineLocY (y : Int) : Int :=
  dim.startY + y * dim.spacingY

/-- The x coordinate of the mark of an x laser, `laser_loc`. -/
def laserLocX (x : Int) : Int :=
  dim.startX + x * dim.spacingX + dim.spacingX.tdiv 2

/-- The y coordinate of the mark of a y laser, `laser_loc`. -/
def laserLocY (y : Int) : Int :=
  dim.startY + y * dim.spacingY + dim.spacingY.tdiv 2

/-- The local `length`. -/
def length : Int :=
  dim.laserX * dim.spacingX

/-- The local `height`. -/
def height : Int :=
  dim.laserY * dim.spacingY

/-- The mark of an x laser, below the table. -/
def xMark (x : Int) : UICall :=
  .drawAxisLine (dim.laserLocX x) (dim.startY + dim.height) (dim.laserLocX x)
    (dim.startY + dim.height + dim.markLen)

/-- The mark of a y laser, to the right of the table. -/
def yMark (y : Int) : UICall :=
  .drawAxisLine (dim.startX + dim.length) (dim.laserLocY y)
    (dim.startX + dim.length + dim.markLen) (dim.laserLocY y)

/-- The line of the grid at the left of an x laser, or after the last one. -/
def xLine (x : Int) : UICall :=
  .drawAxisLine (dim.lineLocX x) dim.startY (dim.lineLocX x) (dim.startY + dim.height)

/-- The line of the grid above a y laser, or after the last one. -/
def yLine (y : Int) : UICall :=
  .drawAxisLine dim.startX (dim.lineLocY y) (dim.startX + dim.length) (dim.lineLocY y)

/-- The body of the loop over the x lasers. -/
def drawXLaser (x displayNumber : Int) : List UICall :=
  let bottomTextX := dim.startY - 8
  [.setLineColor .red, dim.xMark x,
    .drawInt x (dim.laserLocX x - 4) (dim.startY + dim.height + dim.markLen + 1),
    .setLineColor .white, dim.xLine x,
    if displayNumber < 10 then .drawInt displayNumber (dim.lineLocX x - 2) bottomTextX
    else .drawInt displayNumber (dim.lineLocX x - 5) bottomTextX]

/-- The body of the loop over the y lasers. -/
def drawYLaser (y displayNumber : Int) : List UICall :=
  [.setLineColor .red, dim.yMark y,
    .drawInt y (dim.startX + dim.length + dim.markLen + 1) (dim.laserLocY y - 3),
    .setLineColor .white, dim.yLine y,
    if displayNumber < 10 then .drawInt displayNumber (dim.startX - 6) (dim.lineLocY y - 3)
    else if displayNumber < 100 then
      .drawInt displayNumber (dim.startX - 11) (dim.lineLocY y - 3)
    else .drawInt displayNumber (dim.startX - 16) (dim.lineLocY y - 3)]

end TableDim

/-- A loop over lasers from `laser` on, for a number of rounds: the calls, and `displayNumber`
after it. -/
def laserLoop (body : Int → Int → List UICall) : Nat → Int → Int → List UICall × Int
  | 0, _, displayNumber => ([], displayNumber)
  | rounds + 1, laser, displayNumber =>
      let (calls, last) := laserLoop body rounds (laser + 1) (displayNumber + 2)
      (body laser displayNumber ++ calls, last)

/-- `Table::draw`, up to the first copy. -/
def drawGrid (dim : TableDim) : List UICall :=
  let (xCalls, xLast) := laserLoop dim.drawXLaser dim.laserX.toNat 0 0
  let (yCalls, yLast) := laserLoop dim.drawYLaser dim.laserY.toNat 0 0
  [.setFillColor .white, .setFontSize .small] ++ xCalls ++
    [dim.xLine dim.laserX, .drawInt xLast (dim.lineLocX dim.laserX - 5) (dim.startY - 8)] ++
    yCalls ++
    [dim.yLine dim.laserY, .drawInt yLast (dim.startX - 16) (dim.lineLocY dim.laserY - 3)]

/-! ## What the loops draw -/

/-- A loop draws what its body draws for each laser, whose number on the display is twice its
distance from the first one. -/
theorem mem_laser_loop {body : Int → Int → List UICall} {rounds : Nat} {laser displayNumber : Int}
    {call : UICall} {k : Nat} (hk : k < rounds)
    (hcall : call ∈ body (laser + k) (displayNumber + 2 * k)) :
    call ∈ (laserLoop body rounds laser displayNumber).1 := by
  induction rounds generalizing laser displayNumber k with
  | zero => exact absurd hk (Nat.not_lt_zero k)
  | succ rounds ih =>
      refine List.mem_append.mpr ?_
      cases k with
      | zero =>
          left
          simpa using hcall
      | succ k =>
          right
          refine ih (Nat.lt_of_succ_lt_succ hk) ?_
          have hlaser : laser + 1 + (k : Int) = laser + ((k + 1 : Nat) : Int) := by omega
          have hnumber : displayNumber + 2 + 2 * (k : Int) =
              displayNumber + 2 * ((k + 1 : Nat) : Int) := by omega
          rw [hlaser, hnumber]
          exact hcall

/-- The loop over all lasers of an axis draws what its body draws for any of them. -/
theorem mem_axis_loop {body : Int → Int → List UICall} {lasers laser : Int} (hlaser : 0 ≤ laser)
    (hlt : laser < lasers) {call : UICall}
    (hcall : ∀ displayNumber, call ∈ body laser displayNumber) :
    call ∈ (laserLoop body lasers.toNat 0 0).1 := by
  obtain ⟨k, rfl⟩ := Int.eq_ofNat_of_zero_le hlaser
  refine mem_laser_loop (k := k) (by omega) ?_
  rw [Int.zero_add]
  exact hcall _

section Grid

variable (dim : TableDim)

/-- The first loop draws every x laser. -/
theorem mem_grid_of_x {x : Int} (hx : 0 ≤ x) (hlt : x < dim.laserX) {call : UICall}
    (hcall : ∀ displayNumber, call ∈ dim.drawXLaser x displayNumber) : call ∈ drawGrid dim := by
  have hloop := mem_axis_loop hx hlt hcall
  unfold drawGrid
  simp only [List.mem_append, hloop, true_or, or_true]

/-- The second loop draws every y laser. -/
theorem mem_grid_of_y {y : Int} (hy : 0 ≤ y) (hlt : y < dim.laserY) {call : UICall}
    (hcall : ∀ displayNumber, call ∈ dim.drawYLaser y displayNumber) : call ∈ drawGrid dim := by
  have hloop := mem_axis_loop hy hlt hcall
  unfold drawGrid
  simp only [List.mem_append, hloop, true_or, or_true]

/-- The mark of every x laser is drawn. -/
theorem x_mark_drawn {x : Int} (hx : 0 ≤ x) (hlt : x < dim.laserX) :
    dim.xMark x ∈ drawGrid dim :=
  mem_grid_of_x dim hx hlt fun _ => by simp [TableDim.drawXLaser]

/-- The mark of every y laser is drawn. -/
theorem y_mark_drawn {y : Int} (hy : 0 ≤ y) (hlt : y < dim.laserY) :
    dim.yMark y ∈ drawGrid dim :=
  mem_grid_of_y dim hy hlt fun _ => by simp [TableDim.drawYLaser]

/-- The border of the table. -/
def outline : Rect where
  x1 := dim.startX
  y1 := dim.startY
  x2 := dim.startX + dim.laserX * dim.spacingX
  y2 := dim.startY + dim.laserY * dim.spacingY

/-- The four sides of the border are the first and the last lines of both axes. -/
theorem outline_drawn (hx : 0 < dim.laserX) (hy : 0 < dim.laserY) :
    let border := outline dim
    .drawAxisLine border.x1 border.y1 border.x1 border.y2 ∈ drawGrid dim ∧
      .drawAxisLine border.x2 border.y1 border.x2 border.y2 ∈ drawGrid dim ∧
      .drawAxisLine border.x1 border.y1 border.x2 border.y1 ∈ drawGrid dim ∧
      .drawAxisLine border.x1 border.y2 border.x2 border.y2 ∈ drawGrid dim := by
  intro border
  have hleft : dim.xLine 0 = .drawAxisLine border.x1 border.y1 border.x1 border.y2 := by
    simp [TableDim.xLine, TableDim.lineLocX, TableDim.height, border, outline]
  have hupper : dim.yLine 0 = .drawAxisLine border.x1 border.y1 border.x2 border.y1 := by
    simp [TableDim.yLine, TableDim.lineLocY, TableDim.length, border, outline]
  have hright : dim.xLine dim.laserX = .drawAxisLine border.x2 border.y1 border.x2 border.y2 := rfl
  have hlower : dim.yLine dim.laserY = .drawAxisLine border.x1 border.y2 border.x2 border.y2 := rfl
  rw [← hleft, ← hupper, ← hright, ← hlower]
  refine ⟨?_, ?_, ?_, ?_⟩
  · exact mem_grid_of_x dim (Int.le_refl 0) hx fun _ => by simp [TableDim.drawXLaser]
  · simp [drawGrid]
  · exact mem_grid_of_y dim (Int.le_refl 0) hy fun _ => by simp [TableDim.drawYLaser]
  · simp [drawGrid]

end Grid

end FoosballTable.Interface
