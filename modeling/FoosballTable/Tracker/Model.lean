import FoosballTable.Common.Types
import FoosballTable.Library.Arrays

/-!
# The ball tracker

`BallTracker.c`. In every cycle the thread `_main` reads the lasers broken on both axes. It counts
them for `FILTER_COUNT` cycles, and publishes in the next one the lasers counted in more than half
of the samples: to the shared memory of the user interface, and as the ball position to
`FoosLogic`. The variables that the source has twice, for the x and for the y axis, are the fields
of `Axis`; the two copies of the code over them are one definition over an axis. The array that
`bankGetBreaks`, which is not part of the repository, fills in is a `Sample`.
-/

namespace FoosballTable.Tracker

open Library

/-- `BallTrackingMode`. -/
inductive BallTrackingMode where
  | normal
  | longCount
  deriving DecidableEq, Repr

/-- The call of `pthread_wait_np` the thread is parked at: in the outer or the inner loop. -/
inductive Pc where
  | outerWait
  | innerWait
  deriving DecidableEq, Repr

/-- The lasers of an axis found broken in a cycle: distinct ids, in the order of the banks. -/
structure Sample (lasers : Nat) where
  ids : List (Fin lasers)
  nodup : ids.Nodup
  deriving DecidableEq, Repr

/-- A sample without a broken laser. -/
def Sample.clear (lasers : Nat) : Sample lasers :=
  ⟨[], List.nodup_nil⟩

/-- A sample with one broken laser. -/
def Sample.single {lasers : Nat} (t : Fin lasers) : Sample lasers :=
  ⟨[t], List.nodup_singleton t⟩

/-- The arrays of an axis: `longCountX`, the locals `xBreakCount`, `_xBreaks` and `calcXBreaks` of
the thread, and the shared memory `xShareMem`. -/
structure Axis (lasers : Nat) where
  longCount : Vector Int lasers
  breakCount : Vector Int lasers
  breaks : Vector Int (lasers + 1)
  calcBreaks : Vector Int (lasers + 1)
  shareMem : Vector Int (lasers + 1)
  deriving DecidableEq, Repr

/-- An axis in memory that holds zeros. -/
def Axis.zero (lasers : Nat) : Axis lasers :=
  ⟨Vector.replicate _ 0, Vector.replicate _ 0, Vector.replicate _ 0, Vector.replicate _ 0,
    Vector.replicate _ 0⟩

/-- The variables of `BallTracker.c` and of its thread, and the place of the thread. -/
structure State (defs : FLUDefs) where
  start : Bool
  btMode : BallTrackingMode
  curPos : Point
  curPosShareMem : Point
  filterCount : Nat
  x : Axis defs.numberXRx
  y : Axis defs.numberYRx
  pc : Pc
  deriving DecidableEq, Repr

/-! ## Arrays -/

/-- `_zeroIntArray`. -/
def zeroIntArray {topIndex : Nat} (array : Vector Int topIndex) : Vector Int topIndex :=
  (List.finRange topIndex).foldl (fun array (t : Fin topIndex) => array.set t 0 t.isLt) array

/-- `_getBreaks`: the banks fill in the sample, and a `-1` terminates it. -/
def getBreaks {lasers : Nat} (sample : Sample lasers) (breaks : Vector Int (lasers + 1)) :
    Vector Int (lasers + 1) :=
  ((sample.ids.foldl (fun cursor laser => (cursor.store (laser : Int)).advance)
    (Cursor.begin breaks)).store (-1)).cells

/-- The loop of `_main` over an array of breaks: the count of each laser in it goes up. -/
def countBreaks {lasers : Nat} (breakCount : Vector Int lasers) : List Int → Vector Int lasers
  | [] => breakCount
  | laser :: breaks =>
      if laser ≠ -1 then
        countBreaks
          (breakCount.setIfInBounds laser.toNat ((breakCount[laser.toNat]?.getD 0) + 1)) breaks
      else breakCount

/-! ## The filters -/

/-- The loop body of `_calcBallPosition` in `BTMODE_NORMAL`. -/
def normalFilter {lasers : Nat} (testCount : Int) (breakCount : Vector Int lasers)
    (calcBreaksPtr : Cursor Int (lasers + 1)) (t : Fin lasers) : Cursor Int (lasers + 1) :=
  if breakCount.get t > testCount then (calcBreaksPtr.store (t : Int)).advance else calcBreaksPtr

/-- The loop body of `_calcBallPosition` in `BTMODE_LONGCOUNT`. -/
def longCountFilter {lasers : Nat} (testCount : Int) (breakCount : Vector Int lasers)
    (loop : Cursor Int (lasers + 1) × Vector Int lasers) (t : Fin lasers) :
    Cursor Int (lasers + 1) × Vector Int lasers :=
  let (calcBreaksPtr, longCount) := loop
  if breakCount.get t > testCount then
    if longCount.get t < 500 ∧ longCount.get t ≥ 0 then
      ((calcBreaksPtr.store (t : Int)).advance, longCount.set t (longCount.get t + 1) t.isLt)
    -- a laser broken for too long is flagged, and hidden until it is not broken
    else (calcBreaksPtr, longCount.set t (-1) t.isLt)
  else (calcBreaksPtr, longCount.set t 0 t.isLt)

/-- `_calcBallPosition`, for one axis. -/
def calcBallPosition (defs : FLUDefs) (btMode : BallTrackingMode) {lasers : Nat}
    (axis : Axis lasers) : Axis lasers :=
  let testCount : Int := (defs.filterCount / 2 : Nat)
  match btMode with
  | .normal =>
      let calcBreaksPtr := (List.finRange lasers).foldl (normalFilter testCount axis.breakCount)
        (Cursor.begin axis.calcBreaks)
      { axis with calcBreaks := (calcBreaksPtr.store (-1)).cells }
  | .longCount =>
      let (calcBreaksPtr, longCount) :=
        (List.finRange lasers).foldl (longCountFilter testCount axis.breakCount)
          (Cursor.begin axis.calcBreaks, axis.longCount)
      { axis with
        calcBreaks := (calcBreaksPtr.store (-1)).cells
        longCount := longCount }

/-- The coordinate that `_publishBallTrackData` derives from the first two breaks of an axis; the
old one stays when there is no break. -/
def coordinate {lasers : Nat} (calcBreaks : Vector Int (lasers + 1)) (old : Int) : Int :=
  let first := calcBreaks[0]
  let second := calcBreaks[1]?.getD (-1)
  if first ≠ -1 ∧ second ≠ -1 ∧ second - first = 1 then first * 2 + 1
  else if first ≠ -1 then first * 2
  else old

/-- The copy of an axis to shared memory in `_publishBallTrackData`. -/
def Axis.publish {lasers : Nat} (axis : Axis lasers) : Axis lasers :=
  { axis with shareMem := axis.calcBreaks }

variable {defs : FLUDefs}

/-- `_publishBallTrackData`. -/
def publishBallTrackData (state : State defs) : State defs :=
  let curPos : Point :=
    { state.curPos with
      x := coordinate state.x.calcBreaks state.curPos.x
      y := coordinate state.y.calcBreaks state.curPos.y }
  { state with
    curPos := curPos
    curPosShareMem := curPos
    x := state.x.publish
    y := state.y.publish }

/-! ## The public methods -/

/-- The arrays of an axis that `setup` and the start of the thread clear. -/
def Axis.setup {lasers : Nat} (axis : Axis lasers) : Axis lasers :=
  { axis with
    shareMem := axis.shareMem.set 0 (-1)
    longCount := zeroIntArray axis.longCount
    breakCount := zeroIntArray axis.breakCount }

/-- The state `setup` and `run` leave. What the memory holds before is given: the locals of the
thread and all of the shared arrays but their first elements are not initialized. -/
def State.setup (x : Axis defs.numberXRx) (y : Axis defs.numberYRx) : State defs where
  start := false
  btMode := .longCount
  curPos := ⟨-1, -1, 0⟩
  curPosShareMem := ⟨0, 0, 0⟩
  filterCount := 0
  x := x.setup
  y := y.setup
  pc := .outerWait

/-- `startPlay`. -/
def startPlay (state : State defs) : Status × State defs :=
  (.success, { state with start := true })

/-- `pause`. -/
def pause (state : State defs) : Status × State defs :=
  (.success, { state with start := false })

/-- `getBallPosition`. -/
def getBallPosition (state : State defs) : Point :=
  state.curPos

/-- The long counts of an axis are cleared. -/
def Axis.clearLongCount {lasers : Nat} (axis : Axis lasers) : Axis lasers :=
  { axis with longCount := zeroIntArray axis.longCount }

/-- `setBallTrackingMode`, as one step: the two branches differ in the order of their writes. -/
def setBallTrackingMode (mode : BallTrackingMode) (state : State defs) : Status × State defs :=
  match mode with
  | .normal =>
      let state := { state with btMode := .normal }
      (.success, { state with x := state.x.clearLongCount, y := state.y.clearLongCount })
  | .longCount =>
      let state := { state with x := state.x.clearLongCount, y := state.y.clearLongCount }
      (.success, { state with btMode := .longCount })

/-! ## The thread -/

/-- The sample of an axis is counted in the jitter filter. -/
def Axis.count {lasers : Nat} (axis : Axis lasers) : Axis lasers :=
  { axis with breakCount := countBreaks axis.breakCount axis.breaks.toList }

/-- The break counts of an axis are cleared. -/
def Axis.clearBreakCount {lasers : Nat} (axis : Axis lasers) : Axis lasers :=
  { axis with breakCount := zeroIntArray axis.breakCount }

/-- The sample of an axis is read into its array of breaks. -/
def Axis.read {lasers : Nat} (sample : Sample lasers) (axis : Axis lasers) : Axis lasers :=
  { axis with breaks := getBreaks sample axis.breaks }

/-- The body of the inner loop of `_main` after its wait. -/
def cycle (xSample : Sample defs.numberXRx) (ySample : Sample defs.numberYRx)
    (state : State defs) : State defs :=
  let state := { state with x := state.x.read xSample, y := state.y.read ySample }
  if state.filterCount < defs.filterCount then
    { state with
      x := state.x.count
      y := state.y.count
      filterCount := state.filterCount + 1 }
  else
    let state :=
      { state with
        x := calcBallPosition defs state.btMode state.x
        y := calcBallPosition defs state.btMode state.y }
    let state := publishBallTrackData state
    { state with
      x := state.x.clearBreakCount
      y := state.y.clearBreakCount
      filterCount := 0 }

/-- The tests of the two loops of `_main` after a cycle or a wait. -/
def loopTest (state : State defs) : State defs :=
  { state with pc := if state.start then .innerWait else .outerWait }

/-- The thread runs from the wait it is parked at to the next one. -/
def wake (xSample : Sample defs.numberXRx) (ySample : Sample defs.numberYRx)
    (state : State defs) : State defs :=
  match state.pc with
  | .outerWait => loopTest state
  | .innerWait => loopTest (cycle xSample ySample state)

/-- A cycle does not write `_start`. -/
theorem cycle_start (xSample : Sample defs.numberXRx) (ySample : Sample defs.numberYRx)
    (state : State defs) : (cycle xSample ySample state).start = state.start := by
  unfold cycle
  dsimp only
  split <;> rfl

/-- Nor does the thread anywhere else. -/
theorem wake_start (xSample : Sample defs.numberXRx) (ySample : Sample defs.numberYRx)
    (state : State defs) : (wake xSample ySample state).start = state.start := by
  unfold wake
  split
  · rfl
  · exact cycle_start xSample ySample state

/-- Nor does it write the mode. -/
theorem wake_bt_mode (xSample : Sample defs.numberXRx) (ySample : Sample defs.numberYRx)
    (state : State defs) : (wake xSample ySample state).btMode = state.btMode := by
  unfold wake
  split
  · rfl
  · unfold cycle
    dsimp only
    split <;> rfl

/-- The next cycle publishes: the thread is in its inner loop and the filter is full. -/
def State.Publishing (state : State defs) : Prop :=
  state.pc = .innerWait ∧ ¬ state.filterCount < defs.filterCount

instance (state : State defs) : Decidable state.Publishing :=
  inferInstanceAs (Decidable (_ ∧ _))

/-! ## The ways a period can go -/

/-- In the outer loop nothing is read. -/
theorem wake_outer {state : State defs} (hpc : state.pc = .outerWait)
    (xSample : Sample defs.numberXRx) (ySample : Sample defs.numberYRx) :
    wake xSample ySample state = loopTest state := by
  simp only [wake, hpc]

/-- While the filter is not full both samples are counted. -/
theorem wake_count {state : State defs} (hpc : state.pc = .innerWait)
    (hcount : state.filterCount < defs.filterCount) (xSample : Sample defs.numberXRx)
    (ySample : Sample defs.numberYRx) :
    wake xSample ySample state =
      loopTest
        { state with
          x := (state.x.read xSample).count
          y := (state.y.read ySample).count
          filterCount := state.filterCount + 1 } := by
  simp only [wake, hpc, cycle, if_pos hcount]

/-- A publication filters both axes and copies them, and clears the counts. -/
theorem wake_publish {state : State defs} (hpublishing : state.Publishing)
    (xSample : Sample defs.numberXRx) (ySample : Sample defs.numberYRx) :
    ∃ curPos, wake xSample ySample state =
      loopTest
        { state with
          curPos := curPos
          curPosShareMem := curPos
          x := (calcBallPosition defs state.btMode (state.x.read xSample)).publish.clearBreakCount
          y := (calcBallPosition defs state.btMode (state.y.read ySample)).publish.clearBreakCount
          filterCount := 0 } := by
  obtain ⟨hpc, hfull⟩ := hpublishing
  refine ⟨(wake xSample ySample state).curPos, ?_⟩
  simp only [wake, hpc, cycle, if_neg hfull]
  rfl

end FoosballTable.Tracker
