import FoosballTable.Library.Midpoints
import FoosballTable.Logic.Strategy
import FoosballTable.Tracker.Publication

/-!
# The position that is played

The tracker publishes the place of the broken lasers of an axis as one number, twice the first
laser and one more if its neighbour is broken too, and the iteration of `FL_NORMAL` converts that
number to millimetres. `midpoints_played` says that the two conversions, each written out for both
axes, compute the position of the lasers on the table.
-/

namespace FoosballTable.System

open Library

/-- The position of an x laser in millimetres. -/
def mmX (laser : Int) : Int :=
  23 + 20 * laser

/-- The position of a y laser in millimetres. -/
def mmY (laser : Int) : Int :=
  24 + 15 * laser

/-- The laser coordinate of a place. -/
def laserCoordinate (seen : Place) : Int :=
  2 * (ofLex seen).1 + if (ofLex seen).2 then 1 else 0

/-! ## From the breaks to the coordinate -/

/-- The coordinate of a list of lasers is that of its place, and the old one without a break. -/
theorem coordinate_of_terminated {lasers : Nat} {calcBreaks : Vector Int (lasers + 1)}
    {breaks : List Int} (h : Terminated (-1) calcBreaks breaks)
    (hbreaks : ∀ laser ∈ breaks, 0 ≤ laser) (old : Int) :
    Tracker.coordinate calcBreaks old = ((place breaks).map laserCoordinate).getD old := by
  have hfirst : calcBreaks[0]? = (breaks ++ [-1])[0]? := h.get (Nat.zero_le _)
  rw [Vector.getElem?_eq_getElem (Nat.succ_pos lasers)] at hfirst
  unfold Tracker.coordinate
  cases breaks with
  | nil =>
      have hfirst' : calcBreaks[0] = -1 := Option.some.inj hfirst
      simp [hfirst', place]
  | cons first rest =>
      have hfirst' : calcBreaks[0] = first := Option.some.inj hfirst
      have hnonneg := hbreaks first List.mem_cons_self
      have hne : first ≠ -1 := by omega
      have hsecond : calcBreaks[1]? = (first :: rest ++ [-1])[1]? := h.get (by simp)
      cases rest with
      | nil =>
          have hsecond' : calcBreaks[1]? = some (-1) := hsecond
          simp [hfirst', hsecond', hne, place, laserCoordinate, Int.mul_comm]
      | cons second rest =>
          have hsecond' : calcBreaks[1]? = some second := hsecond
          have hnonneg' := hbreaks second (by simp)
          have hne' : second ≠ -1 := by omega
          simp only [hfirst', hsecond', Option.getD_some, place, Option.map_some, laserCoordinate,
            ofLex_toLex, decide_eq_true_eq]
          split <;> split <;> omega

/-! ## From the coordinate to millimetres -/

/-- C's remainder tells whether the neighbour is broken too, and its quotient is the first laser. -/
theorem laser_coordinate_halved {seen : Place} (hfirst : 0 ≤ (ofLex seen).1) :
    (laserCoordinate seen).tmod 2 = (if (ofLex seen).2 then 1 else 0) ∧
      (laserCoordinate seen - if (ofLex seen).2 then 1 else 0).tdiv 2 = (ofLex seen).1 := by
  have hnonneg : 0 ≤ laserCoordinate seen := by
    unfold laserCoordinate
    split <;> omega
  rw [Int.tmod_eq_emod_of_nonneg hnonneg]
  unfold laserCoordinate
  rw [Int.add_sub_cancel, Int.mul_tdiv_cancel_left _ (by decide)]
  refine ⟨?_, rfl⟩
  split <;> omega

/-- The conversion of a coordinate is the position of its place, for every spacing of the lasers and
every offset of the first one. The middle between two lasers is half of the spacing away. -/
theorem converted_of_place (spacing wall : Int) {seen : Place} (hfirst : 0 ≤ (ofLex seen).1) :
    (if (laserCoordinate seen).tmod 2 = 1 then
        (laserCoordinate seen - 1).tdiv 2 * spacing + wall + spacing / 2
      else (laserCoordinate seen).tdiv 2 * spacing + wall) =
      position (fun laser => wall + spacing * laser) seen := by
  obtain ⟨hmod, hdiv⟩ := laser_coordinate_halved hfirst
  have hnext : spacing * ((ofLex seen).1 + 1) = spacing * (ofLex seen).1 + spacing := by
    rw [Int.mul_add, Int.mul_one]
  cases hadjacent : (ofLex seen).2 with
  | false =>
      simp only [hadjacent, Bool.false_eq_true, if_false, Int.sub_zero] at hmod hdiv
      simp only [position, hadjacent, hdiv, hmod, Bool.false_eq_true, Int.zero_ne_one, if_false]
      rw [Int.mul_comm, Int.add_comm]
  | true =>
      simp only [hadjacent, if_true] at hmod hdiv
      simp only [position, hadjacent, hdiv, hmod, hnext, if_true]
      rw [Int.mul_comm (ofLex seen).1]
      omega

/-- The conversion of an x coordinate is the position of its place. -/
theorem table_coord_x_of_place {seen : Place} (hfirst : 0 ≤ (ofLex seen).1) :
    Logic.tableCoordX (laserCoordinate seen) = position mmX seen :=
  converted_of_place 20 23 hfirst

/-- The conversion of a y coordinate is the position of its place. -/
theorem table_coord_y_of_place {seen : Place} (hfirst : 0 ≤ (ofLex seen).1) :
    Logic.tableCoordY (laserCoordinate seen) = position mmY seen :=
  converted_of_place 15 24 hfirst

/-! ## The clamp -/

/-- The clamp keeps the order. -/
theorem clamp_y_mono {defs : FLUDefs} (hwidth : 120 ≤ defs.tableWidth) :
    Monotone (Logic.clampY defs) := by
  intro y later hle
  unfold Logic.clampY
  split <;> split <;> (try split) <;> (try split) <;> omega

/-- The clamp leaves its two borders and what is between them. -/
theorem clamp_y_bounds {defs : FLUDefs} (hwidth : 120 ≤ defs.tableWidth) (y : Int) :
    60 ≤ Logic.clampY defs y ∧ Logic.clampY defs y ≤ defs.tableWidth - 60 := by
  unfold Logic.clampY
  split
  · omega
  · split <;> omega

/-! ## The frames -/

section Frames

variable {defs : FLUDefs}

/-- An iteration of `FL_NORMAL` converts and clamps the position it reads, and its strategy keeps
the result. -/
theorem iteration_ball_pos (period : Logic.Period) {logic : Logic.State}
    (hmode : logic.mode = .normal) :
    (Logic.iteration defs period logic).1.ballPos =
      { x := Logic.tableCoordX period.position.x
        y := Logic.clampY defs (Logic.tableCoordY period.position.y)
        time := period.position.time } := by
  simp only [Logic.iteration, hmode]
  exact Logic.basic_strategy_ball_pos defs period _

/-- A publication takes both coordinates from the breaks that it copies to shared memory. -/
theorem publication_cur_pos {tracker : Tracker.State defs} (hpublishing : tracker.Publishing)
    (xSample : Tracker.Sample defs.numberXRx) (ySample : Tracker.Sample defs.numberYRx) :
    (Tracker.wake xSample ySample tracker).curPos.x =
        Tracker.coordinate (Tracker.wake xSample ySample tracker).x.shareMem tracker.curPos.x ∧
      (Tracker.wake xSample ySample tracker).curPos.y =
        Tracker.coordinate (Tracker.wake xSample ySample tracker).y.shareMem tracker.curPos.y := by
  obtain ⟨hpc, hfull⟩ := hpublishing
  simp only [Tracker.wake, hpc, Tracker.cycle, if_neg hfull]
  exact ⟨rfl, rfl⟩

/-- Every other period of the tracker keeps the position. -/
theorem wake_cur_pos {tracker : Tracker.State defs} (hpublishing : ¬ tracker.Publishing)
    (xSample : Tracker.Sample defs.numberXRx) (ySample : Tracker.Sample defs.numberYRx) :
    (Tracker.wake xSample ySample tracker).curPos = tracker.curPos := by
  unfold Tracker.wake
  split
  · rfl
  · rename_i hpc
    have hcount : tracker.filterCount < defs.filterCount := by
      by_contra hfull
      exact hpublishing ⟨hpc, hfull⟩
    simp only [Tracker.cycle, if_pos hcount]
    rfl

/-- What is claimed of a frame: an iteration of `FL_NORMAL` that reads it computes the position of
its lasers, which lies between the first and the last of them. -/
structure Located (tracker : Tracker.State defs) (xBreaks yBreaks : List Int) : Prop where
  x : ∀ seen, place xBreaks = some seen →
    ∀ (period : Logic.Period) (logic : Logic.State), logic.mode = .normal →
      (Logic.iteration defs { period with position := Tracker.getBallPosition tracker }
        logic).1.ballPos.x = position mmX seen
  y : ∀ seen, place yBreaks = some seen →
    ∀ (period : Logic.Period) (logic : Logic.State), logic.mode = .normal →
      (Logic.iteration defs { period with position := Tracker.getBallPosition tracker }
        logic).1.ballPos.y = Logic.clampY defs (position mmY seen)
  xBetween : ∀ seen first last, place xBreaks = some seen → xBreaks.head? = some first →
    xBreaks.getLast? = some last → mmX first ≤ position mmX seen ∧ position mmX seen ≤ mmX last
  yBetween : ∀ seen first last, place yBreaks = some seen → yBreaks.head? = some first →
    yBreaks.getLast? = some last → mmY first ≤ position mmY seen ∧ position mmY seen ≤ mmY last

/-- A publication leaves two ascending lists of lasers in shared memory, and the position of the
tracker is that of their frame. Every other event keeps the position. -/
def FrameLocated (log : Tracker.Log defs) (event : Tracker.Event defs) : Prop :=
  match event with
  | .period _ _ =>
      if log.state.Publishing then
        ∃ (xIds : List (Fin defs.numberXRx)) (yIds : List (Fin defs.numberYRx)),
          xIds.Pairwise (· < ·) ∧ yIds.Pairwise (· < ·) ∧
          Terminated (-1) (log.step event).state.x.shareMem (Tracker.laserIds xIds) ∧
          Terminated (-1) (log.step event).state.y.shareMem (Tracker.laserIds yIds) ∧
          Located (log.step event).state (Tracker.laserIds xIds) (Tracker.laserIds yIds)
      else Tracker.getBallPosition (log.step event).state = Tracker.getBallPosition log.state
  | .startPlay | .pause | .setBallTrackingMode _ =>
      Tracker.getBallPosition (log.step event).state = Tracker.getBallPosition log.state

theorem gap_x (i : Int) : mmX i + 2 ≤ mmX (i + 1) := by
  unfold mmX
  omega

theorem gap_y (i : Int) : mmY i + 2 ≤ mmY (i + 1) := by
  unfold mmY
  omega

/-- The numbers of lasers are not negative. -/
theorem laser_ids_nonneg {lasers : Nat} (ids : List (Fin lasers)) :
    ∀ laser ∈ Tracker.laserIds ids, 0 ≤ laser := by
  intro laser hmem
  obtain ⟨t, -, rfl⟩ := List.mem_map.mp hmem
  exact Int.natCast_nonneg t

/-- The numbers of ascending lasers ascend. -/
theorem laser_ids_ascending {lasers : Nat} {ids : List (Fin lasers)}
    (hids : ids.Pairwise (· < ·)) : (Tracker.laserIds ids).Pairwise (· < ·) := by
  refine List.pairwise_map.mpr (hids.imp ?_)
  intro t later hlt
  exact Int.ofNat_lt.mpr hlt

/-- The first laser of a place is one of its list. -/
theorem first_of_place {breaks : List Int} {seen : Place} (h : place breaks = some seen) :
    (ofLex seen).1 ∈ breaks := by
  cases breaks with
  | nil => cases h
  | cons first rest =>
      cases rest with
      | nil | cons =>
          obtain rfl := Option.some.inj h
          exact List.mem_cons_self

/-- The position of a tracker that has published two ascending lists is that of their frame. -/
theorem located_of_coordinates {tracker : Tracker.State defs} {xIds : List (Fin defs.numberXRx)}
    {yIds : List (Fin defs.numberYRx)} (hxIds : xIds.Pairwise (· < ·))
    (hyIds : yIds.Pairwise (· < ·)) {xOld yOld : Int}
    (hx : tracker.curPos.x = ((place (Tracker.laserIds xIds)).map laserCoordinate).getD xOld)
    (hy : tracker.curPos.y = ((place (Tracker.laserIds yIds)).map laserCoordinate).getD yOld) :
    Located tracker (Tracker.laserIds xIds) (Tracker.laserIds yIds) where
  x := by
    intro seen hseen period logic hmode
    rw [hseen] at hx
    have hfirst := laser_ids_nonneg xIds _ (first_of_place hseen)
    rw [iteration_ball_pos _ hmode]
    exact (congrArg Logic.tableCoordX hx).trans (table_coord_x_of_place hfirst)
  y := by
    intro seen hseen period logic hmode
    rw [hseen] at hy
    have hfirst := laser_ids_nonneg yIds _ (first_of_place hseen)
    rw [iteration_ball_pos _ hmode]
    exact congrArg (Logic.clampY defs)
      ((congrArg Logic.tableCoordY hy).trans (table_coord_y_of_place hfirst))
  xBetween := fun _ _ _ hseen => position_between gap_x (laser_ids_ascending hxIds) hseen
  yBetween := fun _ _ _ hseen => position_between gap_y (laser_ids_ascending hyIds) hseen

/-- Every event of a sound log is located. -/
theorem frame_located {log : Tracker.Log defs} (h : log.Sound) (event : Tracker.Event defs) :
    FrameLocated log event := by
  cases event with
  | startPlay | pause => exact rfl
  | setBallTrackingMode mode => cases mode <;> exact rfl
  | period xSample ySample =>
      unfold FrameLocated
      dsimp only
      split
      · rename_i hpublishing
        obtain ⟨-, -, hxList, hyList⟩ := h.faithful (.period xSample ySample) hpublishing
        obtain ⟨xIds, hxIds, hxSpecified⟩ := Tracker.specified_ascending defs log.state.btMode
          log.x.window log.x.published
        obtain ⟨yIds, hyIds, hySpecified⟩ := Tracker.specified_ascending defs log.state.btMode
          log.y.window log.y.published
        rw [hxSpecified] at hxList
        rw [hySpecified] at hyList
        obtain ⟨hx, hy⟩ := publication_cur_pos hpublishing xSample ySample
        refine ⟨xIds, yIds, hxIds, hyIds, hxList, hyList, ?_⟩
        exact located_of_coordinates hxIds hyIds
          (hx.trans (coordinate_of_terminated hxList (laser_ids_nonneg xIds) _))
          (hy.trans (coordinate_of_terminated hyList (laser_ids_nonneg yIds) _))
      · rename_i hpublishing
        exact wake_cur_pos hpublishing xSample ySample

/-- In every run of the tracker, the position that is played from a frame is that of its lasers. It
strictly increases with the place, and for every table that is wide enough the clamp keeps the
order of the y positions and leaves the two borders and what is between them. -/
theorem midpoints_played (x : Tracker.Axis defs.numberXRx) (y : Tracker.Axis defs.numberYRx)
    (events : List (Tracker.Event defs)) (hwidth : 120 ≤ defs.tableWidth) :
    Along Tracker.Log.step FrameLocated (Tracker.Log.start x y) events ∧
      StrictMono (position mmX) ∧ StrictMono (position mmY) ∧
      Monotone (fun seen => Logic.clampY defs (position mmY seen)) ∧
      ∀ seen, 60 ≤ Logic.clampY defs (position mmY seen) ∧
        Logic.clampY defs (position mmY seen) ≤ defs.tableWidth - 60 := by
  refine ⟨?_, position_strict_mono gap_x, position_strict_mono gap_y, ?_, ?_⟩
  · refine along_of_invariant ?_ ?_ (Tracker.Log.sound_start x y) events
    · exact fun log event h => h.step event
    · exact fun log event h => frame_located h event
  · exact (clamp_y_mono hwidth).comp (position_strict_mono gap_y).monotone
  · exact fun seen => clamp_y_bounds hwidth _

/-- A table that is 700 mm wide, with every laser broken until the tracker publishes. -/
theorem small_table_midpoints_played :
    Along Tracker.Log.step FrameLocated
        (Tracker.Log.start (Tracker.Axis.zero FLUDefs.small.numberXRx)
          (Tracker.Axis.zero FLUDefs.small.numberYRx))
        (.startPlay :: List.replicate 4 (.period ⟨List.finRange _, List.nodup_finRange _⟩
          ⟨List.finRange _, List.nodup_finRange _⟩)) ∧
      StrictMono (position mmX) ∧ StrictMono (position mmY) ∧
      Monotone (fun seen => Logic.clampY FLUDefs.small (position mmY seen)) ∧
      ∀ seen, 60 ≤ Logic.clampY FLUDefs.small (position mmY seen) ∧
        Logic.clampY FLUDefs.small (position mmY seen) ≤ 700 - 60 :=
  midpoints_played (Tracker.Axis.zero FLUDefs.small.numberXRx)
    (Tracker.Axis.zero FLUDefs.small.numberYRx) _ (by decide)

end Frames

end FoosballTable.System
