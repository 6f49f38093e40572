import FoosballTable.Logic.Mailbox
import FoosballTable.Logic.Strategy
import FoosballTable.System.Model
import FoosballTable.System.Position

/-!
# Unknown positions

Until a break is published on an axis, the ball position has the coordinate -1 there. The
conversions turn it into 23 and 24 millimetres. On the y axis the clamp moves that to the border,
which the strategy excludes; on the x axis nothing excludes it, and the strategy takes the ball to
be behind the fullback: `unknown_not_played_iff`.
-/

namespace FoosballTable.System

open Library

/-- The system, and whether a break has been published on each axis. -/
structure Sighting (defs : FLUDefs) where
  state : State defs
  xSeen : Bool
  ySeen : Bool

/-! ## Iterations with an unknown position -/

section Iterations

variable {defs : FLUDefs}

/-- After the tests of the loops the thread is not in the strategy. -/
theorem loop_test_not_in_strategy (logic : Logic.State) :
    ¬ (Logic.loopTest logic).pc.InStrategy := by
  unfold Logic.loopTest
  cases logic.start <;> exact id

/-- The unknown y coordinate is clamped to the border. -/
theorem clamp_y_unknown : Logic.clampY defs (Logic.tableCoordY (-1)) = 60 :=
  if_pos (by decide)

/-- Without a y coordinate the strategy does nothing. -/
theorem iteration_unknown_y (period : Logic.Period) {logic : Logic.State}
    (hmode : logic.mode = .normal) (hy : period.position.y = -1) :
    ¬ (Logic.iteration defs period logic).1.pc.InStrategy ∧
      (Logic.iteration defs period logic).2 = [] := by
  have hborder : ¬ ((60 : Int) > 60 ∧ (60 : Int) < defs.tableWidth - 60) := by omega
  simp only [Logic.iteration, hmode, Logic.basicStrategy, hy, clamp_y_unknown, if_neg hborder]
  exact ⟨loop_test_not_in_strategy _, trivial⟩

/-- Without an x coordinate the fullback's part of the strategy takes the ball to be behind the
fullback. -/
theorem fullback_strategy_unknown_x (period : Logic.Period) {logic : Logic.State}
    (hx : logic.ballPos.x = 23) :
    Logic.fullbackStrategy defs period logic =
      (Logic.loopTest logic,
        if period.fullbackRotational = .complete then [.rodRotate (-90) defs.fullback]
        else []) := by
  unfold Logic.fullbackStrategy
  rw [hx]
  by_cases hfree : period.fullbackRotational = .complete
  · simp [hfree]
  · simp [hfree]

/-- Without an x coordinate the strategy orders no kick, and rotates no rod exactly when the ball
is on a border of the table or the fullback's rotational motor is not free. -/
theorem iteration_unknown_x (period : Logic.Period) {logic : Logic.State}
    (hmode : logic.mode = .normal) (hx : period.position.x = -1) :
    ¬ (Logic.iteration defs period logic).1.pc.InStrategy ∧
      ((∀ call ∈ (Logic.iteration defs period logic).2, ¬ call.Rotates) ↔
        ¬ (60 < Logic.clampY defs (Logic.tableCoordY period.position.y) ∧
            Logic.clampY defs (Logic.tableCoordY period.position.y) < defs.tableWidth - 60) ∨
          period.fullbackRotational ≠ .complete) := by
  have hcoord : Logic.tableCoordX period.position.x = 23 := by rw [hx]; rfl
  have hgoalie : ¬ ((23 : Int) > 95 ∧ (23 : Int) < 115) := by omega
  simp only [Logic.iteration, hmode, Logic.basicStrategy, hcoord, if_neg hgoalie, gt_iff_lt]
  split
  · rename_i hinside
    rw [fullback_strategy_unknown_x _ rfl]
    refine ⟨loop_test_not_in_strategy _, ?_⟩
    by_cases hfree : period.fullbackRotational = .complete
    · refine iff_of_false ?_ (not_or.mpr ⟨not_not_intro hinside, not_not_intro hfree⟩)
      intro hnone
      refine hnone (.rodRotate (-90) defs.fullback) ?_ trivial
      exact List.mem_append_right _ (by rw [if_pos hfree]; exact List.mem_singleton_self _)
    · refine iff_of_true ?_ (.inr hfree)
      intro call hmem
      rw [if_neg hfree, List.append_nil] at hmem
      have hmove := Logic.blocking_moves_move defs period _ call hmem
      cases call with
      | playerMove => exact id
      | rodHome | rodHomeResumes | motorStep | rodRotate => cases hmove
  · rename_i hborder
    refine ⟨loop_test_not_in_strategy _, iff_of_true ?_ (.inl hborder)⟩
    intro call hmem
    cases hmem

/-- The thread gets into the strategy only by an iteration of `FL_NORMAL`. -/
theorem wake_not_in_strategy (period : Logic.Period) {logic : Logic.State}
    (hpc : ¬ logic.pc.InStrategy)
    (hiteration : logic.pc = .innerWait → logic.mode = .normal →
      ¬ (Logic.iteration defs period logic).1.pc.InStrategy) :
    ¬ (Logic.wake defs period logic).1.pc.InStrategy := by
  unfold Logic.wake
  split
  case h_1 => exact loop_test_not_in_strategy logic
  case h_2 hinner =>
    by_cases hmode : logic.mode = .normal
    · exact hiteration hinner hmode
    · unfold Logic.iteration
      split
      · dsimp only
        split
        · exact loop_test_not_in_strategy _
        · exact id
      · exact absurd ‹_› hmode
      · exact loop_test_not_in_strategy _
      · exact loop_test_not_in_strategy _
      · exact loop_test_not_in_strategy _
  case h_3 =>
    dsimp only
    split
    · exact loop_test_not_in_strategy _
    · exact hpc
  all_goals
    rename_i hwait
    exact absurd (by rw [hwait]; trivial) hpc

end Iterations

namespace Sighting

variable {defs : FLUDefs}

/-- The state that `init_module` leaves, with no break published. -/
def start (x : Tracker.Axis defs.numberXRx) (y : Tracker.Axis defs.numberYRx)
    (bitPositions : List Nat) : Sighting defs :=
  ⟨State.init x y bitPositions, false, false⟩

/-- The sighting after an event. -/
def step (setting : Setting) (sighting : Sighting defs) (event : Event defs) : Sighting defs :=
  let state := System.step setting sighting.state event
  match event with
  | .trackerPeriod _ _ =>
      if sighting.state.tracker.Publishing then
        { state := state
          xSeen := sighting.xSeen || decide (state.tracker.x.shareMem[0] ≠ -1)
          ySeen := sighting.ySeen || decide (state.tracker.y.shareMem[0] ≠ -1) }
      else { sighting with state := state }
  | _ => { sighting with state := state }

/-- The period as the thread meets it, with the position of the tracker. -/
def met (sighting : Sighting defs) (period : Logic.Period) : Logic.Period :=
  { period with position := Tracker.getBallPosition sighting.state.tracker }

/-- What is claimed of an event: an iteration of `FL_NORMAL` rotates no rod while no x break has
been published, and neither rotates a rod nor moves a player while no y break has been. -/
def Unplayed (sighting : Sighting defs) : Event defs → Prop
  | .logicPeriod period _ => sighting.state.logic.InNormal →
      ∀ call ∈ (Logic.wake defs (sighting.met period) sighting.state.logic).2,
        (sighting.xSeen = false → ¬ call.Rotates) ∧
          (sighting.ySeen = false → ¬ call.Rotates ∧ ¬ call.Moves)
  | _ => True

/-- The condition on an event: an iteration of `FL_NORMAL` without an x break finds the ball on a
border of the table, or the rotational motor of the fullback not free. -/
def Harmless (sighting : Sighting defs) : Event defs → Prop
  | .logicPeriod period _ => sighting.state.logic.pc = .innerWait →
      sighting.state.logic.mode = .normal → sighting.xSeen = false →
        ¬ (60 < Logic.clampY defs (Logic.tableCoordY sighting.state.tracker.curPos.y) ∧
            Logic.clampY defs (Logic.tableCoordY sighting.state.tracker.curPos.y) <
              defs.tableWidth - 60) ∨
          period.fullbackRotational ≠ .complete
  | _ => True

/-- An axis without a break still has the coordinate -1, and then the thread is not in the
strategy. -/
structure Unknown (sighting : Sighting defs) : Prop where
  x : sighting.xSeen = false → sighting.state.tracker.curPos.x = -1
  y : sighting.ySeen = false → sighting.state.tracker.curPos.y = -1
  pc : sighting.xSeen = false ∨ sighting.ySeen = false →
    ¬ sighting.state.logic.pc.InStrategy

theorem unknown_start (x : Tracker.Axis defs.numberXRx) (y : Tracker.Axis defs.numberYRx)
    (bitPositions : List Nat) : Unknown (start x y bitPositions) :=
  ⟨fun _ => rfl, fun _ => rfl, fun _ h => h⟩

/-- What a sighting has of the tracker and of the place of the thread stays, whatever has been
seen since. -/
theorem Unknown.keep {sighting next : Sighting defs} (h : Unknown sighting)
    (htracker : next.state.tracker.curPos = sighting.state.tracker.curPos)
    (hpc : next.state.logic.pc = sighting.state.logic.pc) (hx : next.xSeen = sighting.xSeen)
    (hy : next.ySeen = sighting.ySeen) : Unknown next := by
  refine ⟨?_, ?_, ?_⟩
  · rw [htracker, hx]
    exact h.x
  · rw [htracker, hy]
    exact h.y
  · rw [hpc, hx, hy]
    exact h.pc

/-- A period of the thread keeps what is unknown unknown. -/
theorem Unknown.logic_period {sighting : Sighting defs} (h : Unknown sighting)
    (setting : Setting) (period : Logic.Period) (rod : Logic.Call → List Motors.MotorCall) :
    Unknown (sighting.step setting (.logicPeriod period rod)) := by
  refine ⟨h.x, h.y, ?_⟩
  intro hunseen
  show ¬ (Logic.wake defs (sighting.met period) sighting.state.logic).1.pc.InStrategy
  refine wake_not_in_strategy _ (h.pc hunseen) ?_
  intro _ hmode
  rcases hunseen with hx | hy
  · exact (iteration_unknown_x (sighting.met period) hmode (h.x hx)).1
  · exact (iteration_unknown_y (sighting.met period) hmode (h.y hy)).1

/-- The coordinate of an axis without a break is the old one. -/
theorem coordinate_unseen {lasers : Nat} {calcBreaks : Vector Int (lasers + 1)} {seen : Bool}
    (h : (seen || decide (calcBreaks.get 0 ≠ -1)) = false) (old : Int) :
    seen = false ∧ Tracker.coordinate calcBreaks old = old := by
  obtain ⟨hseen, hfirst⟩ := Bool.or_eq_false_iff.mp h
  have hnone : calcBreaks[0] = -1 := not_not.mp (of_decide_eq_false hfirst)
  refine ⟨hseen, ?_⟩
  simp [Tracker.coordinate, hnone]

/-- A period of the tracker keeps what is unknown unknown. -/
theorem Unknown.tracker_period {sighting : Sighting defs} (h : Unknown sighting)
    (setting : Setting) (xSample : Tracker.Sample defs.numberXRx)
    (ySample : Tracker.Sample defs.numberYRx) :
    Unknown (sighting.step setting (.trackerPeriod xSample ySample)) := by
  unfold step
  dsimp only
  split
  · rename_i hpublishing
    obtain ⟨hx, hy⟩ := publication_cur_pos hpublishing xSample ySample
    refine ⟨?_, ?_, ?_⟩
    · intro hunseen
      obtain ⟨hxSeen, hold⟩ := coordinate_unseen hunseen sighting.state.tracker.curPos.x
      exact (hx.trans hold).trans (h.x hxSeen)
    · intro hunseen
      obtain ⟨hySeen, hold⟩ := coordinate_unseen hunseen sighting.state.tracker.curPos.y
      exact (hy.trans hold).trans (h.y hySeen)
    · intro hunseen
      exact h.pc (hunseen.imp (fun hx => (Bool.or_eq_false_iff.mp hx).1)
        fun hy => (Bool.or_eq_false_iff.mp hy).1)
  · rename_i hpublishing
    exact h.keep (wake_cur_pos hpublishing xSample ySample) rfl rfl rfl

/-- Every event keeps what is unknown unknown. -/
theorem Unknown.step {sighting : Sighting defs} (h : Unknown sighting) (setting : Setting)
    (event : Event defs) : Unknown (sighting.step setting event) := by
  cases event with
  | logicPeriod period rod => exact h.logic_period setting period rod
  | trackerPeriod xSample ySample => exact h.tracker_period setting xSample ySample
  | logic call => exact h.keep rfl (Logic.pc_run setting.rodIds call sighting.state.logic) rfl rfl
  | setBallTrackingMode mode => cases mode <;> exact h.keep rfl rfl rfl rfl
  | motors | startTracker | pauseTracker | tick => exact h.keep rfl rfl rfl rfl

/-- An event plays no unknown position exactly when it meets the condition. -/
theorem Unknown.unplayed_iff {sighting : Sighting defs} (h : Unknown sighting)
    (event : Event defs) : Unplayed sighting event ↔ Harmless sighting event := by
  cases event with
  | motors | logic | startTracker | pauseTracker | setBallTrackingMode | trackerPeriod | tick =>
      exact Iff.rfl
  | logicPeriod period rod =>
      have hwake : sighting.state.logic.pc = .innerWait →
          Logic.wake defs (sighting.met period) sighting.state.logic =
            Logic.iteration defs (sighting.met period) sighting.state.logic := by
        intro hpc
        simp only [Logic.wake, hpc]
      constructor
      · intro hunplayed hpc hmode hx
        refine (iteration_unknown_x (sighting.met period) hmode (h.x hx)).2.mp ?_
        intro call hmem
        rw [← hwake hpc] at hmem
        exact (hunplayed (.inr ⟨hpc, hmode⟩) call hmem).1 hx
      · intro hharmless hnormal call hmem
        refine ⟨?_, ?_⟩
        · intro hx
          obtain ⟨hpc, hmode⟩ := hnormal.resolve_left (h.pc (.inl hx))
          rw [hwake hpc] at hmem
          exact (iteration_unknown_x (sighting.met period) hmode (h.x hx)).2.mpr
            (hharmless hpc hmode hx) call hmem
        · intro hy
          obtain ⟨hpc, hmode⟩ := hnormal.resolve_left (h.pc (.inr hy))
          rw [hwake hpc, (iteration_unknown_y (sighting.met period) hmode (h.y hy)).2] at hmem
          cases hmem

/-- No unknown position is played in exactly the runs in which every iteration of `FL_NORMAL`
without an x break finds the ball on a border of the table or the rotational motor of the fullback
not free. -/
theorem unknown_not_played_iff (setting : Setting) (x : Tracker.Axis defs.numberXRx)
    (y : Tracker.Axis defs.numberYRx) (bitPositions : List Nat) (events : List (Event defs)) :
    Along (step setting) Unplayed (start x y bitPositions) events ↔
      Along (step setting) Harmless (start x y bitPositions) events := by
  refine along_congr ?_ ?_ (unknown_start x y bitPositions) events
  · exact fun sighting event h => Unknown.step h setting event
  · exact fun sighting event h => h.unplayed_iff event

/-- A table with four y lasers, of which the last one is away from the border. -/
def fourRowTable : FLUDefs :=
  { FLUDefs.small with numberYRx := 4 }

/-- The system on that table. -/
def fourRowStart : Sighting fourRowTable :=
  start (Tracker.Axis.zero _) (Tracker.Axis.zero _) []

/-- A sample in which the last y laser is broken and no x laser is. -/
def lastRowBroken : Event fourRowTable :=
  .trackerPeriod ⟨[], by decide⟩ ⟨[⟨3, by decide⟩], by decide⟩

/-- The y break is published, and play is started. -/
def lastRowPublished : List (Event fourRowTable) :=
  List.replicate 4 lastRowBroken ++ [.logic .startPlay, .logicPeriod (.quiet true) fun _ => []]

/-- No x break has been published, and the strategy lifts the men of the fullback. -/
theorem unknown_x_played :
    ((lastRowPublished.foldl (step Setting.small) fourRowStart).xSeen = false ∧
        (lastRowPublished.foldl (step Setting.small) fourRowStart).state.tracker.curPos.x = -1) ∧
      (Logic.wake fourRowTable
          ((lastRowPublished.foldl (step Setting.small) fourRowStart).met (.quiet true))
          (lastRowPublished.foldl (step Setting.small) fourRowStart).state.logic).2 =
        [.playerMove 69 0 0, .playerMove 69 1 0, .rodRotate (-90) 1] ∧
      ¬ Along (step Setting.small) Unplayed fourRowStart
        (lastRowPublished ++ [.logicPeriod (.quiet true) fun _ => []]) := by
  have hunseen : (lastRowPublished.foldl (step Setting.small) fourRowStart).xSeen = false := by
    decide
  have hcalls : (Logic.wake fourRowTable
      ((lastRowPublished.foldl (step Setting.small) fourRowStart).met (.quiet true))
      (lastRowPublished.foldl (step Setting.small) fourRowStart).state.logic).2 =
        [.playerMove 69 0 0, .playerMove 69 1 0, .rodRotate (-90) 1] := by decide
  refine ⟨⟨hunseen, by decide⟩, hcalls, ?_⟩
  intro hunplayed
  have hlast := (along_append.mp hunplayed).2.1 (by decide) (.rodRotate (-90) 1)
    (by rw [hcalls]; simp)
  exact hlast.1 hunseen trivial

end Sighting

end FoosballTable.System
