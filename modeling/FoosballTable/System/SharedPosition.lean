import FoosballTable.Library.Runs
import FoosballTable.System.Position

/-!
# The two copies of the position

The tracker keeps the position of the ball in `_curPos`, which `FoosLogic` reads, and publishes a
copy in shared memory, which the user interface reads. Beside the state stand the lists published
so far. `_curPos` is always that of the most recent list with a break in it, but `setup` gives the
two copies different values: `same_ball_iff` says that they agree exactly after a publication.
-/

namespace FoosballTable.System

open Library

/-- The list that an array in shared memory holds. -/
def publishedList {lasers : Nat} (shareMem : Vector Int (lasers + 1)) : List Int :=
  shareMem.toList.takeWhile (· ≠ -1)

/-- The coordinate of the most recent list that has a break, or the marker of an unknown one. The
lists are given newest first. -/
def lastCoordinate (lists : List (List Int)) : Int :=
  ((lists.filterMap place).head?.map laserCoordinate).getD (-1)

/-- The tracker with its history and the lists published on both axes, newest first. -/
structure Published (defs : FLUDefs) where
  log : Tracker.Log defs
  xLists : List (List Int)
  yLists : List (List Int)

namespace Published

variable {defs : FLUDefs} {run : Published defs}

/-- The state after `setup` and `run`, with the memory as it was before. -/
def start (x : Tracker.Axis defs.numberXRx) (y : Tracker.Axis defs.numberYRx) : Published defs :=
  ⟨Tracker.Log.start x y, [], []⟩

/-- The event is a publication. -/
def Publishes (run : Published defs) : Tracker.Event defs → Prop
  | .period _ _ => run.log.state.Publishing
  | .startPlay | .pause | .setBallTrackingMode _ => False

instance (run : Published defs) : DecidablePred run.Publishes
  | .period _ _ => inferInstanceAs (Decidable (Tracker.State.Publishing _))
  | .startPlay | .pause | .setBallTrackingMode _ => .isFalse id

/-- The run after an event. -/
def step (run : Published defs) (event : Tracker.Event defs) : Published defs :=
  let log := run.log.step event
  if run.Publishes event then
    { log := log
      xLists := publishedList log.state.x.shareMem :: run.xLists
      yLists := publishedList log.state.y.shareMem :: run.yLists }
  else { run with log := log }

/-- A publication adds the lists that it publishes. -/
theorem step_published {event : Tracker.Event defs} (hpublishes : run.Publishes event) :
    run.step event =
      { log := run.log.step event
        xLists := publishedList (run.log.step event).state.x.shareMem :: run.xLists
        yLists := publishedList (run.log.step event).state.y.shareMem :: run.yLists } :=
  if_pos hpublishes

/-- Any other event adds no list. -/
theorem step_unpublished {event : Tracker.Event defs} (hnot : ¬ run.Publishes event) :
    run.step event = { run with log := run.log.step event } :=
  if_neg hnot

/-- The tracker takes its own step. -/
theorem step_log (run : Published defs) (event : Tracker.Event defs) :
    (run.step event).log = run.log.step event := by
  by_cases hpublishes : run.Publishes event
  · rw [step_published hpublishes]
  · rw [step_unpublished hpublishes]

/-- What is claimed of a state. The shared position is that which `FoosLogic` gets, and each
coordinate of it is that of the most recent list with a break. -/
structure SameBall (run : Published defs) : Prop where
  sharedX : run.log.state.curPosShareMem.x = (Tracker.getBallPosition run.log.state).x
  sharedY : run.log.state.curPosShareMem.y = (Tracker.getBallPosition run.log.state).y
  x : (Tracker.getBallPosition run.log.state).x = lastCoordinate run.xLists
  y : (Tracker.getBallPosition run.log.state).y = lastCoordinate run.yLists

/-- The counts of the log are sound, and its position is that of the most recent lists. -/
structure Placed (run : Published defs) : Prop where
  sound : run.log.Sound
  x : run.log.state.curPos.x = lastCoordinate run.xLists
  y : run.log.state.curPos.y = lastCoordinate run.yLists

/-- An array that holds a list of lasers and the terminator holds no other list. -/
theorem published_list_of_terminated {lasers : Nat} {shareMem : Vector Int (lasers + 1)}
    {ids : List (Fin lasers)} (h : Terminated (-1) shareMem (Tracker.laserIds ids)) :
    publishedList shareMem = Tracker.laserIds ids := by
  obtain ⟨rest, hrest⟩ := h
  have hall : ∀ laser ∈ Tracker.laserIds ids, decide (laser ≠ -1) = true := by
    intro laser hmem
    have hnonneg := laser_ids_nonneg ids laser hmem
    exact decide_eq_true (by omega)
  rw [publishedList, ← hrest, List.append_assoc, List.takeWhile_append_of_pos hall]
  simp

/-- One more list changes the coordinate to its own, if it has a break. -/
theorem last_coordinate_cons (ids : List Int) (lists : List (List Int)) :
    lastCoordinate (ids :: lists) =
      ((place ids).map laserCoordinate).getD (lastCoordinate lists) := by
  unfold lastCoordinate
  cases hplace : place ids with
  | none => rw [List.filterMap_cons_none hplace]; rfl
  | some seen => rw [List.filterMap_cons_some hplace]; rfl

/-- A publication changes a coordinate to that of the list it publishes, if that has a break. -/
theorem coordinate_of_published {lasers : Nat} {shareMem : Vector Int (lasers + 1)}
    {ids : List (Fin lasers)} (h : Terminated (-1) shareMem (Tracker.laserIds ids))
    (lists : List (List Int)) :
    Tracker.coordinate shareMem (lastCoordinate lists) =
      lastCoordinate (publishedList shareMem :: lists) := by
  rw [last_coordinate_cons, published_list_of_terminated h]
  exact coordinate_of_terminated h (laser_ids_nonneg ids) _

/-- An event that is no publication keeps both copies. -/
theorem position_kept {event : Tracker.Event defs} (hnot : ¬ run.Publishes event) :
    (run.log.step event).state.curPos = run.log.state.curPos ∧
      (run.log.step event).state.curPosShareMem = run.log.state.curPosShareMem := by
  cases event with
  | startPlay | pause => exact ⟨rfl, rfl⟩
  | setBallTrackingMode mode => cases mode <;> exact ⟨rfl, rfl⟩
  | period xSample ySample =>
      cases hpc : run.log.state.pc with
      | outerWait =>
          rw [Tracker.Log.step_outer hpc]
          exact ⟨rfl, rfl⟩
      | innerWait =>
          have hcount : run.log.state.filterCount < defs.filterCount := by
            by_contra hfull
            exact hnot ⟨hpc, hfull⟩
          rw [Tracker.Log.step_count hpc hcount]
          exact ⟨rfl, rfl⟩

/-- A publication copies the position. -/
theorem position_copied {event : Tracker.Event defs} (hpublishes : run.Publishes event) :
    (run.log.step event).state.curPosShareMem = (run.log.step event).state.curPos := by
  cases event with
  | startPlay | pause | setBallTrackingMode => exact hpublishes.elim
  | period xSample ySample =>
      obtain ⟨curPos, hstep⟩ := Tracker.Log.step_publish hpublishes xSample ySample
      rw [hstep]
      rfl

theorem placed_start (x : Tracker.Axis defs.numberXRx) (y : Tracker.Axis defs.numberYRx) :
    (start x y).Placed :=
  ⟨Tracker.Log.sound_start x y, rfl, rfl⟩

/-- Every event keeps the position that of the most recent lists. -/
theorem Placed.step (h : run.Placed) (event : Tracker.Event defs) : (run.step event).Placed := by
  by_cases hpublishes : run.Publishes event
  · rw [step_published hpublishes]
    have hsound := h.sound.step event
    obtain ⟨xIds, -, hxList⟩ := hsound.x.shareMem
    obtain ⟨yIds, -, hyList⟩ := hsound.y.shareMem
    cases event with
    | startPlay | pause | setBallTrackingMode => exact hpublishes.elim
    | period xSample ySample =>
        obtain ⟨hx, hy⟩ := publication_cur_pos hpublishes xSample ySample
        refine ⟨hsound, ?_, ?_⟩
        · rw [h.x] at hx
          exact hx.trans (coordinate_of_published hxList run.xLists)
        · rw [h.y] at hy
          exact hy.trans (coordinate_of_published hyList run.yLists)
  · rw [step_unpublished hpublishes]
    obtain ⟨hkept, -⟩ := position_kept hpublishes
    exact ⟨h.sound.step event, hkept ▸ h.x, hkept ▸ h.y⟩

/-- Where the position is that of the most recent lists, the claim is that the copy has its
coordinates. -/
theorem Placed.same_iff_copied (h : run.Placed) :
    run.SameBall ↔
      run.log.state.curPosShareMem.x = run.log.state.curPos.x ∧
        run.log.state.curPosShareMem.y = run.log.state.curPos.y :=
  ⟨fun hsame => ⟨hsame.sharedX, hsame.sharedY⟩, fun hshared => ⟨hshared.1, hshared.2, h.x, h.y⟩⟩

/-- An event leads to the same ball in both copies exactly when they have it already, or it is a
publication. -/
theorem Placed.same_ball_step_iff (h : run.Placed) (event : Tracker.Event defs) :
    (run.step event).SameBall ↔ run.SameBall ∨ run.Publishes event := by
  rw [(h.step event).same_iff_copied, h.same_iff_copied, step_log]
  by_cases hpublishes : run.Publishes event
  · rw [position_copied hpublishes]
    exact iff_of_true ⟨rfl, rfl⟩ (.inr hpublishes)
  · obtain ⟨hkept, hshared⟩ := position_kept hpublishes
    rw [hkept, hshared, or_iff_left hpublishes]

/-- In every state that the tracker reaches, the game logic and the display see the same ball
exactly when a publication has gone before. -/
theorem same_ball_iff (x : Tracker.Axis defs.numberXRx) (y : Tracker.Axis defs.numberYRx)
    (events : List (Tracker.Event defs)) :
    (events.foldl step (start x y)).SameBall ↔ Somewhere step Publishes (start x y) events := by
  have hinv : ∀ (run : Published defs) (event : Tracker.Event defs), run.Placed →
      (run.step event).Placed := fun _ event h => h.step event
  have hlatch : ∀ (run : Published defs) (event : Tracker.Event defs), run.Placed →
      ((run.step event).SameBall ↔ run.SameBall ∨ run.Publishes event) :=
    fun _ event h => h.same_ball_step_iff event
  rw [last_iff_somewhere hinv hlatch (placed_start x y)]
  refine or_iff_right ?_
  -- `setup` sets one copy to -1 and the other one to 0
  intro hsame
  have hcopies : (0 : Int) = -1 := hsame.sharedX
  omega

/-- Before the first publication the display shows the ball in a corner, and to `FoosLogic` it is
unknown. -/
theorem unpublished_position_differs :
    let run := ([.startPlay] : List (Tracker.Event FLUDefs.small)).foldl step
      (start (Tracker.Axis.zero 3) (Tracker.Axis.zero 2))
    (run.log.state.curPosShareMem = ⟨0, 0, 0⟩ ∧
        Tracker.getBallPosition run.log.state = ⟨-1, -1, 0⟩) ∧
      ¬ run.SameBall := by
  intro run
  refine ⟨⟨rfl, rfl⟩, ?_⟩
  intro hsame
  exact absurd hsame.sharedX (by decide)

end Published

end FoosballTable.System
