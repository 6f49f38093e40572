import FoosballTable.Library.Simulation
import FoosballTable.Tracker.Publication

/-!
# Pauses of the tracker

A pause may come at any time, also while a window of samples is being counted. It makes the
tracker leave out samples and does nothing else: `pauses_only_skip` says that a tracker that is
paused and started in any way publishes what a tracker that is never paused publishes for the
samples and the mode commands that were taken in.
-/

namespace FoosballTable.Tracker

open Library

variable {defs : FLUDefs}

/-- The state after an event. -/
def State.after (state : State defs) : Event defs → State defs
  | .startPlay => (startPlay state).2
  | .pause => (pause state).2
  | .setBallTrackingMode mode => (setBallTrackingMode mode state).2
  | .period xSample ySample => wake xSample ySample state

/-- The shared memory as a publication leaves it. -/
structure Frame (defs : FLUDefs) where
  x : Vector Int (defs.numberXRx + 1)
  y : Vector Int (defs.numberYRx + 1)
  curPos : Point
  deriving DecidableEq

/-- The frame that an event publishes, if it does. -/
def State.frames (state : State defs) : Event defs → List (Frame defs)
  | .period xSample ySample =>
      if state.Publishing then
        let next := wake xSample ySample state
        [⟨next.x.shareMem, next.y.shareMem, next.curPosShareMem⟩]
      else []
  | .startPlay | .pause | .setBallTrackingMode _ => []

/-- The event if the tracker takes it in: a mode command, or the samples of a cycle. -/
def State.taken (state : State defs) : Event defs → List (Event defs)
  | .period xSample ySample =>
      if state.pc = .innerWait then [.period xSample ySample] else []
  | .setBallTrackingMode mode => [.setBallTrackingMode mode]
  | .startPlay | .pause => []

/-- The state of a tracker that is never paused. -/
def State.unpaused (state : State defs) : State defs :=
  { state with start := true, pc := .innerWait }

/-- The tests of the loops concern the pauses only. -/
theorem unpaused_loop_test (state : State defs) : (loopTest state).unpaused = state.unpaused := rfl

/-- A cycle does not concern the pauses. -/
theorem unpaused_cycle (xSample : Sample defs.numberXRx) (ySample : Sample defs.numberYRx)
    (state : State defs) :
    (cycle xSample ySample state).unpaused = cycle xSample ySample state.unpaused := by
  unfold cycle
  dsimp only
  show _ = if state.filterCount < defs.filterCount then _ else _
  split <;> rfl

/-- A tracker that is never paused stays in its inner loop. -/
theorem wake_unpaused (xSample : Sample defs.numberXRx) (ySample : Sample defs.numberYRx)
    (state : State defs) :
    wake xSample ySample state.unpaused = (cycle xSample ySample state).unpaused := by
  show loopTest (cycle xSample ySample state.unpaused) = _
  rw [← unpaused_cycle]
  rfl

/-- In the inner loop a period is a cycle. -/
theorem wake_inner {state : State defs} (hpc : state.pc = .innerWait)
    (xSample : Sample defs.numberXRx) (ySample : Sample defs.numberYRx) :
    wake xSample ySample state = loopTest (cycle xSample ySample state) := by
  simp only [wake, hpc]

/-- Up to the pauses, an event does what the tracker takes in of it does. -/
theorem unpaused_after (state : State defs) (event : Event defs) :
    (state.after event).unpaused = (state.taken event).foldl State.after state.unpaused := by
  cases event with
  | startPlay | pause => rfl
  | setBallTrackingMode mode => cases mode <;> rfl
  | period xSample ySample =>
      show (wake xSample ySample state).unpaused = _
      cases hpc : state.pc with
      | outerWait =>
          rw [State.taken, hpc, wake_outer hpc]
          rfl
      | innerWait =>
          rw [State.taken, if_pos hpc, wake_inner hpc, unpaused_loop_test]
          exact (wake_unpaused xSample ySample state).symm

/-- The tracker without pauses simulates the tracker with pauses. -/
theorem unpaused_simulates :
    Simulates State.after State.after State.unpaused State.taken (fun _ : State defs => True)
      (fun _ _ => True) :=
  ⟨fun _ _ _ _ => trivial, fun state event _ _ => unpaused_after state event⟩

/-- An event publishes the frame that what the tracker takes in of it publishes. -/
theorem frames_unpaused (state : State defs) (event : Event defs) :
    state.frames event = outputs State.after State.frames state.unpaused (state.taken event) := by
  cases event with
  | startPlay | pause | setBallTrackingMode => rfl
  | period xSample ySample =>
      cases hpc : state.pc with
      | outerWait =>
          have hnot : ¬ state.Publishing := fun h => by
            have hinner := h.1
            rw [hpc] at hinner
            cases hinner
          rw [State.taken, hpc, State.frames, if_neg hnot]
          rfl
      | innerWait =>
          have hiff : state.unpaused.Publishing ↔ state.Publishing :=
            ⟨fun h => ⟨hpc, h.2⟩, fun h => ⟨rfl, h.2⟩⟩
          have hnext := wake_unpaused xSample ySample state
          rw [State.taken, if_pos hpc, outputs_cons, outputs_nil, List.append_nil, State.frames,
            State.frames, hnext, wake_inner hpc]
          simp only [hiff]
          rfl

/-- What is taken in of a run is a part of it. -/
theorem taken_sublist (state : State defs) (events : List (Event defs)) :
    (outputs State.after State.taken state events).Sublist events := by
  induction events generalizing state with
  | nil => exact List.Sublist.refl []
  | cons event events ih =>
      have hone : (state.taken event).Sublist [event] := by
        cases event with
        | startPlay | pause => exact List.nil_sublist _
        | setBallTrackingMode mode => exact List.Sublist.refl _
        | period xSample ySample =>
            show (if state.pc = .innerWait then [Event.period xSample ySample] else []).Sublist _
            split
            · exact List.Sublist.refl _
            · exact List.nil_sublist _
      exact hone.append (ih (state.after event))

/-- A tracker publishes, whenever it is paused and started, the frames that it publishes without
any pause for what it takes in, and it is left in the same state up to the pauses. -/
theorem pauses_only_skip (x : Axis defs.numberXRx) (y : Axis defs.numberYRx)
    (events : List (Event defs)) (xSample : Sample defs.numberXRx)
    (ySample : Sample defs.numberYRx) :
    let taken := outputs State.after State.taken (State.setup x y) events
    -- `startPlay` and one period bring the tracker into its inner loop
    let steady := .startPlay :: .period xSample ySample :: taken
    taken.Sublist events ∧
      outputs State.after State.frames (State.setup x y) events =
        outputs State.after State.frames (State.setup x y) steady ∧
      (events.foldl State.after (State.setup x y)).unpaused =
        steady.foldl State.after (State.setup x y) := by
  intro taken steady
  have hguard : Along State.after (fun _ _ => True) (State.setup x y) events :=
    along_of_forall (fun _ _ => trivial) _
  have hframes := unpaused_simulates.outputs_run
    (fun state event _ _ => frames_unpaused state event) trivial hguard
  exact ⟨taken_sublist _ events, hframes, unpaused_simulates.abs_run trivial hguard⟩

end FoosballTable.Tracker
