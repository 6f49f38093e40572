import FoosballTable.Library.Runs
import FoosballTable.Tracker.Filter

/-!
# What the tracker publishes

The tracker is run on any sequence of samples, with pauses and mode commands between the cycles.
Beside its state the log keeps, for each axis, the window of the samples counted since the last
publication and the windows published since the last mode command. Every list published is the
one specified from these windows: the lasers broken in more than half of the samples and, in
`BTMODE_LONGCOUNT`, for at most 500 publications in a row.
-/

namespace FoosballTable.Tracker

open Library

/-! ## The specification -/

section Specification

variable (defs : FLUDefs) {lasers : Nat}

/-- The laser is broken in more than half of the samples of a window. -/
def Majority (window : List (Sample lasers)) (t : Fin lasers) : Prop :=
  2 * window.countP (fun sample => t ∈ sample.ids) > defs.filterCount

instance (window : List (Sample lasers)) : DecidablePred (Majority defs window) :=
  fun _ => inferInstanceAs (Decidable (_ > _))

/-- The number of publications in a row, up to the newest one, with the laser in the majority. -/
def breakRun (windows : List (List (Sample lasers))) (t : Fin lasers) : Nat :=
  runLength (fun window => Majority defs window t) windows

/-- The list to publish after a window: of the earlier windows count those published since the
last mode command. -/
def specified (btMode : BallTrackingMode) (window : List (Sample lasers))
    (earlier : List (List (Sample lasers))) : List Int :=
  match btMode with
  | .normal => ascending (Majority defs window)
  | .longCount =>
      ascending fun t => Majority defs window t ∧ breakRun defs (window :: earlier) t ≤ 500

end Specification

/-! ## Runs -/

/-- The history of an axis, newest first: the samples counted since the last publication, and the
windows published since the last mode command or `setup`. -/
structure History (lasers : Nat) where
  window : List (Sample lasers)
  published : List (List (Sample lasers))

/-- The state of the tracker with the history of both axes. -/
structure Log (defs : FLUDefs) where
  state : State defs
  x : History defs.numberXRx
  y : History defs.numberYRx

/-- A call of a public method, or a period of the thread with the samples of both axes. -/
inductive Event (defs : FLUDefs) where
  | startPlay
  | pause
  | setBallTrackingMode (mode : BallTrackingMode)
  | period (xSample : Sample defs.numberXRx) (ySample : Sample defs.numberYRx)

/-- The history after a period: the sample is counted, or the window is published. -/
def History.period {defs : FLUDefs} {lasers : Nat} (state : State defs) (sample : Sample lasers)
    (history : History lasers) : History lasers :=
  if state.Publishing then ⟨[], history.window :: history.published⟩
  else if state.pc = .innerWait then { history with window := sample :: history.window }
  else history

namespace Log

variable {defs : FLUDefs}

/-- The log after `setup` and `run`, with the memory as it was before. -/
def start (x : Axis defs.numberXRx) (y : Axis defs.numberYRx) : Log defs :=
  ⟨State.setup x y, ⟨[], []⟩, ⟨[], []⟩⟩

/-- The log after an event. -/
def step (log : Log defs) : Event defs → Log defs
  | .startPlay => { log with state := (startPlay log.state).2 }
  | .pause => { log with state := (pause log.state).2 }
  | .setBallTrackingMode mode =>
      { state := (setBallTrackingMode mode log.state).2
        x := { log.x with published := [] }
        y := { log.y with published := [] } }
  | .period xSample ySample =>
      { state := wake xSample ySample log.state
        x := log.x.period log.state xSample
        y := log.y.period log.state ySample }

/-- If the event is a publication, `FILTER_COUNT` samples were counted since the previous one,
and the lists in shared memory are then the specified ones, each followed by `-1`. -/
def Faithful (log : Log defs) (event : Event defs) : Prop :=
  match event with
  | .period _ _ =>
      log.state.Publishing →
        log.x.window.length = defs.filterCount ∧ log.y.window.length = defs.filterCount ∧
          Terminated (-1) (log.step event).state.x.shareMem
            (specified defs log.state.btMode log.x.window log.x.published) ∧
          Terminated (-1) (log.step event).state.y.shareMem
            (specified defs log.state.btMode log.y.window log.y.published)
  | _ => True

end Log

/-- The long counts of an axis stay between the flag and the limit, and the shared memory holds
a list of lasers of the axis in ascending order, followed by `-1`. -/
structure Axis.InRange {lasers : Nat} (axis : Axis lasers) : Prop where
  longCount : ∀ t : Fin lasers, -1 ≤ axis.longCount.get t ∧ axis.longCount.get t ≤ 500
  shareMem : ∃ ids : List (Fin lasers), ids.Pairwise (· < ·) ∧
    Terminated (-1) axis.shareMem (laserIds ids)

/-! ## One axis -/

/-- The counts of an axis agree with its history, and the shared memory is in order. -/
structure AxisSound (defs : FLUDefs) (btMode : BallTrackingMode) {lasers : Nat}
    (axis : Axis lasers) (history : History lasers) : Prop where
  counts : ∀ t : Fin lasers,
    axis.breakCount.get t = (history.window.countP fun sample => t ∈ sample.ids : Nat)
  normal : btMode = .normal → ∀ t : Fin lasers, axis.longCount.get t = 0
  longCount : btMode = .longCount → ∀ t : Fin lasers,
    axis.longCount.get t = flagged 500 (breakRun defs history.published t)
  shareMem : ∃ ids : List (Fin lasers), ids.Pairwise (· < ·) ∧
    Terminated (-1) axis.shareMem (laserIds ids)

section OneAxis

variable {defs : FLUDefs} {btMode : BallTrackingMode} {lasers : Nat} {axis : Axis lasers}
  {history : History lasers}

/-- Sound counts are in range. -/
theorem AxisSound.in_range (h : AxisSound defs btMode axis history) : axis.InRange := by
  refine ⟨?_, h.shareMem⟩
  intro t
  cases btMode with
  | normal =>
      rw [h.normal rfl t]
      omega
  | longCount =>
      rw [h.longCount rfl t]
      exact flagged_bounds 500 _

/-- An axis is sound after `setup`, whatever the memory held. -/
theorem axis_sound_setup (axis : Axis lasers) :
    AxisSound defs .longCount axis.setup ⟨[], []⟩ := by
  refine ⟨fun t => zero_int_array_get axis.breakCount t, fun h => (by cases h),
    fun _ t => zero_int_array_get axis.longCount t, [], List.Pairwise.nil, ?_⟩
  show [-1] <+: (axis.shareMem.set 0 (-1)).toList
  have hstore := (Cursor.written_begin axis.shareMem).store (Nat.succ_pos lasers) (-1)
  simpa [Terminated, Cursor.store, Cursor.begin, Vector.toList_setIfInBounds, Vector.toList_set]
    using hstore

/-- A mode command clears the long counts and begins a new history of publications. -/
theorem AxisSound.clear_long_count (h : AxisSound defs btMode axis history)
    (mode : BallTrackingMode) :
    AxisSound defs mode axis.clearLongCount { history with published := [] } :=
  ⟨h.counts, fun _ t => zero_int_array_get axis.longCount t,
    fun _ t => zero_int_array_get axis.longCount t, h.shareMem⟩

/-- Reading a sample does not concern the counts or the shared memory. -/
theorem AxisSound.read (h : AxisSound defs btMode axis history) (sample : Sample lasers) :
    AxisSound defs btMode (axis.read sample) history :=
  ⟨h.counts, h.normal, h.longCount, h.shareMem⟩

/-- A sample that is counted enters the window. -/
theorem counts_cons {window : List (Sample lasers)}
    (h : ∀ t : Fin lasers,
      axis.breakCount.get t = (window.countP fun sample => t ∈ sample.ids : Nat))
    (sample : Sample lasers) (t : Fin lasers) :
    (axis.read sample).count.breakCount.get t =
      ((sample :: window).countP fun sample => t ∈ sample.ids : Nat) := by
  rw [count_read_get, h t, List.countP_cons]
  by_cases hmem : t ∈ sample.ids <;> simp [hmem]

/-- The lasers that pass the jitter filter are the majority of the window. -/
theorem passes_iff_majority {window : List (Sample lasers)}
    (h : ∀ t : Fin lasers,
      axis.breakCount.get t = (window.countP fun sample => t ∈ sample.ids : Nat))
    (t : Fin lasers) : axis.Passes defs t ↔ Majority defs window t := by
  unfold Axis.Passes Majority
  rw [h t]
  exact gt_test_count defs.filterCount _

/-- Counting a sample keeps an axis sound. -/
theorem AxisSound.count (h : AxisSound defs btMode axis history) (sample : Sample lasers) :
    AxisSound defs btMode (axis.read sample).count
      { history with window := sample :: history.window } :=
  ⟨counts_cons h.counts sample, h.normal, h.longCount, h.shareMem⟩

/-- The lasers that pass the jitter filter of a sound axis are the majority of its window. -/
theorem AxisSound.passes_iff (h : AxisSound defs btMode axis history) (t : Fin lasers) :
    axis.Passes defs t ↔ Majority defs history.window t :=
  passes_iff_majority h.counts t

/-- The list calculated for an axis is the specified one. -/
theorem AxisSound.calc_specified (h : AxisSound defs btMode axis history) :
    Terminated (-1) (calcBallPosition defs btMode axis).calcBreaks
      (specified defs btMode history.window history.published) := by
  cases btMode with
  | normal =>
      have hcalc := calc_normal_terminated defs axis
      rwa [ascending_congr h.passes_iff] at hcalc
  | longCount =>
      have hcalc := calc_long_count_terminated defs axis
      -- the counter stands for the run before this publication
      have hpicked : ∀ t, (axis.Passes defs t ∧ FlagOpen 500 (axis.longCount.get t)) ↔
          (Majority defs history.window t ∧
            breakRun defs (history.window :: history.published) t ≤ 500) := by
        intro t
        rw [h.passes_iff, h.longCount rfl t]
        refine and_congr_right ?_
        intro hmajority
        rw [show (500 : Int) = (500 : Nat) from rfl, flag_open_flagged]
        simp only [breakRun, runLength, if_pos hmajority]
      rwa [ascending_congr hpicked] at hcalc

/-- The specified lists are ascending lists of lasers. -/
theorem specified_ascending (defs : FLUDefs) (btMode : BallTrackingMode)
    (window : List (Sample lasers)) (earlier : List (List (Sample lasers))) :
    ∃ ids : List (Fin lasers), ids.Pairwise (· < ·) ∧
      specified defs btMode window earlier = laserIds ids := by
  cases btMode with
  | normal | longCount => exact ⟨_, (List.pairwise_lt_finRange lasers).filter _, rfl⟩

/-- Publishing keeps an axis sound: its window is one more entry of the history. -/
theorem AxisSound.publish (h : AxisSound defs btMode axis history) :
    AxisSound defs btMode (calcBallPosition defs btMode axis).publish.clearBreakCount
      ⟨[], history.window :: history.published⟩ := by
  refine ⟨fun t => zero_int_array_get _ t, ?_, ?_, ?_⟩
  · rintro rfl t
    exact h.normal rfl t
  · rintro rfl t
    have hrun := flagged_next_run_length 500 (fun window => Majority defs window t)
      history.window history.published
    show (calcBallPosition defs .longCount axis).longCount.get t = _
    simp only [calc_long_count_get, h.longCount rfl t, h.passes_iff]
    exact hrun
  · obtain ⟨ids, hids, hspecified⟩ :=
      specified_ascending defs btMode history.window history.published
    exact ⟨ids, hids, hspecified ▸ h.calc_specified⟩

end OneAxis

/-! ## The tracker -/

namespace Log

variable {defs : FLUDefs} {log : Log defs}

/-- The counts of both axes agree with their histories, and the filter has counted the window. -/
structure Sound (log : Log defs) : Prop where
  x : AxisSound defs log.state.btMode log.state.x log.x
  y : AxisSound defs log.state.btMode log.state.y log.y
  xWindow : log.x.window.length = log.state.filterCount
  yWindow : log.y.window.length = log.state.filterCount
  full : log.state.filterCount ≤ defs.filterCount

theorem sound_start (x : Axis defs.numberXRx) (y : Axis defs.numberYRx) : Sound (start x y) :=
  ⟨axis_sound_setup x, axis_sound_setup y, rfl, rfl, Nat.zero_le _⟩

/-- A period in the outer loop touches no counts and no history. -/
theorem step_outer (hpc : log.state.pc = .outerWait) (xSample : Sample defs.numberXRx)
    (ySample : Sample defs.numberYRx) :
    log.step (.period xSample ySample) = { log with state := loopTest log.state } := by
  have hnot : ¬ log.state.Publishing := by
    intro hpublishing
    obtain ⟨hinner, -⟩ := hpublishing
    rw [hpc] at hinner
    cases hinner
  simp [step, wake_outer hpc, History.period, hpc, hnot]

/-- A period in the inner loop while the filter is not full counts both samples. -/
theorem step_count (hpc : log.state.pc = .innerWait)
    (hcount : log.state.filterCount < defs.filterCount) (xSample : Sample defs.numberXRx)
    (ySample : Sample defs.numberYRx) :
    log.step (.period xSample ySample) =
      { state := loopTest
          { log.state with
            x := (log.state.x.read xSample).count
            y := (log.state.y.read ySample).count
            filterCount := log.state.filterCount + 1 }
        x := { log.x with window := xSample :: log.x.window }
        y := { log.y with window := ySample :: log.y.window } } := by
  have hnot : ¬ log.state.Publishing := fun h => h.2 hcount
  simp [step, wake_count hpc hcount, History.period, hpc, hnot]

/-- A publication: both axes are filtered and copied, and the window begins anew. -/
theorem step_publish (hpublish : log.state.Publishing) (xSample : Sample defs.numberXRx)
    (ySample : Sample defs.numberYRx) :
    ∃ curPos, log.step (.period xSample ySample) =
      { state := loopTest
          { log.state with
            curPos := curPos
            curPosShareMem := curPos
            x := (calcBallPosition defs log.state.btMode
              (log.state.x.read xSample)).publish.clearBreakCount
            y := (calcBallPosition defs log.state.btMode
              (log.state.y.read ySample)).publish.clearBreakCount
            filterCount := 0 }
        x := ⟨[], log.x.window :: log.x.published⟩
        y := ⟨[], log.y.window :: log.y.published⟩ } := by
  obtain ⟨curPos, hwake⟩ := wake_publish hpublish xSample ySample
  exact ⟨curPos, by simp [step, hwake, History.period, hpublish]⟩

/-- Every step keeps the log sound. -/
theorem Sound.step (h : Sound log) (event : Event defs) : Sound (log.step event) := by
  cases event with
  | startPlay | pause => exact ⟨h.x, h.y, h.xWindow, h.yWindow, h.full⟩
  | setBallTrackingMode mode =>
      have hx := h.x.clear_long_count mode
      have hy := h.y.clear_long_count mode
      cases mode with
      | normal | longCount => exact ⟨hx, hy, h.xWindow, h.yWindow, h.full⟩
  | period xSample ySample =>
      cases hpc : log.state.pc with
      | outerWait =>
          rw [step_outer hpc]
          exact ⟨h.x, h.y, h.xWindow, h.yWindow, h.full⟩
      | innerWait =>
          by_cases hcount : log.state.filterCount < defs.filterCount
          · rw [step_count hpc hcount]
            exact ⟨h.x.count xSample, h.y.count ySample, congrArg (· + 1) h.xWindow,
              congrArg (· + 1) h.yWindow, hcount⟩
          · obtain ⟨curPos, hstep⟩ := step_publish ⟨hpc, hcount⟩ xSample ySample
            rw [hstep]
            exact ⟨(h.x.read xSample).publish, (h.y.read ySample).publish, rfl, rfl,
              Nat.zero_le _⟩

/-- A publication of a sound log is the specified one. -/
theorem Sound.faithful (h : Sound log) (event : Event defs) : log.Faithful event := by
  cases event with
  | startPlay | pause | setBallTrackingMode => trivial
  | period xSample ySample =>
      intro hpublish
      have hfull : log.state.filterCount = defs.filterCount :=
        Nat.le_antisymm h.full (Nat.le_of_not_lt hpublish.2)
      obtain ⟨curPos, hstep⟩ := step_publish hpublish xSample ySample
      rw [hstep]
      exact ⟨h.xWindow.trans hfull, h.yWindow.trans hfull, (h.x.read xSample).calc_specified,
        (h.y.read ySample).calc_specified⟩

/-- In every run every publication is the specified one, and in every state that a run passes
through the long counts and the shared memory of both axes are in range. -/
theorem publications_follow_specification (x : Axis defs.numberXRx) (y : Axis defs.numberYRx)
    (events : List (Event defs)) :
    Along Log.step Faithful (start x y) events ∧
      Throughout Log.step (fun log => log.state.x.InRange ∧ log.state.y.InRange)
        (start x y) events := by
  refine ⟨?_, ?_⟩
  · refine along_of_invariant ?_ ?_ (sound_start x y) events
    · exact fun log event h => h.step event
    · exact fun log event h => h.faithful event
  · refine (throughout_of_invariant ?_ (sound_start x y) events).mono ?_
    · exact fun log event h => h.step event
    · exact fun log h => ⟨h.x.in_range, h.y.in_range⟩

end Log

end FoosballTable.Tracker
