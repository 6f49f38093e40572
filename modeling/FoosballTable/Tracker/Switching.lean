import FoosballTable.Tracker.Publication
import Mathlib.Logic.Function.Basic

/-!
# Switching the tracking mode under preemption

`setBallTrackingMode` is run one assignment at a time, and the tracker may run any number of
periods between two of them. Beside the state stand, for each laser, the windows that were
published in `BTMODE_LONGCOUNT` since its long count was zeroed. The two branches write the mode
and the arrays in opposite orders: `mode_switch_safe` says that so no order of the steps leaves a
stale count behind.
-/

namespace FoosballTable.Tracker

open Library

/-- An assignment of `setBallTrackingMode`: that of `_btMode`, or of one element of an array. -/
inductive ModeAssignment (defs : FLUDefs) where
  | btMode (mode : BallTrackingMode)
  | longCountX (t : Fin defs.numberXRx)
  | longCountY (t : Fin defs.numberYRx)
  deriving DecidableEq, Repr

/-- One element of the long counts is zeroed. -/
def Axis.zeroLongCount {lasers : Nat} (t : Fin lasers) (axis : Axis lasers) : Axis lasers :=
  { axis with longCount := axis.longCount.set t 0 t.isLt }

/-- No long count is left. -/
def Axis.Cleared {lasers : Nat} (axis : Axis lasers) : Prop :=
  ∀ t : Fin lasers, axis.longCount.get t = 0

/-- The samples counted since the last publication, and for each laser the windows published in
`BTMODE_LONGCOUNT` since its long count was zeroed, newest first. -/
structure EntryHistory (lasers : Nat) where
  window : List (Sample lasers)
  counted : Fin lasers → List (List (Sample lasers))

/-- The history after a period: the sample is counted, or the window is published. -/
def EntryHistory.period {defs : FLUDefs} {lasers : Nat} (state : State defs)
    (sample : Sample lasers) (history : EntryHistory lasers) : EntryHistory lasers :=
  if state.Publishing then
    { window := []
      counted := fun t =>
        if state.btMode = .longCount then history.window :: history.counted t
        else history.counted t }
  else if state.pc = .innerWait then { history with window := sample :: history.window }
  else history

/-- The history after a long count is zeroed. -/
def EntryHistory.zero {lasers : Nat} (t : Fin lasers) (history : EntryHistory lasers) :
    EntryHistory lasers :=
  { history with counted := Function.update history.counted t [] }

variable {defs : FLUDefs}

/-- The state after an assignment. -/
def ModeAssignment.apply (state : State defs) : ModeAssignment defs → State defs
  | .btMode mode => { state with btMode := mode }
  | .longCountX t => { state with x := state.x.zeroLongCount t }
  | .longCountY t => { state with y := state.y.zeroLongCount t }

/-- The two calls of `_zeroIntArray`. -/
def zeroings (defs : FLUDefs) : List (ModeAssignment defs) :=
  (List.finRange defs.numberXRx).map .longCountX ++ (List.finRange defs.numberYRx).map .longCountY

/-- The assignments of `setBallTrackingMode` in program order. -/
def switchBody (defs : FLUDefs) : BallTrackingMode → List (ModeAssignment defs)
  | .normal => .btMode .normal :: zeroings defs
  | .longCount => zeroings defs ++ [.btMode .longCount]

/-- The state of the tracker, the assignments of the switch in progress that are still to come, and
the histories of both axes. -/
structure Switching (defs : FLUDefs) where
  state : State defs
  remaining : List (ModeAssignment defs)
  x : EntryHistory defs.numberXRx
  y : EntryHistory defs.numberYRx

/-- A call of a public method, the next assignment of the switch in progress, or a period of the
thread. -/
inductive SwitchEvent (defs : FLUDefs) where
  | startPlay
  | pause
  | setBallTrackingMode (mode : BallTrackingMode)
  | assign
  | period (xSample : Sample defs.numberXRx) (ySample : Sample defs.numberYRx)

namespace Switching

/-- The run after `setup` and `run`, with the memory as it was before. -/
def start (x : Axis defs.numberXRx) (y : Axis defs.numberYRx) : Switching defs :=
  ⟨State.setup x y, [], ⟨[], fun _ => []⟩, ⟨[], fun _ => []⟩⟩

/-- The run after an assignment, which is the next one of the switch in progress. -/
def assigned (run : Switching defs) (rest : List (ModeAssignment defs)) :
    ModeAssignment defs → Switching defs
  | .btMode mode =>
      { run with
        state := (ModeAssignment.btMode mode).apply run.state
        remaining := rest }
  | .longCountX t =>
      { run with
        state := (ModeAssignment.longCountX t).apply run.state
        remaining := rest
        x := run.x.zero t }
  | .longCountY t =>
      { run with
        state := (ModeAssignment.longCountY t).apply run.state
        remaining := rest
        y := run.y.zero t }

/-- The run after an event. A switch only begins, and not while one is in progress, as all of them
are made by the handler of the command pipe. -/
def step (run : Switching defs) : SwitchEvent defs → Switching defs
  | .startPlay => { run with state := (startPlay run.state).2 }
  | .pause => { run with state := (pause run.state).2 }
  | .setBallTrackingMode mode =>
      if run.remaining = [] then { run with remaining := switchBody defs mode } else run
  | .assign =>
      match run.remaining with
      | [] => run
      | assignment :: rest => run.assigned rest assignment
  | .period xSample ySample =>
      { run with
        state := wake xSample ySample run.state
        x := run.x.period run.state xSample
        y := run.y.period run.state ySample }

/-- What is claimed of a state. With no switch in progress there is no long count in
`BTMODE_NORMAL`, and every long count is that of the windows which were published in
`BTMODE_LONGCOUNT` since it was zeroed. -/
structure Safe (run : Switching defs) : Prop where
  settled : run.remaining = [] → run.state.btMode = .normal →
    run.state.x.Cleared ∧ run.state.y.Cleared
  x : ∀ t, run.state.x.longCount.get t = flagged 500 (breakRun defs (run.x.counted t) t)
  y : ∀ t, run.state.y.longCount.get t = flagged 500 (breakRun defs (run.y.counted t) t)

/-- What is claimed of an event: no long count is left when `_btMode` changes to
`BTMODE_LONGCOUNT`. -/
def EntersClear (run : Switching defs) (event : SwitchEvent defs) : Prop :=
  run.state.btMode = .normal → (run.step event).state.btMode = .longCount →
    (run.step event).state.x.Cleared ∧ (run.step event).state.y.Cleared

end Switching

/-! ## The assignments of a switch -/

/-- The loop of `_zeroIntArray` over `longCountX`. -/
theorem zero_long_count_x (ids : List (Fin defs.numberXRx)) (state : State defs) :
    (ids.map ModeAssignment.longCountX).foldl ModeAssignment.apply state =
      { state with
        x := { state.x with
          longCount := ids.foldl (fun array (t : Fin _) => array.set t 0 t.isLt)
            state.x.longCount } } := by
  induction ids generalizing state with
  | nil => rfl
  | cons t ids ih =>
      rw [List.map_cons, List.foldl_cons, ih]
      rfl

/-- The loop of `_zeroIntArray` over `longCountY`. -/
theorem zero_long_count_y (ids : List (Fin defs.numberYRx)) (state : State defs) :
    (ids.map ModeAssignment.longCountY).foldl ModeAssignment.apply state =
      { state with
        y := { state.y with
          longCount := ids.foldl (fun array (t : Fin _) => array.set t 0 t.isLt)
            state.y.longCount } } := by
  induction ids generalizing state with
  | nil => rfl
  | cons t ids ih =>
      rw [List.map_cons, List.foldl_cons, ih]
      rfl

/-- The zeroings in a row clear both arrays. -/
theorem zeroings_apply (state : State defs) :
    (zeroings defs).foldl ModeAssignment.apply state =
      { state with x := state.x.clearLongCount, y := state.y.clearLongCount } := by
  rw [zeroings, List.foldl_append, zero_long_count_x, zero_long_count_y]
  rfl

/-- The assignments of a switch in a row are `setBallTrackingMode` as one step. -/
theorem switch_body_apply (mode : BallTrackingMode) (state : State defs) :
    (switchBody defs mode).foldl ModeAssignment.apply state =
      (setBallTrackingMode mode state).2 := by
  cases mode with
  | normal =>
      rw [switchBody, List.foldl_cons, zeroings_apply]
      rfl
  | longCount =>
      rw [switchBody, List.foldl_append, zeroings_apply]
      rfl

/-- A write of the mode is the first assignment of a switch to `BTMODE_NORMAL`, before all others,
or the last one of a switch to `BTMODE_LONGCOUNT`. -/
theorem rest_of_bt_mode {mode switched : BallTrackingMode} {rest : List (ModeAssignment defs)}
    (h : .btMode mode :: rest <:+ switchBody defs switched) :
    mode = .normal ∧ rest = zeroings defs ∨ mode = .longCount ∧ rest = [] := by
  have hzeroings : ∀ mode, ModeAssignment.btMode mode ∉ zeroings defs := by
    intro mode
    simp [zeroings]
  cases switched with
  | normal =>
      rcases List.suffix_cons_iff.mp h with hfirst | hlater
      · obtain ⟨hmode, rfl⟩ := List.cons.inj hfirst
        cases hmode
        exact .inl ⟨rfl, rfl⟩
      · exact absurd (hlater.subset List.mem_cons_self) (hzeroings mode)
  | longCount =>
      rcases List.suffix_concat_iff.mp h with hnil | ⟨front, hfront, hsuffix⟩
      · cases hnil
      · cases front with
        | nil =>
            obtain ⟨hmode, rfl⟩ := List.cons.inj hfront
            cases hmode
            exact .inr ⟨rfl, rfl⟩
        | cons assignment front =>
            obtain ⟨rfl, -⟩ := List.cons.inj hfront
            exact absurd (hsuffix.subset List.mem_cons_self) (hzeroings mode)

/-! ## One axis -/

section OneAxis

variable {lasers : Nat} {axis : Axis lasers} {history : EntryHistory lasers}

/-- The counts of an axis are those of its history. -/
structure EntrySound (defs : FLUDefs) (axis : Axis lasers) (history : EntryHistory lasers) :
    Prop where
  counts : ∀ t : Fin lasers,
    axis.breakCount.get t = (history.window.countP fun sample => t ∈ sample.ids : Nat)
  longCount : ∀ t : Fin lasers,
    axis.longCount.get t = flagged 500 (breakRun defs (history.counted t) t)

/-- An axis is sound after `setup`, whatever the memory held. -/
theorem entry_sound_setup (axis : Axis lasers) :
    EntrySound defs axis.setup ⟨[], fun _ => []⟩ :=
  ⟨fun t => zero_int_array_get axis.breakCount t, fun t => zero_int_array_get axis.longCount t⟩

/-- Counting a sample keeps an axis sound. -/
theorem EntrySound.count (h : EntrySound defs axis history) (sample : Sample lasers) :
    EntrySound defs (axis.read sample).count { history with window := sample :: history.window } :=
  ⟨counts_cons h.counts sample, h.longCount⟩

/-- A publication keeps an axis sound: the window enters the histories in `BTMODE_LONGCOUNT`, and
in `BTMODE_NORMAL` the long counts are left alone. -/
theorem EntrySound.publish (h : EntrySound defs axis history) (btMode : BallTrackingMode)
    (sample : Sample lasers) :
    EntrySound defs (calcBallPosition defs btMode (axis.read sample)).publish.clearBreakCount
      { window := []
        counted := fun t =>
          if btMode = .longCount then history.window :: history.counted t
          else history.counted t } := by
  refine ⟨fun t => zero_int_array_get _ t, ?_⟩
  intro t
  cases btMode with
  | normal => exact h.longCount t
  | longCount =>
      have hrun := flagged_next_run_length 500 (fun window => Majority defs window t)
        history.window (history.counted t)
      have hpasses : (axis.read sample).Passes defs t ↔ Majority defs history.window t :=
        passes_iff_majority h.counts t
      have hvalue : (axis.read sample).longCount.get t =
          flagged 500 (breakRun defs (history.counted t) t) := h.longCount t
      show (calcBallPosition defs .longCount (axis.read sample)).longCount.get t = _
      simp only [calc_long_count_get, hvalue, hpasses]
      exact hrun

/-- Zeroing a long count begins a new history for its laser. -/
theorem EntrySound.zero (h : EntrySound defs axis history) (t : Fin lasers) :
    EntrySound defs (axis.zeroLongCount t) (history.zero t) := by
  refine ⟨h.counts, ?_⟩
  intro other
  by_cases hsame : t = other
  · subst hsame
    show (axis.longCount.set t 0 t.isLt).get t = flagged 500 (breakRun defs
      (Function.update history.counted t [] t) t)
    rw [get_set_self, Function.update_self]
    rfl
  · show (axis.longCount.set t 0 t.isLt).get other = flagged 500 (breakRun defs
      (Function.update history.counted t [] other) other)
    rw [get_set_of_ne _ hsame, Function.update_of_ne (Ne.symm hsame)]
    exact h.longCount other

/-- Zeroing a long count takes it off those whose zeroing is still to come. -/
theorem pending_zero {zeroing : Fin lasers → ModeAssignment defs}
    (hinj : Function.Injective zeroing) {t : Fin lasers} {rest : List (ModeAssignment defs)}
    (h : ∀ other, axis.longCount.get other = 0 ∨ zeroing other ∈ zeroing t :: rest)
    (other : Fin lasers) :
    (axis.zeroLongCount t).longCount.get other = 0 ∨ zeroing other ∈ rest := by
  by_cases hsame : t = other
  · subst hsame
    exact .inl (get_set_self axis.longCount t 0)
  · refine (h other).imp ?_ ?_
    · intro hzero
      exact (get_set_of_ne axis.longCount hsame 0).trans hzero
    · intro hmem
      refine (List.mem_cons.mp hmem).resolve_left ?_
      exact fun heq => hsame (hinj heq).symm

/-- Any other assignment leaves them alone. -/
theorem pending_other {zeroing : Fin lasers → ModeAssignment defs}
    {assignment : ModeAssignment defs} (hother : ∀ t, zeroing t ≠ assignment)
    {rest : List (ModeAssignment defs)}
    (h : ∀ t, axis.longCount.get t = 0 ∨ zeroing t ∈ assignment :: rest) (t : Fin lasers) :
    axis.longCount.get t = 0 ∨ zeroing t ∈ rest :=
  (h t).imp id fun hmem => (List.mem_cons.mp hmem).resolve_left (hother t)

/-- In `BTMODE_NORMAL` a publication leaves the long counts alone. -/
theorem long_count_publish_normal {btMode : BallTrackingMode} (hnormal : btMode = .normal)
    (sample : Sample lasers) :
    (calcBallPosition defs btMode (axis.read sample)).publish.clearBreakCount.longCount =
      axis.longCount := by
  subst hnormal
  rfl

end OneAxis

/-! ## The tracker -/

namespace Switching

variable {run : Switching defs}

/-- The assignments that remain, executed in a row, act as their list. -/
theorem state_assign_all {rest : List (ModeAssignment defs)} (h : run.remaining = rest) :
    ((List.replicate rest.length .assign).foldl step run).state =
      rest.foldl ModeAssignment.apply run.state := by
  induction rest generalizing run with
  | nil => rfl
  | cons assignment rest ih =>
      have hstep : run.step .assign = run.assigned rest assignment := by
        simp only [step, h]
      have hremaining : (run.assigned rest assignment).remaining = rest := by
        cases assignment <;> rfl
      rw [List.length_cons, List.replicate_succ, List.foldl_cons, hstep, ih hremaining]
      cases assignment <;> rfl

/-- A switch whose assignments are executed in a row is `setBallTrackingMode` as one step. -/
theorem uninterrupted_switch (hdone : run.remaining = []) (mode : BallTrackingMode) :
    ((.setBallTrackingMode mode :: List.replicate (switchBody defs mode).length .assign).foldl
        step run).state =
      (setBallTrackingMode mode run.state).2 := by
  have hbegin : run.step (.setBallTrackingMode mode) =
      { run with remaining := switchBody defs mode } := if_pos hdone
  rw [List.foldl_cons, hbegin, ← switch_body_apply]
  exact state_assign_all rfl

/-- The counts of both axes are those of their histories. In `BTMODE_NORMAL` every long count is
cleared or its zeroing is still to come. -/
structure Sound (run : Switching defs) : Prop where
  x : EntrySound defs run.state.x run.x
  y : EntrySound defs run.state.y run.y
  order : ∃ mode, run.remaining <:+ switchBody defs mode
  xPending : run.state.btMode = .normal → ∀ t, run.state.x.longCount.get t = 0 ∨
    .longCountX t ∈ run.remaining
  yPending : run.state.btMode = .normal → ∀ t, run.state.y.longCount.get t = 0 ∨
    .longCountY t ∈ run.remaining

theorem sound_start (x : Axis defs.numberXRx) (y : Axis defs.numberYRx) : Sound (start x y) where
  x := entry_sound_setup x
  y := entry_sound_setup y
  order := ⟨.normal, List.nil_suffix⟩
  xPending := fun h => by cases h
  yPending := fun h => by cases h

/-- A sound run is safe. -/
theorem Sound.safe (h : Sound run) : run.Safe := by
  refine ⟨?_, h.x.longCount, h.y.longCount⟩
  intro hdone hnormal
  have hnone : ∀ assignment, assignment ∉ run.remaining := by
    rw [hdone]
    exact fun _ => List.not_mem_nil
  exact ⟨fun t => (h.xPending hnormal t).resolve_right (hnone _),
    fun t => (h.yPending hnormal t).resolve_right (hnone _)⟩

/-- The start of a switch keeps a run sound. -/
theorem Sound.begin (h : Sound run) (hdone : run.remaining = []) (mode : BallTrackingMode) :
    Sound { run with remaining := switchBody defs mode } := by
  obtain ⟨hsettled, -, -⟩ := h.safe
  exact
    { x := h.x, y := h.y, order := ⟨mode, List.suffix_rfl⟩
      xPending := fun hnormal t => .inl ((hsettled hdone hnormal).1 t)
      yPending := fun hnormal t => .inl ((hsettled hdone hnormal).2 t) }

/-- An assignment of the switch in progress keeps a run sound. -/
theorem Sound.assign (h : Sound run) {assignment : ModeAssignment defs}
    {rest : List (ModeAssignment defs)} (hremaining : run.remaining = assignment :: rest) :
    Sound (run.assigned rest assignment) := by
  obtain ⟨mode, hsuffix⟩ := h.order
  have hx := h.xPending
  have hy := h.yPending
  rw [hremaining] at hsuffix hx hy
  have horder : ∃ mode, rest <:+ switchBody defs mode :=
    ⟨mode, (List.suffix_cons assignment rest).trans hsuffix⟩
  cases assignment with
  | btMode mode =>
      rcases rest_of_bt_mode hsuffix with ⟨rfl, rfl⟩ | ⟨rfl, rfl⟩
      · -- all zeroings are still to come
        exact
          { x := h.x, y := h.y, order := horder
            xPending := fun _ t => .inr (by simp [Switching.assigned, zeroings])
            yPending := fun _ t => .inr (by simp [Switching.assigned, zeroings]) }
      · exact
          { x := h.x, y := h.y, order := horder
            xPending := fun hnormal => by cases hnormal
            yPending := fun hnormal => by cases hnormal }
  | longCountX t =>
      exact
        { x := h.x.zero t, y := h.y, order := horder
          xPending := fun hnormal =>
            pending_zero (fun _ _ => ModeAssignment.longCountX.inj) (hx hnormal)
          yPending := fun hnormal => pending_other (fun _ heq => by cases heq) (hy hnormal) }
  | longCountY t =>
      exact
        { x := h.x, y := h.y.zero t, order := horder
          xPending := fun hnormal => pending_other (fun _ heq => by cases heq) (hx hnormal)
          yPending := fun hnormal =>
            pending_zero (fun _ _ => ModeAssignment.longCountY.inj) (hy hnormal) }

/-- A period keeps a run sound. -/
theorem Sound.period (h : Sound run) (xSample : Sample defs.numberXRx)
    (ySample : Sample defs.numberYRx) : Sound (run.step (.period xSample ySample)) := by
  cases hpc : run.state.pc with
  | outerWait =>
      have hnot : ¬ run.state.Publishing := by
        intro hpublishing
        rw [hpublishing.1] at hpc
        cases hpc
      have hstep : run.step (.period xSample ySample) =
          { run with state := loopTest run.state } := by
        simp [step, wake_outer hpc, EntryHistory.period, hpc, hnot]
      rw [hstep]
      exact ⟨h.x, h.y, h.order, h.xPending, h.yPending⟩
  | innerWait =>
      by_cases hcount : run.state.filterCount < defs.filterCount
      · have hnot : ¬ run.state.Publishing := fun hpublishing => hpublishing.2 hcount
        have hstep : run.step (.period xSample ySample) =
            { run with
              state := loopTest
                { run.state with
                  x := (run.state.x.read xSample).count
                  y := (run.state.y.read ySample).count
                  filterCount := run.state.filterCount + 1 }
              x := { run.x with window := xSample :: run.x.window }
              y := { run.y with window := ySample :: run.y.window } } := by
          simp [step, wake_count hpc hcount, EntryHistory.period, hpc, hnot]
        rw [hstep]
        exact ⟨h.x.count xSample, h.y.count ySample, h.order, h.xPending, h.yPending⟩
      · have hpublishing : run.state.Publishing := ⟨hpc, hcount⟩
        obtain ⟨curPos, hwake⟩ := wake_publish hpublishing xSample ySample
        have hx := h.x.publish run.state.btMode xSample
        have hy := h.y.publish run.state.btMode ySample
        -- a publication in `BTMODE_NORMAL` does not disturb the zeroings
        have hxPending : run.state.btMode = .normal → ∀ t,
            (calcBallPosition defs run.state.btMode
              (run.state.x.read xSample)).publish.clearBreakCount.longCount.get t = 0 ∨
            .longCountX t ∈ run.remaining := by
          intro hnormal t
          rw [long_count_publish_normal hnormal]
          exact h.xPending hnormal t
        have hyPending : run.state.btMode = .normal → ∀ t,
            (calcBallPosition defs run.state.btMode
              (run.state.y.read ySample)).publish.clearBreakCount.longCount.get t = 0 ∨
            .longCountY t ∈ run.remaining := by
          intro hnormal t
          rw [long_count_publish_normal hnormal]
          exact h.yPending hnormal t
        simp only [step, hwake, EntryHistory.period, if_pos hpublishing]
        exact ⟨hx, hy, h.order, hxPending, hyPending⟩

/-- Every step keeps a run sound. -/
theorem Sound.step (h : Sound run) (event : SwitchEvent defs) : Sound (run.step event) := by
  cases event with
  | startPlay | pause => exact ⟨h.x, h.y, h.order, h.xPending, h.yPending⟩
  | period xSample ySample => exact h.period xSample ySample
  | setBallTrackingMode mode =>
      unfold Switching.step
      dsimp only
      split
      · exact h.begin ‹_› mode
      · exact h
  | assign =>
      unfold Switching.step
      dsimp only
      split
      · exact h
      · exact h.assign ‹_›

/-- A sound run has no long count left when it changes to `BTMODE_LONGCOUNT`. -/
theorem Sound.enters_clear (h : Sound run) (event : SwitchEvent defs) :
    run.EntersClear event := by
  intro hnormal hentered
  have hsame : (run.step event).state.btMode = run.state.btMode →
      (run.step event).state.x.Cleared ∧ (run.step event).state.y.Cleared := by
    intro hsame
    rw [hsame, hnormal] at hentered
    cases hentered
  cases event with
  | startPlay | pause => exact hsame rfl
  | period xSample ySample => exact hsame (wake_bt_mode xSample ySample run.state)
  | setBallTrackingMode mode =>
      refine hsame ?_
      unfold Switching.step
      dsimp only
      split <;> rfl
  | assign =>
      cases hremaining : run.remaining with
      | nil => exact hsame (by simp only [Switching.step, hremaining])
      | cons assignment rest =>
          have hstep : run.step .assign = run.assigned rest assignment := by
            simp only [Switching.step, hremaining]
          rw [hstep] at hsame ⊢
          cases assignment with
          | longCountX t | longCountY t => exact hsame rfl
          | btMode mode =>
              obtain ⟨switched, hsuffix⟩ := h.order
              have hx := h.xPending hnormal
              have hy := h.yPending hnormal
              rw [hremaining] at hsuffix hx hy
              rcases rest_of_bt_mode hsuffix with ⟨rfl, -⟩ | ⟨rfl, rfl⟩
              · exact hsame hnormal.symm
              · -- no zeroing is still to come
                exact ⟨fun t => (hx t).resolve_right (by simp),
                  fun t => (hy t).resolve_right (by simp)⟩

/-- In every run, whatever the order of the assignments and the periods, every state is safe and
no long count is left when the mode changes to `BTMODE_LONGCOUNT`. -/
theorem mode_switch_safe (x : Axis defs.numberXRx) (y : Axis defs.numberYRx)
    (events : List (SwitchEvent defs)) :
    Throughout step Safe (start x y) events ∧ Along step EntersClear (start x y) events := by
  refine ⟨?_, ?_⟩
  · refine (throughout_of_invariant ?_ (sound_start x y) events).mono ?_
    · exact fun run event h => Sound.step h event
    · exact fun run h => Sound.safe h
  · refine along_of_invariant ?_ ?_ (sound_start x y) events
    · exact fun run event h => Sound.step h event
    · exact fun run event h => Sound.enters_clear h event

end Switching

end FoosballTable.Tracker
