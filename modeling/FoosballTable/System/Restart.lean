import FoosballTable.Library.Runs
import FoosballTable.Logic.Thread
import FoosballTable.System.Model

/-!
# Pause and restart

`pause_handler` clears the `_start` flags and leaves everything else alone; `start_handler` starts
all tasks again, and to `FoosLogic` that means normal play. `restart_starts_play` says what is
left of the state before the pause: all of it when normal play was going on, and otherwise all but
`_mode` and `_start` of `FoosLogic`.
-/

namespace FoosballTable.System

open Library

variable {defs : FLUDefs} {setting : Setting}

/-- Whether the pause pipe was used after the start pipe. -/
def paused (occurrences : List (Occurrence defs)) : Bool :=
  occurrences.foldl
    (fun paused occurrence =>
      match occurrence with
      | .pauseHandler => true
      | .startHandler => false
      | _ => paused) false

/-- A period of a thread or a tick. -/
def Occurrence.Passing : Occurrence defs → Prop
  | .logicPeriod _ _ | .trackerPeriod _ _ | .tick _ _ => True
  | _ => False

/-- The thread is between two iterations. -/
def BetweenIterations (state : State defs) : Prop :=
  state.logic.pc = .outerWait ∨ state.logic.pc = .innerWait

instance (state : State defs) : Decidable (BetweenIterations state) :=
  inferInstanceAs (Decidable (_ ∨ _))

/-- The mode, the rod and the user commands of `FoosLogic` and the start flags of `FoosLogic` and
of the tracker are the same. -/
def SamePlay (before after : State defs) : Prop :=
  after.logic.mode = before.logic.mode ∧ after.logic.written = before.logic.written ∧
    after.tracker.start = before.tracker.start

instance (before after : State defs) : Decidable (SamePlay before after) :=
  inferInstanceAs (Decidable (_ ∧ _))

/-- A pause, periods of the threads while paused, and a restart. -/
def pauseAndRestart (between : List (Occurrence defs)) : List (Occurrence defs) :=
  .pauseHandler :: between ++ [.startHandler]

/-- An occurrence changes the start flag of the tracker only in the handlers of the two pipes. -/
theorem tracker_start_occur (state : State defs) (occurrence : Occurrence defs) :
    (occur setting state occurrence).tracker.start =
      match occurrence with
      | .pauseHandler => false
      | .startHandler => true
      | _ => state.tracker.start := by
  cases occurrence with
  | pauseHandler | startHandler | logicPeriod | tick => rfl
  | commandLine action =>
      cases action with
      | setBallTrackingMode mode => cases mode <;> rfl
      | call | invalidMode | invalidCommand => rfl
  | trackerPeriod xSample ySample => exact Tracker.wake_start xSample ySample state.tracker

/-- The tracker runs exactly when the system is not paused. -/
theorem tracker_start_run (x : Tracker.Axis defs.numberXRx) (y : Tracker.Axis defs.numberYRx)
    (bitPositions : List Nat) (occurrences : List (Occurrence defs)) :
    (occurrences.foldl (occur setting) (State.init x y bitPositions)).tracker.start =
      !paused occurrences := by
  have hrun : ∀ (flag : Bool) (state : State defs), state.tracker.start = !flag →
      (occurrences.foldl (occur setting) state).tracker.start =
        !(occurrences.foldl
          (fun paused occurrence =>
            match occurrence with
            | .pauseHandler => true
            | .startHandler => false
            | _ => paused) flag) := by
    induction occurrences with
    | nil => exact fun _ _ h => h
    | cons occurrence occurrences ih =>
        intro flag state h
        refine ih _ _ ?_
        rw [tracker_start_occur]
        cases occurrence with
        | pauseHandler | startHandler => rfl
        | commandLine | logicPeriod | trackerPeriod | tick => exact h
  exact hrun false _ rfl

/-- The threads write neither the rod nor the user commands. -/
theorem written_passing (state : State defs) {occurrence : Occurrence defs}
    (hpassing : occurrence.Passing) :
    (occur setting state occurrence).logic.written = state.logic.written := by
  cases occurrence with
  | logicPeriod period rod =>
      exact Logic.wake_written defs
        { period with position := Tracker.getBallPosition state.tracker } state.logic
  | trackerPeriod | tick => rfl
  | pauseHandler | startHandler | commandLine => exact hpassing.elim

/-- What passes between a pause and a restart leaves the written variables as the pause left
them. -/
theorem written_passing_run (setting : Setting) (state : State defs)
    {between : List (Occurrence defs)} (hbetween : ∀ occurrence ∈ between, occurrence.Passing) :
    (between.foldl (occur setting) state).logic.written = state.logic.written := by
  have hstep : ∀ (later : State defs) (occurrence : Occurrence defs),
      later.logic.written = state.logic.written → occurrence.Passing →
      (occur setting later occurrence).logic.written = state.logic.written :=
    fun later _ h hpassing => (written_passing later hpassing).trans h
  exact last_of_forall hstep rfl hbetween

/-- After a pause and a restart the system plays in normal mode with the tracker running. The rod
and the user commands of `FoosLogic` are those of before the pause, so that play goes on as it
was exactly when it was going on. -/
theorem restart_starts_play (setting : Setting) (x : Tracker.Axis defs.numberXRx)
    (y : Tracker.Axis defs.numberYRx) (bitPositions : List Nat)
    (occurrences : List (Occurrence defs)) (hrunning : paused occurrences = false)
    (between : List (Occurrence defs)) (hbetween : ∀ occurrence ∈ between, occurrence.Passing) :
    let before := occurrences.foldl (occur setting) (State.init x y bitPositions)
    let after := (pauseAndRestart between).foldl (occur setting) before
    (after.logic.mode = .normal ∧
      after.logic.written = { before.logic with start := true }.written ∧
      after.tracker.start = before.tracker.start) ∧
      (SamePlay before after ↔ before.logic.mode = .normal ∧ before.logic.start = true) := by
  intro before after
  have hstart : before.tracker.start = true := by
    rw [tracker_start_run, hrunning]
    rfl
  have hkept := written_passing_run setting (occur setting before .pauseHandler) hbetween
  have hafter : after = occur setting
      (between.foldl (occur setting) (occur setting before .pauseHandler)) .startHandler := by
    show (pauseAndRestart between).foldl (occur setting) before = _
    rw [pauseAndRestart, List.foldl_append]
    rfl
  have hmode : after.logic.mode = .normal := by
    rw [hafter]
    rfl
  have hwritten : after.logic.written = { before.logic with start := true }.written := by
    -- the restart sets `_start`, and the other variables come through the pause
    simp only [Logic.State.written, Prod.mk.injEq] at hkept
    obtain ⟨-, hrod, ⟨hmotor, hsteps, hwait, hdir⟩, hrot⟩ := hkept
    rw [hafter]
    simp only [Logic.State.written, Prod.mk.injEq]
    exact ⟨rfl, hrod, ⟨hmotor, hsteps, hwait, hdir⟩, hrot⟩
  have htracker : after.tracker.start = before.tracker.start := by
    rw [hafter, hstart]
    rfl
  refine ⟨⟨hmode, hwritten, htracker⟩, ?_⟩
  unfold SamePlay
  rw [hmode, hwritten, and_iff_left htracker]
  constructor
  · intro hsame
    refine ⟨hsame.1.symm, ?_⟩
    have hflag := hsame.2
    simp only [Logic.State.written, Prod.mk.injEq] at hflag
    exact hflag.1.symm
  · intro hplaying
    refine ⟨hplaying.1.symm, ?_⟩
    simp only [Logic.State.written, hplaying.2]

/-- A game that was not started is started, and a homing that was pending is not carried out. -/
theorem restart_not_transparent :
    (paused ([] : List (Occurrence FLUDefs.small)) = false ∧ BetweenIterations twoMotorSystem ∧
      ¬ SamePlay twoMotorSystem
        ((pauseAndRestart []).foldl (occur Setting.small) twoMotorSystem)) ∧
      paused ([.commandLine (.call (.home 1))] : List (Occurrence FLUDefs.small)) = false ∧
      BetweenIterations (occur Setting.small twoMotorSystem (.commandLine (.call (.home 1)))) ∧
      ¬ SamePlay (occur Setting.small twoMotorSystem (.commandLine (.call (.home 1))))
        ((pauseAndRestart []).foldl (occur Setting.small)
          (occur Setting.small twoMotorSystem (.commandLine (.call (.home 1))))) := by
  decide

/-- A game that was going on goes on as it was. -/
theorem restart_resumes_play :
    let before := occur Setting.small twoMotorSystem (.commandLine (.call .startPlay))
    let after := (pauseAndRestart [.logicPeriod (.quiet true) fun _ => []]).foldl
      (occur Setting.small) before
    (after.logic.mode = .normal ∧
      after.logic.written = { before.logic with start := true }.written ∧
      after.tracker.start = before.tracker.start) ∧
      (SamePlay before after ↔ before.logic.mode = .normal ∧ before.logic.start = true) :=
  restart_starts_play Setting.small _ _ _ [.commandLine (.call .startPlay)] (by decide)
    [.logicPeriod (.quiet true) fun _ => []] (by simp [Occurrence.Passing])

end FoosballTable.System
