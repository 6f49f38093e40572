import FoosballTable.Library.Runs
import FoosballTable.Motors.Account
import FoosballTable.System.Model

/-!
# A pause freezes the motors

Once `stopMotors` has run, nothing but `resumeMotors` moves a registered motor: every other path
to a motor goes through `motorStep`, which tests for `complete`, or through a tick, which leaves a
motor alone that is not busy. This holds whatever the handlers and the threads do meanwhile.
-/

namespace FoosballTable.System

open Library Motors

/-- A motor is stopped with the order it had, and rejects every step. -/
structure FrozenAs (before now : Motor) : Prop where
  state : now.state = .stop
  direction : now.direction = before.direction
  edgeToSend : now.edgeToSend = before.edgeToSend
  cyclesToWait : now.cyclesToWait = before.cyclesToWait
  rejects : ∀ (numberOfSteps : Nat) (direction : Int) (cyclesToWait : Nat),
    motorStep numberOfSteps direction cyclesToWait now = (.failure, now)

/-- Every motor that was registered before is frozen. -/
def Frozen {capacity : Nat} (before now : Registry capacity) : Prop :=
  ∀ (position : Nat) (motor : Motor), before.motors[position]? = some motor →
    ∃ frozen, now.motors[position]? = some frozen ∧ FrozenAs motor frozen

/-- The event calls `resumeMotors`. -/
def Event.Resumes {defs : FLUDefs} : Event defs → Prop
  | .motors call => call = .resumeMotors
  | .logicPeriod _ rod => ∃ call, .resumeMotors ∈ rod call
  | _ => False

/-! ## Motors -/

/-- A stopped motor rejects every step. -/
theorem frozen_as_of_stop {before now : Motor} (hstate : now.state = .stop)
    (hdirection : now.direction = before.direction)
    (hedges : now.edgeToSend = before.edgeToSend)
    (hcycles : now.cyclesToWait = before.cyclesToWait) : FrozenAs before now :=
  ⟨hstate, hdirection, hedges, hcycles, fun numberOfSteps direction cyclesToWait =>
    motor_step_rejected (by rw [hstate]; decide) numberOfSteps direction cyclesToWait⟩

/-- A pause freezes a motor, and another one keeps it frozen. -/
theorem frozen_as_stop (motor : Motor) : FrozenAs motor (stopMotor motor) :=
  frozen_as_of_stop rfl rfl rfl rfl

theorem FrozenAs.stop {before now : Motor} (h : FrozenAs before now) :
    FrozenAs before (stopMotor now) :=
  frozen_as_of_stop rfl h.direction h.edgeToSend h.cyclesToWait

/-- A tick leaves a frozen motor alone. -/
theorem FrozenAs.tick {before now : Motor} (h : FrozenAs before now) (effect : Tick) :
    effect.change now = now :=
  effect.alone now (by rw [h.state]; decide)

/-! ## The registry -/

section Registries

variable {capacity : Nat} {before now : Registry capacity}

/-- What leaves frozen motors alone at one position keeps the registry frozen. -/
theorem Frozen.modify (h : Frozen before now) {next : Registry capacity} {position : Nat}
    {change : Motor → Motor} (hnext : next.motors = now.motors.modify position change)
    (halone : ∀ motor frozen, FrozenAs motor frozen → change frozen = frozen) :
    Frozen before next := by
  intro index motor hmotor
  obtain ⟨frozen, hfrozen, has⟩ := h index motor hmotor
  refine ⟨frozen, ?_, has⟩
  rw [hnext, List.getElem?_modify, hfrozen]
  split
  · simp [halone motor frozen has]
  · rfl

/-- Every call but `resumeMotors` keeps the registry frozen. -/
theorem Frozen.run (h : Frozen before now) (defs : FLUDefs) {call : MotorCall}
    (hcall : call ≠ .resumeMotors) : Frozen before (call.run defs now) := by
  cases call with
  | createNewMotor bitPosition =>
      -- a new motor comes after all that were registered
      intro position motor hmotor
      obtain ⟨frozen, hfrozen, has⟩ := h position motor hmotor
      refine ⟨frozen, ?_, has⟩
      obtain ⟨hlt, -⟩ := List.getElem?_eq_some_iff.mp hfrozen
      rw [MotorCall.run, create_new_motor_motors]
      split
      · rw [List.getElem?_append_left hlt, hfrozen]
      · exact hfrozen
  | motorStep numberOfSteps direction cyclesToWait position =>
      refine h.modify rfl ?_
      intro motor frozen has
      rw [has.rejects]
  | stopMotors =>
      intro position motor hmotor
      obtain ⟨frozen, hfrozen, has⟩ := h position motor hmotor
      refine ⟨stopMotor frozen, ?_, has.stop⟩
      rw [MotorCall.run, stop_motors_motors, List.getElem?_map, hfrozen]
      rfl
  | resumeMotors => exact absurd rfl hcall

/-- Calls other than `resumeMotors` keep the registry frozen. -/
theorem Frozen.run_all (h : Frozen before now) (defs : FLUDefs) (calls : List MotorCall)
    (hcalls : .resumeMotors ∉ calls) : Frozen before (calls.foldl (MotorCall.run defs) now) := by
  have hothers : ∀ call ∈ calls, call ≠ .resumeMotors := by
    intro call hmem heq
    exact hcalls (heq ▸ hmem)
  exact last_of_forall (fun _ _ hfrozen hcall => hfrozen.run defs hcall) h hothers

/-- `stopMotors` freezes every registered motor. -/
theorem frozen_stop_motors (registry : Registry capacity) :
    Frozen registry (stopMotors registry).2 := by
  intro position motor hmotor
  refine ⟨stopMotor motor, ?_, frozen_as_stop motor⟩
  rw [stop_motors_motors, List.getElem?_map, hmotor]
  rfl

end Registries

/-! ## The system -/

section System

variable {defs : FLUDefs} {before now : Registry defs.numberOfMotors}

/-- A call of the `FoosLogic` thread keeps the registry frozen. -/
theorem Frozen.run_call (h : Frozen before now) (setting : Setting)
    {rod : Logic.Call → List MotorCall} (hrod : ∀ call, .resumeMotors ∉ rod call)
    (call : Logic.Call) : Frozen before (runCall setting rod now call) := by
  cases call with
  | motorStep steps dir wait motor =>
      exact h.run defs (show MotorCall.motorStep _ _ _ _ ≠ .resumeMotors by simp)
  | rodHome | rodHomeResumes | rodRotate | playerMove =>
      exact h.run_all defs _ (hrod _)

/-- A period of the thread keeps the registry frozen, whatever calls it makes. -/
theorem Frozen.run_calls (h : Frozen before now) (setting : Setting)
    {rod : Logic.Call → List MotorCall} (hrod : ∀ call, .resumeMotors ∉ rod call)
    (calls : List Logic.Call) : Frozen before (calls.foldl (runCall setting rod) now) :=
  (throughout_of_invariant (fun _ call hfrozen => hfrozen.run_call setting hrod call) h calls).last

/-- Every event that does not resume the motors keeps the registry frozen. -/
theorem frozen_step (setting : Setting) (before : Registry defs.numberOfMotors)
    (state : State defs) (event : Event defs) (h : Frozen before state.registry)
    (hevent : ¬ event.Resumes) : Frozen before (step setting state event).registry := by
  cases event with
  | motors call => exact h.run defs hevent
  | logicPeriod period rod =>
      exact h.run_calls setting (fun call hmem => hevent ⟨call, hmem⟩) _
  | tick position effect =>
      exact h.modify rfl fun motor frozen has => has.tick effect
  | logic | startTracker | pauseTracker | setBallTrackingMode | trackerPeriod => exact h

/-- After `stopMotors` every motor registered then is frozen throughout every run that does not
resume the motors. -/
theorem pause_freezes_motors (setting : Setting) (state : State defs) (events : List (Event defs))
    (hevents : ∀ event ∈ events, ¬ event.Resumes) :
    Throughout (step setting) (fun now => Frozen state.registry now.registry)
      (step setting state (.motors .stopMotors)) events := by
  refine throughout_of_along ?_ (frozen_stop_motors state.registry) (along_of_forall hevents _)
  exact fun now event h hevent => frozen_step setting state.registry now event h hevent

end System

/-- A system with two motors, of which the first one is busy. -/
def busySystem : State FLUDefs.small :=
  step Setting.small twoMotorSystem (.motors (.motorStep 5 0 1 0))

/-- During a pause the shell starts the game and steps a motor, the thread carries the command
out, pause is pressed again, and `Rod.c` and a tick try to move the motors. -/
def pausedSession : List (Event FLUDefs.small) :=
  [.logic .pause, .pauseTracker, .logic .startPlay, .logic (.userCommandMotor 1 7 0 0),
    .logicPeriod (.quiet true) fun _ => [], .logicPeriod (.quiet true) fun _ => [],
    .motors .stopMotors, .logic (.userRotateRod 0 90 0 0),
    .logicPeriod (.quiet true) fun _ => [.motorStep 3 0 1 1],
    .tick 0 ⟨fun motor => (tick 4 0 motor).2, fun motor h => by simp [tick, h]⟩]

/-- Both motors are frozen throughout that session. -/
theorem paused_session_frozen :
    Throughout (step Setting.small) (fun now => Frozen busySystem.registry now.registry)
      (step Setting.small busySystem (.motors .stopMotors)) pausedSession :=
  pause_freezes_motors Setting.small busySystem pausedSession (by
    simp [pausedSession, Event.Resumes])

end FoosballTable.System
