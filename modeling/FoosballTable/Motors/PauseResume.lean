import FoosballTable.Motors.Registry
import Mathlib.Logic.Function.Iterate

/-!
# Pauses and resumes of the motors

`stopMotors` saves the state of a motor into a single slot, so a second pause saves `stop` over
the state the first one saved. `pauses_undone_iff` is the exact law: any number of resumes
undoes one pause, and none undoes two.
-/

namespace FoosballTable.Motors

/-- What a pause and its resume are to give back: the state of the motor and its order. -/
def Motor.motion (motor : Motor) : MotorState × Int × Nat × Nat :=
  (motor.state, motor.direction, motor.edgeToSend, motor.cyclesToWait)

/-- The arguments of a call of `motorStep`. -/
structure StepAttempt where
  numberOfSteps : Nat
  direction : Int
  cyclesToWait : Nat
  position : Nat
  deriving DecidableEq, Repr

/-- The call with these arguments. -/
def StepAttempt.call (attempt : StepAttempt) : MotorCall :=
  .motorStep attempt.numberOfSteps attempt.direction attempt.cyclesToWait attempt.position

/-- Successive pauses, each followed by the step attempts of its block, then `resumes`
successive resumes. There are as many pauses as blocks. -/
def pausesThenResumes (blocks : List (List StepAttempt)) (resumes : Nat) : List MotorCall :=
  blocks.flatMap (fun block => .stopMotors :: block.map StepAttempt.call) ++
    List.replicate resumes .resumeMotors

variable {capacity : Nat} {defs : FLUDefs}

/-! ## One motor -/

/-- A resume after one pause gives the motion back. -/
theorem resume_stop_motion (motor : Motor) :
    (resumeMotor (stopMotor motor)).motion = motor.motion := rfl

/-- Further pauses change nothing after the second one. -/
theorem iterate_stop_stop (pauses : Nat) (motor : Motor) :
    stopMotor^[pauses + 2] motor = stopMotor (stopMotor motor) := by
  induction pauses with
  | zero => rfl
  | succ pauses ih =>
      rw [Function.iterate_succ_apply', ih]
      rfl

/-- Further resumes change nothing after the first one. -/
theorem iterate_resume (resumes : Nat) (motor : Motor) :
    resumeMotor^[resumes + 1] motor = resumeMotor motor := by
  induction resumes with
  | zero => rfl
  | succ resumes ih =>
      rw [Function.iterate_succ_apply', ih]
      rfl

/-! ## The registry -/

/-- Every registered motor is stopped. -/
def Registry.Stopped (registry : Registry capacity) : Prop :=
  ∀ motor ∈ registry.motors, motor.state = .stop

/-- No registered motor is stopped. -/
def Registry.Running (registry : Registry capacity) : Prop :=
  ∀ motor ∈ registry.motors, motor.state ≠ .stop

instance (registry : Registry capacity) : Decidable registry.Stopped :=
  inferInstanceAs (Decidable (∀ motor ∈ registry.motors, motor.state = .stop))

instance (registry : Registry capacity) : Decidable registry.Running :=
  inferInstanceAs (Decidable (∀ motor ∈ registry.motors, motor.state ≠ .stop))

/-- Registries with the same motors are equal. -/
theorem Registry.ext_motors {registry other : Registry capacity}
    (h : registry.motors = other.motors) : registry = other := by
  cases registry
  cases other
  cases h
  rfl

theorem stopped_stop_motors (registry : Registry capacity) :
    (stopMotors registry).2.Stopped := by
  intro motor hmotor
  obtain ⟨before, _, rfl⟩ := List.mem_map.mp hmotor
  rfl

/-- A stopped motor ignores every step attempt. -/
theorem Registry.Stopped.motor_step {registry : Registry capacity} (h : registry.Stopped)
    (numberOfSteps : Nat) (direction : Int) (cyclesToWait position : Nat) :
    registry.motorStep numberOfSteps direction cyclesToWait position = registry := by
  refine Registry.ext_motors (List.ext_getElem? ?_)
  intro index
  rw [registry_motor_step_motors, List.getElem?_modify]
  cases hmotor : registry.motors[index]? with
  | none => rfl
  | some motor =>
      have hstop : motor.state ≠ .complete := by
        rw [h motor (List.mem_of_getElem? hmotor)]
        decide
      simp [motor_step_rejected hstop]

/-- A stopped registry ignores every block of step attempts. -/
theorem Registry.Stopped.attempts {registry : Registry capacity} (h : registry.Stopped)
    (block : List StepAttempt) :
    (block.map StepAttempt.call).foldl (MotorCall.run defs) registry = registry := by
  induction block with
  | nil => rfl
  | cons attempt block ih =>
      rw [List.map_cons, List.foldl_cons]
      show (block.map StepAttempt.call).foldl (MotorCall.run defs)
        (registry.motorStep _ _ _ _) = registry
      rw [h.motor_step]
      exact ih

/-- The motors after the pauses and their step attempts: each was stopped once for each pause. -/
theorem run_pauses (blocks : List (List StepAttempt)) (registry : Registry capacity) :
    ((blocks.flatMap fun block => .stopMotors :: block.map StepAttempt.call).foldl
      (MotorCall.run defs) registry).motors = registry.motors.map stopMotor^[blocks.length] := by
  induction blocks generalizing registry with
  | nil => simp
  | cons block blocks ih =>
      rw [List.flatMap_cons, List.foldl_append, List.foldl_cons]
      show (List.foldl (MotorCall.run defs)
        ((block.map StepAttempt.call).foldl (MotorCall.run defs) (stopMotors registry).2) _).motors
          = _
      rw [(stopped_stop_motors registry).attempts, ih, stop_motors_motors, List.map_map]
      rfl

/-- The motors after the resumes. -/
theorem run_resumes (resumes : Nat) (registry : Registry capacity) :
    ((List.replicate resumes .resumeMotors).foldl (MotorCall.run defs) registry).motors =
      registry.motors.map resumeMotor^[resumes] := by
  induction resumes generalizing registry with
  | zero => simp
  | succ resumes ih =>
      rw [List.replicate_succ, List.foldl_cons]
      show (List.foldl (MotorCall.run defs) (resumeMotors registry).2 _).motors = _
      rw [ih, resume_motors_motors, List.map_map]
      rfl

/-- The motors after pauses and resumes, at least one of each: resumed once from one pause, or
stopped for good by the second. -/
theorem run_pauses_then_resumes (defs : FLUDefs) (blocks : List (List StepAttempt)) {resumes : Nat}
    (hresumes : 1 ≤ resumes) (registry : Registry capacity) :
    ((pausesThenResumes blocks resumes).foldl (MotorCall.run defs) registry).motors =
      registry.motors.map fun motor => resumeMotor (stopMotor^[blocks.length] motor) := by
  obtain ⟨more, rfl⟩ := Nat.exists_eq_add_of_le' hresumes
  rw [pausesThenResumes, List.foldl_append, run_resumes, run_pauses, List.map_map]
  exact List.map_congr_left fun motor _ => iterate_resume more _

/-- Pauses and resumes, at least one of each, give every registered motor its motion back, and
leave none stopped, exactly when there was one pause or there is no motor. -/
theorem pauses_undone_iff (defs : FLUDefs) (registry : Registry capacity)
    (hrunning : registry.Running) (blocks : List (List StepAttempt)) (hpauses : 1 ≤ blocks.length)
    (resumes : Nat) (hresumes : 1 ≤ resumes) :
    (((pausesThenResumes blocks resumes).foldl (MotorCall.run defs) registry).motors.map
          Motor.motion = registry.motors.map Motor.motion ∧
        ((pausesThenResumes blocks resumes).foldl (MotorCall.run defs) registry).Running) ↔
      blocks.length = 1 ∨ registry.motors = [] := by
  have hrun := run_pauses_then_resumes defs blocks hresumes registry
  unfold Registry.Running at hrunning ⊢
  rw [hrun]
  constructor
  · intro hundone
    obtain ⟨-, hrestored⟩ := hundone
    by_contra hnot
    obtain ⟨hlength, hmotors⟩ := not_or.mp hnot
    obtain ⟨motor, hmotor⟩ := List.exists_mem_of_ne_nil _ hmotors
    obtain ⟨more, hmore⟩ := Nat.exists_eq_add_of_le' (show 2 ≤ blocks.length by omega)
    -- the second pause has put `stop` into the slot, and the resume restores it
    refine hrestored (resumeMotor (stopMotor^[blocks.length] motor))
      (List.mem_map_of_mem hmotor) ?_
    rw [hmore, iterate_stop_stop]
    rfl
  · intro hcase
    rcases hcase with hone | hnone
    · rw [hone]
      refine ⟨?_, ?_⟩
      · rw [List.map_map]
        exact List.map_congr_left fun motor _ => resume_stop_motion motor
      · intro motor hmotor
        obtain ⟨before, hbefore, rfl⟩ := List.mem_map.mp hmotor
        exact hrunning before hbefore
    · simp [hnone]

/-- A registry with one motor, waiting for an order. -/
def oneMotor : Registry 4 :=
  (createNewMotor FLUDefs.small 0 (Registry.empty 4)).2

/-- Two pauses and a resume leave the motor stopped. -/
theorem double_pause_not_undone :
    oneMotor.Running ∧
      ¬ ((((pausesThenResumes [[], []] 1).foldl (MotorCall.run FLUDefs.small) oneMotor).motors.map
            Motor.motion = oneMotor.motors.map Motor.motion) ∧
          ((pausesThenResumes [[], []] 1).foldl (MotorCall.run FLUDefs.small) oneMotor).Running) ∧
      ((pausesThenResumes [[], []] 1).foldl (MotorCall.run FLUDefs.small) oneMotor).Stopped := by
  decide

/-- One pause, with a step attempt before its two resumes, is undone. -/
theorem single_pause_undone :
    ((pausesThenResumes [[⟨3, 0, 0, 0⟩]] 2).foldl (MotorCall.run FLUDefs.small)
        oneMotor).motors.map Motor.motion = oneMotor.motors.map Motor.motion ∧
      ((pausesThenResumes [[⟨3, 0, 0, 0⟩]] 2).foldl (MotorCall.run FLUDefs.small)
        oneMotor).Running :=
  (pauses_undone_iff FLUDefs.small oneMotor (by decide) [[⟨3, 0, 0, 0⟩]] (by decide) 2
    (by decide)).mpr (by decide)

end FoosballTable.Motors
