import FoosballTable.Common.Types

/-!
# The motor registry

`Motor.c`. A motor is stepped only while it is `complete`; `stopMotors` saves the state of every
registered motor into its one `prevState` slot, and `resumeMotors` writes the slot back. The
registry `_motors[0 .. _motorIndex)` is the list of the motors that `createNewMotor` returned,
in order of creation, and a pointer to a motor is its position there.
-/

namespace FoosballTable.Motors

/-- The states of a motor. -/
inductive MotorState where
  | complete
  | busy
  | stop
  deriving DecidableEq, Repr

/-- `Motor`, with the fields in the order of the initializer in `createNewMotor`. A direction is
the code of the enumeration `Direction`, which the shell may set to any `int`. -/
structure Motor where
  direction : Int
  enabled : Bool
  edgeToSend : Nat
  cyclesToWait : Nat
  bitPosition : Nat
  state : MotorState
  prevState : MotorState
  deriving DecidableEq, Repr

/-- The instance that `createNewMotor` copies into fresh memory. -/
def Motor.normal (defs : FLUDefs) (bitPosition : Nat) : Motor where
  direction := defs.pull
  enabled := false
  edgeToSend := 0
  cyclesToWait := 0
  bitPosition := bitPosition
  state := .complete
  prevState := .complete

/-- `motorStep`: order steps on a motor that is `complete`. The edges are the 32-bit
`numberOfSteps << 1`. -/
def motorStep (numberOfSteps : Nat) (direction : Int) (cyclesToWait : Nat) (motor : Motor) :
    Status × Motor :=
  if motor.state = .complete then
    if numberOfSteps > 0 then
      (.success,
        { motor with
          direction := direction
          edgeToSend := (numberOfSteps <<< 1) % 2 ^ 32
          cyclesToWait := cyclesToWait
          state := .busy })
    else (.success, motor)
  else (.failure, motor)

/-- The body of the loop of `stopMotors`. -/
def stopMotor (motor : Motor) : Motor :=
  { motor with prevState := motor.state, state := .stop }

/-- The body of the loop of `resumeMotors`. -/
def resumeMotor (motor : Motor) : Motor :=
  { motor with state := motor.prevState }

/-- The registry: at most `capacity = NUMBER_OF_MOTORS` motors. -/
structure Registry (capacity : Nat) where
  motors : List Motor
  bound : motors.length ≤ capacity
  deriving DecidableEq, Repr

variable {capacity : Nat}

/-- The registry before any motor is created. -/
def Registry.empty (capacity : Nat) : Registry capacity :=
  ⟨[], Nat.zero_le _⟩

/-- `createNewMotor`: the position of the new motor, or nothing for the null pointer. -/
def createNewMotor (defs : FLUDefs) (bitPosition : Nat) (registry : Registry capacity) :
    Option Nat × Registry capacity :=
  if h : registry.motors.length < capacity then
    (some registry.motors.length,
      ⟨registry.motors ++ [Motor.normal defs bitPosition], by rw [List.length_append]; exact h⟩)
  else (none, registry)

/-- `motorStep` on the motor at a position of the registry. -/
def Registry.motorStep (numberOfSteps : Nat) (direction : Int) (cyclesToWait : Nat)
    (position : Nat) (registry : Registry capacity) : Registry capacity :=
  ⟨registry.motors.modify position fun motor =>
      (Motors.motorStep numberOfSteps direction cyclesToWait motor).2,
    by simpa using registry.bound⟩

/-- `stopMotors`. -/
def stopMotors (registry : Registry capacity) : Status × Registry capacity :=
  (.success, ⟨registry.motors.map stopMotor, by simpa using registry.bound⟩)

/-- `resumeMotors`. -/
def resumeMotors (registry : Registry capacity) : Status × Registry capacity :=
  (.success, ⟨registry.motors.map resumeMotor, by simpa using registry.bound⟩)

/-- A call of one of the functions of `Motor.c`. -/
inductive MotorCall where
  | createNewMotor (bitPosition : Nat)
  | motorStep (numberOfSteps : Nat) (direction : Int) (cyclesToWait : Nat) (position : Nat)
  | stopMotors
  | resumeMotors
  deriving DecidableEq, Repr

/-- The registry after a call. -/
def MotorCall.run (defs : FLUDefs) (registry : Registry capacity) :
    MotorCall → Registry capacity
  | .createNewMotor bitPosition => (Motors.createNewMotor defs bitPosition registry).2
  | .motorStep numberOfSteps direction cyclesToWait position =>
      registry.motorStep numberOfSteps direction cyclesToWait position
  | .stopMotors => (Motors.stopMotors registry).2
  | .resumeMotors => (Motors.resumeMotors registry).2

/-! ## The motors after a call -/

@[simp] theorem registry_motor_step_motors (registry : Registry capacity)
    (numberOfSteps : Nat) (direction : Int) (cyclesToWait position : Nat) :
    (registry.motorStep numberOfSteps direction cyclesToWait position).motors =
      registry.motors.modify position fun motor =>
        (motorStep numberOfSteps direction cyclesToWait motor).2 := rfl

@[simp] theorem stop_motors_motors (registry : Registry capacity) :
    (stopMotors registry).2.motors = registry.motors.map stopMotor := rfl

@[simp] theorem resume_motors_motors (registry : Registry capacity) :
    (resumeMotors registry).2.motors = registry.motors.map resumeMotor := rfl

/-- A new motor comes after all others, and none comes once the registry is full. -/
theorem create_new_motor_motors (defs : FLUDefs) (bitPosition : Nat)
    (registry : Registry capacity) :
    (createNewMotor defs bitPosition registry).2.motors =
      if registry.motors.length < capacity then
        registry.motors ++ [Motor.normal defs bitPosition]
      else registry.motors := by
  unfold createNewMotor
  split <;> rfl

/-! ## What a step does to a motor -/

/-- A motor that is not `complete` rejects every step, whatever its arguments. -/
theorem motor_step_rejected {motor : Motor} (h : motor.state ≠ .complete)
    (numberOfSteps : Nat) (direction : Int) (cyclesToWait : Nat) :
    motorStep numberOfSteps direction cyclesToWait motor = (.failure, motor) := by
  simp [motorStep, h]

/-- An accepted order of a representable number of steps leaves the motor busy with two edges
for each step. -/
theorem motor_step_accepted {motor : Motor} (h : motor.state = .complete) {numberOfSteps : Nat}
    (hpos : 0 < numberOfSteps) (hlt : numberOfSteps < 2 ^ 31) (direction : Int)
    (cyclesToWait : Nat) :
    motorStep numberOfSteps direction cyclesToWait motor =
      (.success,
        { motor with
          direction := direction
          edgeToSend := 2 * numberOfSteps
          cyclesToWait := cyclesToWait
          state := .busy }) := by
  have hedges : (numberOfSteps <<< 1) % 2 ^ 32 = 2 * numberOfSteps := by
    rw [Nat.shiftLeft_eq]
    omega
  simp only [motorStep, h, if_true, if_pos hpos, hedges]

/-- An order of no steps changes nothing. -/
theorem motor_step_zero (motor : Motor) (direction : Int) (cyclesToWait : Nat) :
    (motorStep 0 direction cyclesToWait motor).2 = motor := by
  unfold motorStep
  split <;> simp

end FoosballTable.Motors
