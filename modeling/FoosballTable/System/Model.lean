import FoosballTable.Command.Handler
import FoosballTable.Motors.PauseResume

/-!
# The real-time system

The module of `RTInit.c` runs the handlers of three pipes beside the threads of the ball tracker,
the motor controller and `FoosLogic`. An `Event` is one call or one period of a thread, so that
handlers and threads may be interleaved call by call; an `Occurrence` is a whole handler run or a
period. `Rod.c` and `MotorController.c` are not part of the repository: which motor calls they
make and what a tick does to a busy motor is part of the event.
-/

namespace FoosballTable.System

open Motors

/-- The variables of the three modules and the motor registry. -/
structure State (defs : FLUDefs) where
  logic : Logic.State
  tracker : Tracker.State defs
  registry : Registry defs.numberOfMotors

/-- What the code outside the repository has set up: the ids of the rods, and the motor that
`MotorController.getMotor` returns for an id, as its position in the registry. -/
structure Setting where
  rodIds : List Int
  getMotor : Int → Nat

/-- Two rods and motors numbered by their positions, for evaluating the model. -/
def Setting.small : Setting :=
  ⟨[0, 1], Int.toNat⟩

/-- What a tick of the motor controller does to a motor: one that is not busy is left alone. -/
structure Tick where
  change : Motor → Motor
  alone : ∀ motor, motor.state ≠ .busy → change motor = motor

/-- A call of a function of `Motor.c`, of `FoosLogic` or of `BallTracker`, a period of a thread,
with the motor calls that `Rod.c` makes for each call of the thread into it, or a tick. -/
inductive Event (defs : FLUDefs) where
  | motors (call : MotorCall)
  | logic (call : Logic.HandlerCall)
  | startTracker
  | pauseTracker
  | setBallTrackingMode (mode : Tracker.BallTrackingMode)
  | logicPeriod (period : Logic.Period) (rod : Logic.Call → List MotorCall)
  | trackerPeriod (xSample : Tracker.Sample defs.numberXRx)
      (ySample : Tracker.Sample defs.numberYRx)
  | tick (position : Nat) (effect : Tick)

variable {defs : FLUDefs}

/-- The registry after a call of the `FoosLogic` thread. It calls `motorStep` itself for a motor
command; everything else goes through `Rod.c`. -/
def runCall (setting : Setting) (rod : Logic.Call → List MotorCall)
    (registry : Registry defs.numberOfMotors) : Logic.Call → Registry defs.numberOfMotors
  | .motorStep steps dir wait motor =>
      registry.motorStep (Library.uint32 steps) dir (Library.uint32 wait) (setting.getMotor motor)
  | call => (rod call).foldl (MotorCall.run defs) registry

/-- The registry after a tick of the motor at a position. -/
def runTick (position : Nat) (effect : Tick) (registry : Registry defs.numberOfMotors) :
    Registry defs.numberOfMotors :=
  ⟨registry.motors.modify position effect.change, by simpa using registry.bound⟩

/-- The system after an event. The position that the `FoosLogic` thread reads is the one the
tracker hands out. -/
def step (setting : Setting) (state : State defs) : Event defs → State defs
  | .motors call => { state with registry := call.run defs state.registry }
  | .logic call => { state with logic := (call.handler setting.rodIds).run state.logic }
  | .startTracker => { state with tracker := (Tracker.startPlay state.tracker).2 }
  | .pauseTracker => { state with tracker := (Tracker.pause state.tracker).2 }
  | .setBallTrackingMode mode =>
      { state with tracker := (Tracker.setBallTrackingMode mode state.tracker).2 }
  | .logicPeriod period rod =>
      let (logic, calls) := Logic.wake defs
        { period with position := Tracker.getBallPosition state.tracker } state.logic
      { state with
        logic := logic
        registry := calls.foldl (runCall setting rod) state.registry }
  | .trackerPeriod xSample ySample =>
      { state with tracker := Tracker.wake xSample ySample state.tracker }
  | .tick position effect => { state with registry := runTick position effect state.registry }

/-! ## Handlers as one step -/

/-- `pause_handler`: `MotorController.pause` calls `stopMotors`. -/
def pauseHandler : List (Event defs) :=
  [.motors .stopMotors, .logic .pause, .pauseTracker]

/-- `start_handler`: `MotorController.startPlay` calls `resumeMotors`. -/
def startHandler : List (Event defs) :=
  [.motors .resumeMotors, .startTracker, .logic .startPlay]

/-- The calls that `command_handler` makes for a line, after parsing it. -/
def commandHandler : Command.Action → List (Event defs)
  | .call call => [.logic call]
  | .setBallTrackingMode mode => [.setBallTrackingMode mode]
  | .invalidMode _ | .invalidCommand => []

/-- A run of one of the three handlers, or a period or a tick. -/
inductive Occurrence (defs : FLUDefs) where
  | pauseHandler
  | startHandler
  | commandLine (action : Command.Action)
  | logicPeriod (period : Logic.Period) (rod : Logic.Call → List MotorCall)
  | trackerPeriod (xSample : Tracker.Sample defs.numberXRx)
      (ySample : Tracker.Sample defs.numberYRx)
  | tick (position : Nat) (effect : Tick)

/-- The events of an occurrence. -/
def Occurrence.events : Occurrence defs → List (Event defs)
  | .pauseHandler => System.pauseHandler
  | .startHandler => System.startHandler
  | .commandLine action => commandHandler action
  | .logicPeriod period rod => [.logicPeriod period rod]
  | .trackerPeriod xSample ySample => [.trackerPeriod xSample ySample]
  | .tick position effect => [.tick position effect]

/-- The system after an occurrence. -/
def occur (setting : Setting) (state : State defs) (occurrence : Occurrence defs) : State defs :=
  occurrence.events.foldl (step setting) state

/-- The state `init_module` leaves. `MotorController.setup` creates a motor for each of the bit
positions, `BallTracker.startPlay` starts the tracker, and `MotorController.startPlay` resumes the
motors. -/
def State.init (x : Tracker.Axis defs.numberXRx) (y : Tracker.Axis defs.numberYRx)
    (bitPositions : List Nat) : State defs where
  logic := Logic.State.setup
  tracker := (Tracker.startPlay (Tracker.State.setup x y)).2
  registry :=
    (resumeMotors ((bitPositions.map MotorCall.createNewMotor).foldl (MotorCall.run defs)
      (Registry.empty defs.numberOfMotors))).2

/-- A system with two motors that run, for evaluating the model. -/
def twoMotorSystem : State FLUDefs.small :=
  State.init (Tracker.Axis.zero 3) (Tracker.Axis.zero 2) [0, 1]

end FoosballTable.System
