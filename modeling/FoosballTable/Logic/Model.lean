import FoosballTable.Motors.Registry

/-!
# The FoosLogic handlers and thread

`FoosLogic.c`. The file-scope variables are the mailbox between the handlers, which write them,
and the thread `_main`, which reads `_mode` once each period and resets it after a one-shot
command. A handler is its sequence of assignments to these variables, so that it can be run as
one step or one assignment at a time. The thread is parked at one of its calls of
`pthread_wait_np`, and `wake` runs it from there to the next one. `Rod.c` is not part of the
repository: what it returns is part of the `Period` the thread wakes into, and the calls made
into it are the output of `wake`.
-/

namespace FoosballTable.Logic

open Motors

/-- `FoosLogicMode`. -/
inductive FoosLogicMode where
  | home
  | normal
  | userCommand
  | userCommandRot
  | doNothing
  deriving DecidableEq, Repr

/-- `UserCmdRot`. -/
structure UserCmdRot where
  id : Int
  angle : Int
  wait : Int
  dir : Int
  deriving DecidableEq, Repr

/-- The call of `pthread_wait_np` the thread is parked at: in the outer or the inner loop of
`_main`, somewhere inside `rodHome`, or in round `t` of one of the waits of `_basicStrategy`. -/
inductive Pc where
  | outerWait
  | innerWait
  | homing
  | goalieKick (t : Nat)
  | goalieClear (t : Nat)
  | fullbackKick (t : Nat)
  | fullbackClear (t : Nat)
  deriving DecidableEq, Repr

/-- The file-scope variables of `FoosLogic.c` that change after `setup`, and the place of the
thread. -/
structure State where
  start : Bool
  mode : FoosLogicMode
  currentRod : Nat
  userCmdMotorId : Int
  userCmdSteps : Int
  userCmdWait : Int
  userCmdDir : Int
  userRot : UserCmdRot
  ballPos : Point
  pc : Pc
  deriving DecidableEq, Repr

/-- The state `setup` and `run` leave. `setup` does not write `_mode`, whose static zero is
`FL_HOME`. -/
def State.setup : State where
  start := false
  mode := .home
  currentRod := 0
  userCmdMotorId := 0
  userCmdSteps := 0
  userCmdWait := 0
  userCmdDir := 0
  userRot := ⟨0, 0, 0, 0⟩
  ballPos := ⟨0, 0, 0⟩
  pc := .outerWait

/-! ## The handlers -/

/-- One assignment of a handler to a file-scope variable. -/
inductive Assignment where
  | start (value : Bool)
  | mode (value : FoosLogicMode)
  | currentRod (value : Nat)
  | userCmdMotorId (value : Int)
  | userCmdSteps (value : Int)
  | userCmdWait (value : Int)
  | userCmdDir (value : Int)
  | userRotId (value : Int)
  | userRotAngle (value : Int)
  | userRotWait (value : Int)
  | userRotDir (value : Int)
  deriving DecidableEq, Repr

/-- The state after an assignment. -/
def Assignment.apply (state : State) : Assignment → State
  | .start value => { state with start := value }
  | .mode value => { state with mode := value }
  | .currentRod value => { state with currentRod := value }
  | .userCmdMotorId value => { state with userCmdMotorId := value }
  | .userCmdSteps value => { state with userCmdSteps := value }
  | .userCmdWait value => { state with userCmdWait := value }
  | .userCmdDir value => { state with userCmdDir := value }
  | .userRotId value => { state with userRot := { state.userRot with id := value } }
  | .userRotAngle value => { state with userRot := { state.userRot with angle := value } }
  | .userRotWait value => { state with userRot := { state.userRot with wait := value } }
  | .userRotDir value => { state with userRot := { state.userRot with dir := value } }

/-- A handler: its assignments in program order and the status it returns. -/
structure Handler where
  body : List Assignment
  status : Status
  deriving DecidableEq, Repr

/-- Run a handler as one step. -/
def Handler.run (handler : Handler) (state : State) : State :=
  handler.body.foldl Assignment.apply state

/-- `startPlay`. -/
def startPlay : Handler :=
  ⟨[.start true, .mode .normal], .success⟩

/-- `pause`. -/
def pause : Handler :=
  ⟨[.start false], .success⟩

/-- The search loop of `home`: the first index of `_rods` whose rod has the id. -/
def findRod (rodIds : List Int) (id : Int) : Option Nat :=
  rodIds.findIdx? fun rodId => rodId == id

/-- `home`. The list `rodIds` holds `_rods[t].id` for `t` below `NUMBER_OF_RODS`. -/
def home (rodIds : List Int) (id : Int) : Handler :=
  match findRod rodIds id with
  -- `_mode` is written before the rod that it refers to
  | some t => ⟨[.mode .doNothing, .mode .home, .currentRod t, .start true], .success⟩
  | none => ⟨[.mode .doNothing], .failure⟩

/-- `userCommandMotor`. -/
def userCommandMotor (motor steps wait dir : Int) : Handler :=
  ⟨[.userCmdMotorId motor, .userCmdSteps steps, .userCmdWait wait, .userCmdDir dir,
    .mode .userCommand], .success⟩

/-- `userRotateRod`. -/
def userRotateRod (id anglePosition timeToWait dir : Int) : Handler :=
  ⟨[.userRotId id, .userRotAngle anglePosition, .userRotWait timeToWait, .userRotDir dir,
    .mode .userCommandRot], .success⟩

/-- A call of a public method of `FoosLogic` by the handlers of the pipes. -/
inductive HandlerCall where
  | startPlay
  | pause
  | home (id : Int)
  | userCommandMotor (motor steps wait dir : Int)
  | userRotateRod (id anglePosition timeToWait dir : Int)
  deriving DecidableEq, Repr

/-- The method that is called. -/
def HandlerCall.handler (rodIds : List Int) : HandlerCall → Handler
  | .startPlay => Logic.startPlay
  | .pause => Logic.pause
  | .home id => Logic.home rodIds id
  | .userCommandMotor motor steps wait dir => Logic.userCommandMotor motor steps wait dir
  | .userRotateRod id anglePosition timeToWait dir =>
      Logic.userRotateRod id anglePosition timeToWait dir

/-! ## The thread -/

/-- A call the thread makes into `Rod.c` or `Motor.c`, with the `int`s it passes. A rod is its
index in `_rods`, a player its index in the players of the rod. `rodHomeResumes` is the part of
a running `rodHome` between two of its waits. -/
inductive Call where
  | rodHome (rod : Nat)
  | rodHomeResumes
  | motorStep (steps dir wait motor : Int)
  | rodRotate (angle rod : Int)
  | playerMove (y : Int) (rod player : Nat)
  deriving DecidableEq, Repr

/-- What the thread meets in the period it wakes into: the ball position the tracker hands out,
the motor states it tests, the player `rodGetClosestPlayer` finds for a ball and a rod, and
whether a running `rodHome` returns. -/
structure Period where
  position : Point
  goalieLinear : MotorState
  fullbackLinear : MotorState
  fullbackRotational : MotorState
  closestPlayer : Point → Nat → Nat
  homed : Bool

/-- A period in which all motors are complete, for evaluating the model. -/
def Period.quiet (homed : Bool) : Period :=
  ⟨⟨0, 0, 0⟩, .complete, .complete, .complete, fun _ _ => 0, homed⟩

/-- The conversion of a y laser coordinate to millimetres. -/
def tableCoordY (y : Int) : Int :=
  if y.tmod 2 = 1 then (y - 1).tdiv 2 * 15 + 24 + 7 else y.tdiv 2 * 15 + 24

/-- The conversion of an x laser coordinate to millimetres. -/
def tableCoordX (x : Int) : Int :=
  if x.tmod 2 = 1 then (x - 1).tdiv 2 * 20 + 23 + 10 else x.tdiv 2 * 20 + 23

/-- Breaks that cannot be handled are moved to the nearest row that can. -/
def clampY (defs : FLUDefs) (y : Int) : Int :=
  if y < 60 then 60 else if y > defs.tableWidth - 60 then defs.tableWidth - 60 else y

/-- The tests of the two loops of `_main` after an iteration or a wait: the thread parks in the
inner loop while `_start` is set, else in the outer one. -/
def loopTest (state : State) : State :=
  { state with pc := if state.start then .innerWait else .outerWait }

variable (defs : FLUDefs)

/-- The part of `_basicStrategy` that follows the goalie's waits. -/
def fullbackStrategy (period : Period) (state : State) : State × List Call :=
  if state.ballPos.x > 250 ∧ state.ballPos.x < 270 ∧ period.fullbackRotational = .complete then
    ({ state with pc := .fullbackKick 0 }, [.rodRotate 90 defs.fullback])
  else if state.ballPos.x < 160 ∧ period.fullbackRotational = .complete then
    (loopTest state, [.rodRotate (-90) defs.fullback])
  else if period.fullbackRotational = .complete then
    (loopTest state, [.rodRotate 0 defs.fullback])
  else (loopTest state, [])

/-- The blocking moves of `_basicStrategy`, one for each rod whose linear motor is free. -/
def blockingMoves (period : Period) (ballPos : Point) : List Call :=
  (if period.goalieLinear = .complete then
    [.playerMove ballPos.y defs.goalie (period.closestPlayer ballPos defs.goalie)] else []) ++
  (if period.fullbackLinear = .complete then
    [.playerMove ballPos.y defs.fullback (period.closestPlayer ballPos defs.fullback)] else [])

/-- `_basicStrategy`, up to its first wait. -/
def basicStrategy (period : Period) (state : State) : State × List Call :=
  if state.ballPos.y > 60 ∧ state.ballPos.y < defs.tableWidth - 60 then
    let moves := blockingMoves defs period state.ballPos
    if state.ballPos.x > 95 ∧ state.ballPos.x < 115 then
      ({ state with pc := .goalieKick 0 }, moves ++ [.rodRotate 90 defs.goalie])
    else
      let (next, calls) := fullbackStrategy defs period state
      (next, moves ++ calls)
  else (loopTest state, [])

/-- The part of an iteration that follows a one-shot command: the mode is reset. -/
def finishCommand (state : State) : State :=
  loopTest { state with mode := .doNothing }

/-- The `switch` of the inner loop of `_main`. -/
def iteration (period : Period) (state : State) : State × List Call :=
  match state.mode with
  | .home =>
      (if period.homed then finishCommand state else { state with pc := .homing },
        [.rodHome state.currentRod])
  | .normal =>
      basicStrategy defs period
        { state with
          ballPos :=
            { x := tableCoordX period.position.x
              y := clampY defs (tableCoordY period.position.y)
              time := period.position.time } }
  | .userCommand =>
      (finishCommand state,
        [.motorStep state.userCmdSteps state.userCmdDir state.userCmdWait state.userCmdMotorId])
  | .userCommandRot =>
      (finishCommand state, [.rodRotate state.userRot.angle state.userRot.id])
  | .doNothing => (loopTest state, [])

/-- The thread runs from the wait it is parked at to the next one: its new state and the calls
it makes on the way. -/
def wake (period : Period) (state : State) : State × List Call :=
  match state.pc with
  | .outerWait => (loopTest state, [])
  | .innerWait => iteration defs period state
  | .homing => (if period.homed then finishCommand state else state, [.rodHomeResumes])
  | .goalieKick t =>
      if t + 1 < 10 then ({ state with pc := .goalieKick (t + 1) }, [])
      else ({ state with pc := .goalieClear 0 }, [.rodRotate 0 defs.goalie])
  | .goalieClear t =>
      if t + 1 < 500 then ({ state with pc := .goalieClear (t + 1) }, [])
      -- `_basicStrategy` goes on with the fullback after the goalie's kick
      else fullbackStrategy defs period state
  | .fullbackKick t =>
      if t + 1 < 10 then ({ state with pc := .fullbackKick (t + 1) }, [])
      else ({ state with pc := .fullbackClear 0 }, [.rodRotate 0 defs.fullback])
  | .fullbackClear t =>
      if t + 1 < 500 then ({ state with pc := .fullbackClear (t + 1) }, [])
      else (loopTest state, [])

end FoosballTable.Logic
