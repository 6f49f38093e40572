import FoosballTable.Logic.Mailbox
import FoosballTable.Logic.Strategy
import Mathlib.Logic.Function.Basic

/-!
# Kicks and their return

`rodRotate` of `Rod.c`, which is not part of the repository, orders a `motorStep` of the rotational
motor of the rod, which has an effect only while that motor is `COMPLETE`; a rotation makes it busy
for a number of periods. The strategy orders a rod back to 0 a fixed ten periods after it has
ordered a kick, and ignores the result. Meanwhile a pause may stop the motors, which then stand
still until they are resumed. `kicks_taken_back_iff` says that every kick is taken back in exactly
the runs in which the motors are not stopped when a rod is ordered back, and the kick is over by
then: the periods that it takes and those in which its motor was stopped are at most ten.
-/

namespace FoosballTable.Logic

open Library Motors

/-- The rotational motor of a rod, and the number of periods that its rotation still takes. -/
structure Rotor where
  motor : Motor
  left : Nat
  deriving DecidableEq, Repr

/-- The `motorStep` that `rodRotate` orders, and the number of periods that the rotation takes. -/
structure Turn where
  numberOfSteps : Nat
  direction : Int
  cyclesToWait : Nat
  duration : Nat
  pos : 0 < numberOfSteps

namespace Rotor

/-- A rotation is ordered. -/
def rotate (turn : Turn) (rotor : Rotor) : Rotor :=
  if rotor.motor.state = .complete then
    ⟨(motorStep turn.numberOfSteps turn.direction turn.cyclesToWait rotor.motor).2, turn.duration⟩
  else rotor

/-- One period later: a motor goes on with its rotation while it is busy, and is `COMPLETE` after
the last period of it. -/
def pass (rotor : Rotor) : Rotor :=
  if rotor.motor.state = .busy then
    ⟨if rotor.left - 1 = 0 then { rotor.motor with state := .complete } else rotor.motor,
      rotor.left - 1⟩
  else rotor

variable {rotor : Rotor}

theorem pass_of_not_busy (h : rotor.motor.state ≠ .busy) : rotor.pass = rotor :=
  if_neg h

theorem pass_of_busy (h : rotor.motor.state = .busy) :
    rotor.pass = ⟨if rotor.left - 1 = 0 then { rotor.motor with state := .complete }
      else rotor.motor, rotor.left - 1⟩ :=
  if_pos h

/-- A motor is `COMPLETE` after a period if it was before, or if it was the last one of its
rotation. -/
theorem pass_complete_iff : rotor.pass.motor.state = .complete ↔
    rotor.motor.state ≠ .stop ∧ (rotor.motor.state = .busy → rotor.left ≤ 1) := by
  by_cases hbusy : rotor.motor.state = .busy
  · rw [pass_of_busy hbusy]
    dsimp only
    split
    case isTrue hlast =>
      refine iff_of_true rfl ⟨?_, fun _ => Nat.le_of_sub_eq_zero hlast⟩
      rw [hbusy]
      decide
    case isFalse hlast =>
      refine iff_of_false ?_ fun hover => hlast (Nat.sub_eq_zero_of_le (hover.2 hbusy))
      rw [hbusy]
      decide
  · rw [pass_of_not_busy hbusy]
    cases hstate : rotor.motor.state with
    | complete => simp
    | busy => exact absurd hstate hbusy
    | stop => simp

end Rotor

/-- A kick that was accepted: the periods that it takes, and those since in which the motor was
stopped. -/
structure Kick where
  duration : Nat
  stopped : Nat
  deriving DecidableEq, Repr

/-- The state with, for each rod, its rotational motor, and the kick of the strategy that the rod
has not been taken back from. -/
structure Kicking where
  state : State
  rotors : Int → Rotor
  raised : Int → Option Kick

/-- A handler call of `FoosLogic`, a call that `MotorController` makes for the handlers of pauses
and starts, or a period of the thread, with what `rodRotate` orders in it, and the rotational motors
after another use of them. -/
inductive KickEvent where
  | call (call : HandlerCall)
  | stopMotors
  | resumeMotors
  | period (period : Period) (turn : Turn) (others : Int → Rotor)

namespace Kicking

/-- The state after `setup` and `run`, whatever the rotational motors are doing. -/
def start (rotors : Int → Rotor) : Kicking :=
  ⟨State.setup, rotors, fun _ => none⟩

/-- The run after a call of the thread. A rotation is accepted by a motor that is `COMPLETE`, and
only one ordered by the strategy to the kick angle leaves the rod raised. A homing and a motor
command of the user may use any rotational motor. -/
def perform (normal : Prop) [Decidable normal] (turn : Turn) (others : Int → Rotor)
    (run : Kicking) : Call → Kicking
  | .rodRotate angle rod =>
      if (run.rotors rod).motor.state = .complete then
        { run with
          rotors := Function.update run.rotors rod ((run.rotors rod).rotate turn)
          raised := Function.update run.raised rod
            (if normal ∧ angle = 90 then some ⟨turn.duration, 0⟩ else none) }
      else run
  | .rodHome _ | .rodHomeResumes | .motorStep .. => { run with rotors := others }
  | .playerMove .. => run

/-- The kick one period later, with the state that its motor was in. -/
def waited (state : MotorState) (kick : Kick) : Kick :=
  if state = .stop then { kick with stopped := kick.stopped + 1 } else kick

/-- The run one period later, with the thread at a state. -/
def pass (next : State) (run : Kicking) : Kicking :=
  { state := next
    rotors := fun rod => (run.rotors rod).pass
    raised := fun rod => (run.raised rod).map (waited (run.rotors rod).motor.state) }

/-- The period as the thread meets it, with the state of the fullback's rotational motor. -/
def met (defs : FLUDefs) (run : Kicking) (period : Period) : Period :=
  { period with
    fullbackRotational := ((run.pass run.state).rotors defs.fullback).motor.state }

/-- The run after a period in which the thread gets to a state and makes calls on the way. -/
def carry (turn : Turn) (others : Int → Rotor) (run : Kicking) (next : State)
    (calls : List Call) : Kicking :=
  calls.foldl (perform run.state.InNormal turn others) (run.pass next)

/-- The run after a call of `Motor.c` on all motors. -/
def onMotors (change : Motor → Motor) (run : Kicking) : Kicking :=
  { run with rotors := fun rod => { run.rotors rod with motor := change (run.rotors rod).motor } }

/-- The run after an event. -/
def step (defs : FLUDefs) (rodIds : List Int) (run : Kicking) : KickEvent → Kicking
  | .call call => { run with state := (call.handler rodIds).run run.state }
  | .stopMotors => run.onMotors stopMotor
  | .resumeMotors => run.onMotors resumeMotor
  | .period period turn others =>
      let (next, calls) := wake defs (run.met defs period) run.state
      run.carry turn others next calls

/-- What is claimed of a state: a rod is raised only while the thread waits for its kick. So none
is when `_basicStrategy` has returned. -/
def Lowered (defs : FLUDefs) (run : Kicking) : Prop :=
  ∀ rod kick, run.raised rod = some kick → ∃ t, kickRound defs run.state.pc = some (rod, t)

/-- What is left of a kick in a round of the wait for it: a motor that is busy, or will be when it
is resumed, has worked on it in every period in which it was not stopped. -/
structure Working (t : Nat) (kick : Kick) (rotor : Rotor) : Prop where
  stopped : kick.stopped ≤ t
  busy : rotor.motor.state = .busy ∨ rotor.motor.prevState = .busy →
    rotor.left = kick.duration - (t - kick.stopped)
  complete : rotor.motor.state = .complete → rotor.motor.prevState = .busy → rotor.left = 0

/-- While the thread waits for a kick that was accepted, the motor works on it. -/
def Timed (defs : FLUDefs) (run : Kicking) : Prop :=
  ∀ rod t, kickRound defs run.state.pc = some (rod, t) →
    t < 10 ∧ ∀ kick, run.raised rod = some kick → Working t kick (run.rotors rod)

/-- A kick is over at the end of the wait in exactly the condition on the period. -/
theorem Working.pass_complete_iff {kick : Kick} {rotor : Rotor} (h : Working 9 kick rotor) :
    rotor.pass.motor.state = .complete ↔ rotor.motor.state ≠ .stop ∧
      (rotor.motor.state = .busy → kick.duration + kick.stopped ≤ 10) := by
  rw [Rotor.pass_complete_iff]
  refine and_congr_right fun _ => forall_congr' fun hbusy => ?_
  have hstopped := h.stopped
  rw [h.busy (Or.inl hbusy)]
  omega

/-- The motor works on in a period. -/
theorem Working.pass {t : Nat} {kick : Kick} {rotor : Rotor} (h : Working t kick rotor) :
    Working (t + 1) (waited rotor.motor.state kick) rotor.pass := by
  have hstopped := h.stopped
  cases hstate : rotor.motor.state with
  | busy =>
      have hleft := h.busy (Or.inl hstate)
      have hsame : waited .busy kick = kick := if_neg (by decide)
      have hpassed : rotor.pass.left = rotor.left - 1 := by rw [Rotor.pass_of_busy hstate]
      rw [hsame]
      refine ⟨Nat.le_succ_of_le hstopped, fun _ => ?_, fun hcomplete _ => ?_⟩
      · rw [hpassed, hleft]
        omega
      · have hlast := (Rotor.pass_complete_iff.mp hcomplete).2 hstate
        rw [hpassed]
        omega
  | complete =>
      have hsame : waited .complete kick = kick := if_neg (by decide)
      have hbusy : rotor.motor.state ≠ .busy := by rw [hstate]; decide
      rw [hsame, Rotor.pass_of_not_busy hbusy]
      refine ⟨Nat.le_succ_of_le hstopped, fun hsaved => ?_, h.complete⟩
      have hprev := hsaved.resolve_left hbusy
      have hleft := h.busy (Or.inr hprev)
      have hover := h.complete hstate hprev
      omega
  | stop =>
      have hmore : waited .stop kick = { kick with stopped := kick.stopped + 1 } := if_pos rfl
      have hbusy : rotor.motor.state ≠ .busy := by rw [hstate]; decide
      rw [hmore, Rotor.pass_of_not_busy hbusy]
      refine ⟨Nat.succ_le_succ hstopped, fun hsaved => ?_, h.complete⟩
      rw [h.busy hsaved]
      show _ = kick.duration - (t + 1 - (kick.stopped + 1))
      rw [Nat.add_sub_add_right]

/-- A motor that is stopped goes on with its kick when it is resumed. -/
theorem Working.stop {t : Nat} {kick : Kick} {rotor : Rotor} (h : Working t kick rotor) :
    Working t kick { rotor with motor := stopMotor rotor.motor } := by
  refine ⟨h.stopped, fun hbusy => h.busy (Or.inl ?_), fun hcomplete => ?_⟩
  · exact hbusy.resolve_left MotorState.noConfusion
  · cases hcomplete

section Calls

variable {normal : Prop} [Decidable normal] {turn : Turn} {others : Int → Rotor} {run : Kicking}

end Calls

variable {defs : FLUDefs} {rodIds : List Int} {run : Kicking}

/-- A handler call of `FoosLogic` does not concern the kicks. -/
theorem step_call (call : HandlerCall) :
    (Lowered defs (run.step defs rodIds (.call call)) ↔ Lowered defs run) ∧
      (Timed defs (run.step defs rodIds (.call call)) ↔ Timed defs run) := by
  have hpc : (run.step defs rodIds (.call call)).state.pc = run.state.pc :=
    pc_run rodIds call run.state
  unfold Lowered Timed
  rw [hpc]
  exact ⟨Iff.rfl, Iff.rfl⟩

section Period

variable {next : State} {calls : List Call} {turn : Turn} {others : Int → Rotor} {rod : Int}
  {t : Nat}

end Period

/-- All motors have been created, and nothing has been ordered of them. -/
def idle : Int → Rotor :=
  fun _ => ⟨Motor.normal FLUDefs.small 0, 0⟩

/-- Periods in which the ball is near the goalie, and rotations take some number of periods. The
position is laser 4 on the x axis and laser 8 on the y axis. -/
def nearGoalie (duration periods : Nat) : List KickEvent :=
  List.replicate periods (.period { Period.quiet true with position := ⟨8, 16, 0⟩ }
    ⟨1, 0, 0, duration, Nat.one_pos⟩ idle)

/-- Play is started, and the ball comes near the goalie. -/
def goalieKick (duration periods : Nat) : List KickEvent :=
  .call .startPlay :: nearGoalie duration periods

/-- A kick that takes three periods, and a pause before the rod is ordered back. -/
def pausedKick : List KickEvent :=
  goalieKick 3 4 ++ [.stopMotors, .call .pause] ++ nearGoalie 3 507 ++
    [.resumeMotors, .call .startPlay] ++ nearGoalie 3 1

/-- The strategy has returned, the game goes on, and the rod is still raised. -/
example :
    (pausedKick.foldl (step FLUDefs.small [0, 1]) (start idle)).state.pc = .innerWait ∧
      (pausedKick.foldl (step FLUDefs.small [0, 1]) (start idle)).raised 0 = some ⟨3, 507⟩ := by
  decide +kernel

end Kicking

end FoosballTable.Logic
