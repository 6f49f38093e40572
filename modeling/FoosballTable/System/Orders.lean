import FoosballTable.System.Model

/-!
# The steps that a motor command orders

`userCommandMotor` stores the steps and the wait of a command as an `int` each, and the thread
passes them on to `motorStep`, which takes both unsigned and tests only whether the steps are
zero. `steps_ordered_iff` says which orders it carries out as they were given.
-/

namespace FoosballTable.System

open Motors Library

variable {defs : FLUDefs}

/-- What `motorStep` returns for the `int`s of a motor command, with the motor it leaves. -/
def orderSteps (steps dir wait : Int) (motor : Motor) : Status × Motor :=
  motorStep (uint32 steps) dir (uint32 wait) motor

/-- What is claimed of an order. A success either was an order of no steps and changed nothing, or
leaves the motor busy with two edges for each step, the wait and the direction of the order; a
failure changes nothing. -/
def OrdersExactly (steps dir wait : Int) (motor : Motor) : Status × Motor → Prop
  | (.success, ordered) =>
      0 ≤ steps ∧
        (steps = 0 ∧ ordered = motor ∨
          ordered.state = .busy ∧ (ordered.edgeToSend = 2 * steps ∧ 0 < ordered.edgeToSend) ∧
            (ordered.cyclesToWait = wait ∧ 0 ≤ wait) ∧ ordered.direction = dir)
  | (.failure, ordered) => ordered = motor

/-- The condition on an order: it is refused, or it is for no steps, or neither the steps nor the
wait are negative. -/
def Orderable (steps wait : Int) (motor : Motor) : Prop :=
  motor.state ≠ .complete ∨ steps = 0 ∨ 0 < steps ∧ 0 ≤ wait

instance (steps wait : Int) (motor : Motor) : Decidable (Orderable steps wait motor) :=
  inferInstanceAs (Decidable (_ ∨ _))

/-- The thread passes a motor command that it finds in the inner loop on to `motorStep`, for the
motor of the command and for no other one. -/
theorem user_command_ordered (setting : Setting) (state : State defs)
    (hpc : state.logic.pc = .innerWait) (period : Logic.Period)
    (rod : Logic.Call → List MotorCall) (motor steps wait dir : Int) :
    (([.logic (.userCommandMotor motor steps wait dir), .logicPeriod period rod] :
        List (Event defs)).foldl (step setting) state).registry.motors =
      state.registry.motors.modify (setting.getMotor motor) fun motor =>
        (orderSteps steps dir wait motor).2 := by
  simp only [List.foldl_cons, List.foldl_nil, step, Logic.HandlerCall.handler]
  have hwake : ∀ period : Logic.Period,
      (Logic.wake defs period ((Logic.userCommandMotor motor steps wait dir).run state.logic)).2 =
        [.motorStep steps dir wait motor] := by
    intro period
    simp [Logic.wake, Logic.iteration, Logic.userCommandMotor, Logic.Handler.run,
      Logic.Assignment.apply, hpc]
  rw [hwake]
  rfl

/-- An order that is not negative is carried out as it was given. -/
theorem orders_exactly_of_pos {steps wait : Int} (hsteps : IsInt steps) (hwait : IsInt wait)
    (hpos : 0 < steps) (hnonneg : 0 ≤ wait) (dir : Int) {motor : Motor}
    (hcomplete : motor.state = .complete) :
    OrdersExactly steps dir wait motor (orderSteps steps dir wait motor) := by
  have hedges := uint32_of_nonneg hsteps (Int.le_of_lt hpos)
  have hcycles := uint32_of_nonneg hwait hnonneg
  have hlt := hsteps.2
  rw [orderSteps, motor_step_accepted hcomplete (by omega) (by omega)]
  refine ⟨Int.le_of_lt hpos, .inr ⟨rfl, ⟨?_, ?_⟩, ⟨hcycles, hnonneg⟩, rfl⟩⟩
  · show ((2 * uint32 steps : Nat) : Int) = 2 * steps
    omega
  · show 0 < 2 * uint32 steps
    omega

/-- An order with steps that `motorStep` accepts is a success. -/
theorem order_steps_accepted {steps : Int} (hsteps : IsInt steps) (hne : steps ≠ 0)
    (dir wait : Int) {motor : Motor} (hcomplete : motor.state = .complete) :
    ∃ edges, orderSteps steps dir wait motor =
      (.success,
        { motor with
          direction := dir
          edgeToSend := edges
          cyclesToWait := uint32 wait
          state := .busy }) := by
  have hpos : uint32 steps > 0 := by
    obtain ⟨hlo, hhi⟩ := hsteps
    unfold uint32
    omega
  exact ⟨_, by rw [orderSteps, motorStep, if_pos hcomplete, if_pos hpos]⟩

/-- A motor command reaches `motorStep`, and what that does is the order as it was given exactly
when the order meets the condition. -/
theorem steps_ordered_iff (setting : Setting) (state : State defs)
    (hpc : state.logic.pc = .innerWait) (period : Logic.Period)
    (rod : Logic.Call → List MotorCall) (id dir : Int) {steps wait : Int} (hsteps : IsInt steps)
    (hwait : IsInt wait) :
    (([.logic (.userCommandMotor id steps wait dir), .logicPeriod period rod] :
        List (Event defs)).foldl (step setting) state).registry.motors =
      (state.registry.motors.modify (setting.getMotor id) fun motor =>
        (orderSteps steps dir wait motor).2) ∧
    ∀ motor, OrdersExactly steps dir wait motor (orderSteps steps dir wait motor) ↔
      Orderable steps wait motor := by
  refine ⟨user_command_ordered setting state hpc period rod id steps wait dir, ?_⟩
  intro motor
  by_cases hcomplete : motor.state = .complete
  · by_cases hzero : steps = 0
    · subst hzero
      refine iff_of_true ?_ (.inr (.inl rfl))
      have hstatus : orderSteps 0 dir wait motor = (.success, motor) := by
        simp [orderSteps, motorStep, hcomplete, uint32]
      rw [hstatus]
      exact ⟨Int.le_refl 0, .inl ⟨rfl, rfl⟩⟩
    · constructor
      · intro hexact
        obtain ⟨edges, hordered⟩ := order_steps_accepted hsteps hzero dir wait hcomplete
        rw [hordered] at hexact
        obtain ⟨hnonneg, ⟨hzero', -⟩ | ⟨-, -, ⟨-, hwait'⟩, -⟩⟩ := hexact
        · exact absurd hzero' hzero
        · exact .inr (.inr ⟨by omega, hwait'⟩)
      · intro horderable
        obtain ⟨hpos, hnonneg⟩ :=
          (horderable.resolve_left (not_not_intro hcomplete)).resolve_left hzero
        exact orders_exactly_of_pos hsteps hwait hpos hnonneg dir hcomplete
  · refine iff_of_true ?_ (.inl hcomplete)
    rw [orderSteps, motor_step_rejected hcomplete]
    rfl

/-- Play is started and a motor command is carried out. -/
def commandedRun (steps wait : Int) : List (Event FLUDefs.small) :=
  [.logic .startPlay, .logicPeriod (.quiet true) fun _ => [],
    .logic (.userCommandMotor 0 steps wait 1), .logicPeriod (.quiet true) fun _ => []]

/-- An order of -1 steps is accepted and makes a motor busy with almost 2^32 edges to send, and so
is a wait of -1 cycles. -/
theorem negative_order_accepted :
    ((((commandedRun (-1) 10).foldl (step Setting.small) twoMotorSystem).registry.motors[0]?.map
          fun motor => (motor.state, motor.edgeToSend, motor.cyclesToWait)) =
        some (.busy, 4294967294, 10) ∧
      ¬ OrdersExactly (-1) 1 10 (Motor.normal FLUDefs.small 0)
        (orderSteps (-1) 1 10 (Motor.normal FLUDefs.small 0))) ∧
    (((commandedRun 5 (-1)).foldl (step Setting.small) twoMotorSystem).registry.motors[0]?.map
          fun motor => (motor.state, motor.edgeToSend, motor.cyclesToWait)) =
        some (.busy, 10, 4294967295) ∧
      ¬ OrdersExactly 5 1 (-1) (Motor.normal FLUDefs.small 0)
        (orderSteps 5 1 (-1) (Motor.normal FLUDefs.small 0)) := by
  refine ⟨⟨by decide, ?_⟩, by decide, ?_⟩
  · intro hexact
    obtain ⟨hnonneg, -⟩ := hexact
    omega
  · intro hexact
    obtain ⟨-, ⟨hzero, -⟩ | ⟨-, -, ⟨-, hwait⟩, -⟩⟩ := hexact
    · cases hzero
    · omega

/-- An order of 200 steps makes a motor busy with 400 edges to send. -/
theorem order_of_steps_exact :
    OrdersExactly 200 1 10 (Motor.normal FLUDefs.small 0)
      (orderSteps 200 1 10 (Motor.normal FLUDefs.small 0)) :=
  ((steps_ordered_iff Setting.small
    (([.logic .startPlay, .logicPeriod (.quiet true) fun _ => []] :
      List (Event FLUDefs.small)).foldl (step Setting.small) twoMotorSystem)
    (by decide) (.quiet true) (fun _ => []) 0 1 (by decide) (by decide)).2 _).mpr (by decide)

end FoosballTable.System
