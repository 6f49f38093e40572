import FoosballTable.Logic.Model

/-!
# What one period of the thread can do

`wake` never writes the parameters of a command, and touches `_mode` only to reset it after a
one-shot command. `wake_case` lists the ways a period can go; the invariants of the mailbox are
proved from this list and not from the definition of `wake`.
-/

namespace FoosballTable.Logic

/-- The command held in `_mode` and its parameter fields, as the call the thread makes for it. -/
def State.held (state : State) : Option Call :=
  match state.mode with
  | .home => some (.rodHome state.currentRod)
  | .userCommand =>
      some (.motorStep state.userCmdSteps state.userCmdDir state.userCmdWait state.userCmdMotorId)
  | .userCommandRot => some (.rodRotate state.userRot.angle state.userRot.id)
  | .normal | .doNothing => none

/-- The variables the handlers write and the thread only reads. -/
def State.written (state : State) : Bool × Nat × (Int × Int × Int × Int) × UserCmdRot :=
  (state.start, state.currentRod,
    (state.userCmdMotorId, state.userCmdSteps, state.userCmdWait, state.userCmdDir),
    state.userRot)

/-- The command held depends on the mode and the variables the handlers write. -/
theorem held_congr {state other : State} (hmode : state.mode = other.mode)
    (hwritten : state.written = other.written) : state.held = other.held := by
  simp only [State.written, Prod.mk.injEq] at hwritten
  obtain ⟨-, hrod, ⟨hmotor, hsteps, hwait, hdir⟩, hrot⟩ := hwritten
  simp only [State.held, hmode, hrod, hmotor, hsteps, hwait, hdir, hrot]

@[simp] theorem loop_test_mode (state : State) : (loopTest state).mode = state.mode := rfl

@[simp] theorem finish_command_mode (state : State) :
    (finishCommand state).mode = .doNothing := rfl

/-- After the tests of the loops the thread is parked in one of the two loops. -/
theorem loop_test_not_homing (state : State) : (loopTest state).pc ≠ .homing := by
  unfold loopTest
  cases state.start <;> simp

/-- A stopped thread stays parked in the outer loop. -/
theorem loop_test_stopped {state : State} (hstart : state.start = false)
    (hpc : state.pc = .outerWait) : loopTest state = state := by
  cases state
  simp_all [loopTest]

variable (defs : FLUDefs)

/-- The strategy leaves the mailbox alone and does not home. -/
theorem fullback_strategy_keeps (period : Period) (state : State) :
    (fullbackStrategy defs period state).1.written = state.written ∧
      (fullbackStrategy defs period state).1.mode = state.mode ∧
      (fullbackStrategy defs period state).1.pc ≠ .homing := by
  unfold fullbackStrategy
  split
  · exact ⟨rfl, rfl, by simp⟩
  · split
    · exact ⟨rfl, rfl, loop_test_not_homing state⟩
    · split <;> exact ⟨rfl, rfl, loop_test_not_homing state⟩

/-- The strategy leaves the mailbox alone and does not home. -/
theorem basic_strategy_keeps (period : Period) (state : State) :
    (basicStrategy defs period state).1.written = state.written ∧
      (basicStrategy defs period state).1.mode = state.mode ∧
      (basicStrategy defs period state).1.pc ≠ .homing := by
  unfold basicStrategy
  split
  · dsimp only
    split
    · exact ⟨rfl, rfl, by simp⟩
    · exact fullback_strategy_keeps defs period state
  · exact ⟨rfl, rfl, loop_test_not_homing state⟩

/-- The ways a period can go, as far as the mailbox is concerned. -/
inductive WakeCase (state next : State) (calls : List Call) : Prop where
  /-- A one-shot command is carried out and the mode is reset. -/
  | answered (call : Call) (hpc : state.pc = .innerWait) (hheld : state.held = some call)
      (hcalls : calls = [call]) (hmode : next.mode = .doNothing) (hnext : next.pc ≠ .homing)
  /-- `rodHome` is called and waits. -/
  | homingStarted (call : Call) (hpc : state.pc = .innerWait) (hheld : state.held = some call)
      (hcalls : calls = [call]) (hmode : next.mode = state.mode) (hnext : next.pc = .homing)
      (hhome : state.mode = .home)
  /-- `rodHome` waits on. -/
  | homingContinues (hpc : state.pc = .homing) (hnext : next = state)
  /-- `rodHome` returns and the mode is reset. -/
  | homingReturned (hpc : state.pc = .homing) (hmode : next.mode = .doNothing)
      (hnext : next.pc ≠ .homing)
  /-- No command is concerned. -/
  | other (hpc : state.pc ≠ .homing) (hheld : state.pc = .innerWait → state.held = none)
      (hmode : next.mode = state.mode) (hnext : next.pc ≠ .homing)

/-- An iteration of the inner loop does not write what the handlers write. -/
theorem iteration_written (period : Period) (state : State) :
    (iteration defs period state).1.written = state.written := by
  unfold iteration
  split
  · dsimp only
    split <;> rfl
  · exact (basic_strategy_keeps defs period _).1
  · rfl
  · rfl
  · rfl

/-- A period does not write what the handlers write. -/
theorem wake_written (period : Period) (state : State) :
    (wake defs period state).1.written = state.written := by
  unfold wake
  split
  · rfl
  · exact iteration_written defs period state
  · dsimp only
    split <;> rfl
  · split <;> rfl
  · split
    · rfl
    · exact (fullback_strategy_keeps defs period state).1
  · split <;> rfl
  · split <;> rfl

/-- An iteration of the inner loop carries out the command held, or concerns none. -/
theorem iteration_case (period : Period) {state : State} (hpc : state.pc = .innerWait) :
    WakeCase state (iteration defs period state).1 (iteration defs period state).2 := by
  have hnot : state.pc ≠ .homing := by simp [hpc]
  unfold iteration
  split
  case h_1 hmode =>
    have hheld : state.held = some (.rodHome state.currentRod) := by simp [State.held, hmode]
    dsimp only
    split
    · exact .answered _ hpc hheld rfl rfl (loop_test_not_homing _)
    · exact .homingStarted _ hpc hheld rfl rfl rfl hmode
  case h_2 hmode =>
    obtain ⟨-, hkeep, hnext⟩ := basic_strategy_keeps defs period
      { state with
        ballPos :=
          { x := tableCoordX period.position.x
            y := clampY defs (tableCoordY period.position.y)
            time := period.position.time } }
    exact .other hnot (fun _ => by simp [State.held, hmode]) hkeep hnext
  case h_3 hmode =>
    exact .answered _ hpc (by simp [State.held, hmode]) rfl rfl (loop_test_not_homing _)
  case h_4 hmode =>
    exact .answered _ hpc (by simp [State.held, hmode]) rfl rfl (loop_test_not_homing _)
  case h_5 hmode =>
    exact .other hnot (fun _ => by simp [State.held, hmode]) rfl (loop_test_not_homing state)

/-- The inversion of a period. -/
theorem wake_case (period : Period) (state : State) :
    WakeCase state (wake defs period state).1 (wake defs period state).2 := by
  unfold wake
  split
  case h_1 hpc =>
    exact .other (by simp [hpc]) (by simp [hpc]) rfl (loop_test_not_homing state)
  case h_2 hpc => exact iteration_case defs period hpc
  case h_3 hpc =>
    dsimp only
    split
    · exact .homingReturned hpc rfl (loop_test_not_homing _)
    · exact .homingContinues hpc rfl
  case h_4 t hpc =>
    split <;> exact .other (by simp [hpc]) (by simp [hpc]) rfl (by simp)
  case h_5 t hpc =>
    split
    · exact .other (by simp [hpc]) (by simp [hpc]) rfl (by simp)
    · obtain ⟨-, hkeep, hnext⟩ := fullback_strategy_keeps defs period state
      exact .other (by simp [hpc]) (by simp [hpc]) hkeep hnext
  case h_6 t hpc =>
    split <;> exact .other (by simp [hpc]) (by simp [hpc]) rfl (by simp)
  case h_7 t hpc =>
    split
    · exact .other (by simp [hpc]) (by simp [hpc]) rfl (by simp)
    · exact .other (by simp [hpc]) (by simp [hpc]) rfl (loop_test_not_homing state)

/-- A period keeps the mode or resets it. -/
theorem wake_keeps_or_resets (period : Period) (state : State) :
    (wake defs period state).1.mode = state.mode ∨
      (wake defs period state).1.mode = .doNothing := by
  cases wake_case defs period state with
  | answered _ _ _ _ hmode | homingReturned _ hmode => exact Or.inr hmode
  | homingStarted _ _ _ _ hmode | other _ _ hmode => exact Or.inl hmode
  | homingContinues _ hnext => exact Or.inl (congrArg State.mode hnext)

/-- A stopped thread in the outer loop does nothing. -/
theorem wake_stopped (period : Period) {state : State} (hstart : state.start = false)
    (hpc : state.pc = .outerWait) : (wake defs period state).1 = state := by
  simp only [wake, hpc]
  exact loop_test_stopped hstart hpc

end FoosballTable.Logic
