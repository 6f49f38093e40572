import FoosballTable.Library.Runs
import FoosballTable.Logic.Thread
import FoosballTable.Motors.Account
import FoosballTable.System.Model

/-!
# Gameplay and the pause

Three flags tell whether the system runs: `_start` of `FoosLogic`, `_start` of the tracker, and
the states of the motors. The start pipe sets all of them; the commands `start` and `home` of the
shell set only the first one. `gameplay_live_iff` says exactly when the thread never plays or
homes on a system whose tracker or motors are stopped.
-/

namespace FoosballTable.System

open Library Motors

variable {defs : FLUDefs} {setting : Setting} {state : State defs}

/-- If the thread plays or homes, the tracker runs and no motor is stopped. -/
def State.Live (state : State defs) : Prop :=
  state.logic.start = true → (state.logic.mode = .normal ∨ state.logic.mode = .home) →
    state.tracker.start = true ∧ state.registry.Running

instance (state : State defs) : Decidable state.Live := inferInstanceAs (Decidable (_ → _))

/-- What is assumed of the code outside the repository: `Rod.c` neither stops nor resumes the
motors, and a tick stops none. -/
def Occurrence.Assumed : Occurrence defs → Prop
  | .logicPeriod _ rod => ∀ call, .stopMotors ∉ rod call ∧ .resumeMotors ∉ rod call
  | .tick _ effect => ∀ motor, (effect.change motor).state = .stop → motor.state = .stop
  | _ => True

/-- The condition on an occurrence: the start pipe is used only when no motor would be resumed
to `stop`, and `start` and `home` of the shell only while the tracker and the motors run. -/
def Timely (setting : Setting) (state : State defs) : Occurrence defs → Prop
  | .startHandler => ∀ motor ∈ state.registry.motors, motor.prevState ≠ .stop
  | .commandLine (.call .startPlay) => state.tracker.start = true ∧ state.registry.Running
  | .commandLine (.call (.home id)) =>
      Logic.findRod setting.rodIds id ≠ none →
        state.tracker.start = true ∧ state.registry.Running
  | _ => True

/-! ## Motors that keep running -/

section Registries

variable {capacity : Nat} {registry : Registry capacity}

/-- A change of one motor that stops none keeps the registry running. -/
theorem running_modify (h : registry.Running) {next : Registry capacity} {position : Nat}
    {change : Motor → Motor} (hnext : next.motors = registry.motors.modify position change)
    (hchange : ∀ motor, (change motor).state = .stop → motor.state = .stop) : next.Running := by
  intro motor hmotor hstop
  obtain ⟨index, hindex⟩ := List.mem_iff_getElem?.mp hmotor
  rw [hnext, List.getElem?_modify] at hindex
  split at hindex
  · obtain ⟨before, hbefore, rfl⟩ := Option.map_eq_some_iff.mp hindex
    exact h before (List.mem_of_getElem? hbefore) (hchange before hstop)
  · rw [Option.map_eq_map, Option.map_id_fun', id] at hindex
    exact h motor (List.mem_of_getElem? hindex) hstop

/-- A step stops no motor. -/
theorem motor_step_stop {motor : Motor} {numberOfSteps cyclesToWait : Nat} {direction : Int}
    (h : (motorStep numberOfSteps direction cyclesToWait motor).2.state = .stop) :
    motor.state = .stop := by
  unfold motorStep at h
  split at h
  · split at h
    · cases h
    · exact h
  · exact h

/-- Calls that neither stop nor resume the motors keep them running. -/
theorem running_run (h : registry.Running) (defs : FLUDefs) {call : MotorCall}
    (hstop : call ≠ .stopMotors) (hresume : call ≠ .resumeMotors) :
    (call.run defs registry).Running := by
  cases call with
  | createNewMotor bitPosition =>
      intro motor hmotor
      rw [MotorCall.run, create_new_motor_motors] at hmotor
      split at hmotor
      · rcases List.mem_append.mp hmotor with hold | hnew
        · exact h motor hold
        · rw [List.mem_singleton.mp hnew]
          exact fun hstop => by cases hstop
      · exact h motor hmotor
  | motorStep numberOfSteps direction cyclesToWait position =>
      exact running_modify h rfl fun motor => motor_step_stop
  | stopMotors => exact absurd rfl hstop
  | resumeMotors => exact absurd rfl hresume

/-- The same for any number of such calls. -/
theorem running_run_all (h : registry.Running) (defs : FLUDefs) (calls : List MotorCall)
    (hcalls : .stopMotors ∉ calls ∧ .resumeMotors ∉ calls) :
    (calls.foldl (MotorCall.run defs) registry).Running := by
  have hothers : ∀ call ∈ calls, call ≠ .stopMotors ∧ call ≠ .resumeMotors := by
    intro call hmem
    exact ⟨fun heq => hcalls.1 (heq ▸ hmem), fun heq => hcalls.2 (heq ▸ hmem)⟩
  have hstep : ∀ (registry : Registry capacity) (call : MotorCall), registry.Running →
      call ≠ .stopMotors ∧ call ≠ .resumeMotors → (call.run defs registry).Running :=
    fun _ _ hrunning hcall => running_run hrunning defs hcall.1 hcall.2
  exact last_of_forall hstep h hothers

/-- A resume leaves the motors running exactly when no slot holds `stop`. -/
theorem running_resume_iff (registry : Registry capacity) :
    (resumeMotors registry).2.Running ↔
      ∀ motor ∈ registry.motors, motor.prevState ≠ .stop := by
  unfold Registry.Running
  simp only [resume_motors_motors, List.forall_mem_map]
  exact Iff.rfl

end Registries

/-- A call of the `FoosLogic` thread keeps the motors running. -/
theorem running_run_call {registry : Registry defs.numberOfMotors} (h : registry.Running)
    (setting : Setting) {rod : Logic.Call → List MotorCall}
    (hrod : ∀ call, .stopMotors ∉ rod call ∧ .resumeMotors ∉ rod call) (call : Logic.Call) :
    (runCall setting rod registry call).Running := by
  cases call with
  | motorStep steps dir wait motor =>
      have hstop : MotorCall.motorStep (uint32 steps) dir (uint32 wait) (setting.getMotor motor) ≠
          .stopMotors := by simp
      exact running_run h defs hstop (by simp)
  | rodHome | rodHomeResumes | rodRotate | playerMove =>
      exact running_run_all h defs _ (hrod _)

/-- A period of the thread keeps the motors running. -/
theorem running_run_calls {registry : Registry defs.numberOfMotors} (h : registry.Running)
    (setting : Setting) {rod : Logic.Call → List MotorCall}
    (hrod : ∀ call, .stopMotors ∉ rod call ∧ .resumeMotors ∉ rod call) (calls : List Logic.Call) :
    (calls.foldl (runCall setting rod) registry).Running := by
  have hstep : ∀ (registry : Registry defs.numberOfMotors) (call : Logic.Call),
      registry.Running → (runCall setting rod registry call).Running :=
    fun _ call hrunning => running_run_call hrunning setting hrod call
  exact (throughout_of_invariant hstep h calls).last

/-! ## The system -/

/-- A period of the thread keeps a live system live: it does not touch `_start`, and `_mode` only
to reset it. -/
theorem live_logic_period (h : state.Live) (period : Logic.Period)
    {rod : Logic.Call → List MotorCall}
    (hrod : ∀ call, .stopMotors ∉ rod call ∧ .resumeMotors ∉ rod call) :
    (step setting state (.logicPeriod period rod)).Live := by
  intro hstart hmode
  have hwritten := Logic.wake_written defs
    { period with position := Tracker.getBallPosition state.tracker } state.logic
  have hkept : state.logic.start = true := by
    simp only [Logic.State.written, Prod.mk.injEq] at hwritten
    rw [← hwritten.1]
    exact hstart
  have hmode' : state.logic.mode = .normal ∨ state.logic.mode = .home := by
    rcases Logic.wake_keeps_or_resets defs
      { period with position := Tracker.getBallPosition state.tracker } state.logic with
      hkeep | hreset
    · rw [← hkeep]
      exact hmode
    · rcases hmode with hnormal | hhome
      · cases hreset.symm.trans hnormal
      · cases hreset.symm.trans hhome
  obtain ⟨htracker, hrunning⟩ := h hkept hmode'
  exact ⟨htracker, running_run_calls hrunning setting hrod _⟩

/-- A command of the shell that plays or homes leaves a live system exactly when the tracker and
the motors run; any other one leaves the system live. -/
theorem live_command_iff (h : state.Live) (action : Command.Action) :
    (occur setting state (.commandLine action)).Live ↔
      Timely setting state (.commandLine action) := by
  cases action with
  | call call =>
      cases call with
      | startPlay => exact ⟨fun hlive => hlive rfl (Or.inl rfl), fun hlive _ _ => hlive⟩
      | pause => exact iff_of_true (fun hstart => by cases hstart) trivial
      | home id =>
          simp only [Timely]
          cases hfind : Logic.findRod setting.rodIds id with
          | none =>
              -- no rod has the id: `_mode` is reset before `home` fails
              refine iff_of_true ?_ (fun hne => absurd rfl hne)
              intro _ hmode
              have hnothing : (occur setting state (.commandLine (.call (.home id)))).logic.mode =
                  .doNothing := by
                show ((Logic.home setting.rodIds id).run state.logic).mode = .doNothing
                rw [Logic.home, hfind]
                rfl
              rw [hnothing] at hmode
              rcases hmode with hmode | hmode <;> cases hmode
          | some t =>
              have hrun : (occur setting state (.commandLine (.call (.home id)))).logic =
                  { state.logic with start := true, mode := .home, currentRod := t } := by
                show (Logic.home setting.rodIds id).run state.logic = _
                rw [Logic.home, hfind]
                rfl
              constructor
              · intro hlive _
                exact hlive (by rw [hrun]) (Or.inr (by rw [hrun]))
              · intro htimely _ _
                exact htimely (by simp)
      | userCommandMotor motor steps wait dir | userRotateRod id angle wait dir =>
          refine iff_of_true ?_ trivial
          intro _ hmode
          rcases hmode with hmode | hmode <;> cases hmode
  | setBallTrackingMode mode =>
      refine iff_of_true ?_ trivial
      intro hstart hmode
      cases mode with
      | normal | longCount => exact h hstart hmode
  | invalidMode | invalidCommand => exact iff_of_true h trivial

/-- Under the assumptions, an occurrence leaves a live system live exactly when it is timely. -/
theorem live_occur_iff (h : state.Live) {occurrence : Occurrence defs}
    (hassumed : occurrence.Assumed) :
    (occur setting state occurrence).Live ↔ Timely setting state occurrence := by
  cases occurrence with
  | pauseHandler => exact iff_of_true (fun hstart => by cases hstart) trivial
  | startHandler =>
      have hresume := running_resume_iff state.registry
      exact ⟨fun hlive => hresume.mp (hlive rfl (Or.inl rfl)).2,
        fun htimely _ _ => ⟨rfl, hresume.mpr htimely⟩⟩
  | commandLine action => exact live_command_iff h action
  | logicPeriod period rod => exact iff_of_true (live_logic_period h period hassumed) trivial
  | trackerPeriod xSample ySample =>
      refine iff_of_true ?_ trivial
      intro hstart hmode
      obtain ⟨htracker, hrunning⟩ := h hstart hmode
      exact ⟨(Tracker.wake_start xSample ySample state.tracker).trans htracker, hrunning⟩
  | tick position effect =>
      refine iff_of_true ?_ trivial
      intro hstart hmode
      obtain ⟨htracker, hrunning⟩ := h hstart hmode
      exact ⟨htracker, running_modify hrunning rfl hassumed⟩

/-- From the state that `init_module` leaves, the thread plays and homes on a live system only in
exactly the runs whose occurrences are all timely. -/
theorem gameplay_live_iff (setting : Setting) (x : Tracker.Axis defs.numberXRx)
    (y : Tracker.Axis defs.numberYRx) (bitPositions : List Nat)
    (occurrences : List (Occurrence defs))
    (hassumed : ∀ occurrence ∈ occurrences, occurrence.Assumed) :
    Throughout (occur setting) State.Live (State.init x y bitPositions) occurrences ↔
      Along (occur setting) (Timely setting) (State.init x y bitPositions) occurrences := by
  have hinv : ∀ (state : State defs) (occurrence : Occurrence defs), True → state.Live →
      Timely setting state occurrence → True := fun _ _ _ _ _ => trivial
  have hexact : ∀ (state : State defs) (occurrence : Occurrence defs), occurrence.Assumed → True →
      state.Live → ((occur setting state occurrence).Live ↔ Timely setting state occurrence) :=
    fun _ _ hassumed _ hlive => live_occur_iff hlive hassumed
  have hstopped : (State.init x y bitPositions).Live := fun hstart => by cases hstart
  exact throughout_iff_along hinv hexact trivial hstopped hassumed

/-- The shell's `start` and `home` play and home on a paused system, and the start pipe does not
revive one that was paused twice. -/
theorem shell_revives_paused_game :
    ¬ Throughout (occur Setting.small) State.Live twoMotorSystem
        [.pauseHandler, .commandLine (.call .startPlay)] ∧
      ¬ Throughout (occur Setting.small) State.Live twoMotorSystem
        [.pauseHandler, .commandLine (.call (.home 1))] ∧
      ¬ Throughout (occur Setting.small) State.Live twoMotorSystem
        [.pauseHandler, .pauseHandler, .startHandler] := by
  decide

/-- A game that is started from the shell, paused, started again by the start pipe, and in which a
rod is homed. -/
def timelySession : List (Occurrence FLUDefs.small) :=
  [.commandLine (.call .startPlay), .logicPeriod (.quiet true) fun _ => [], .pauseHandler,
    .logicPeriod (.quiet true) fun _ => [], .startHandler, .commandLine (.call (.home 1)),
    .logicPeriod (.quiet true) fun _ => [.motorStep 3 0 1 1]]

/-- It stays live. -/
theorem timely_session_live :
    Throughout (occur Setting.small) State.Live twoMotorSystem timelySession :=
  (gameplay_live_iff Setting.small _ _ _ timelySession
    (by simp [timelySession, Occurrence.Assumed])).mpr
    ⟨⟨by decide, by decide⟩, trivial, trivial, trivial, (by unfold Timely; decide),
      fun _ => ⟨by decide, by decide⟩, trivial, trivial⟩

end FoosballTable.System
