import FoosballTable.Command.Reading
import FoosballTable.Pipes.Device
import FoosballTable.System.Gameplay

/-!
# The pause key

The main loop of the user interface writes to the pipe of pauses for a space, to the pipe of starts
for an `s`, and keeps a flag `paused` of its own, for which it draws a text. What the text tells is
the state of the module on the other side of the pipes, where the threads go on between the calls of
the handlers and other processes use the pipe of commands. `Flags` says what each call does to the
tracker and to the motors, and `paused_shown` what that makes of the keys.
-/

namespace FoosballTable.Interface

open Library Motors Pipes FoosballTable.System

variable {defs : FLUDefs}

/-! ## The main loop -/

/-- The module, and the variables `done` and `paused` of `main`. -/
structure Session (defs : FLUDefs) where
  device : Device defs
  done : Bool
  paused : Bool

/-- What happens in a session: a round of the main loop, for the value of the event that the handler
of the interface has got; something on the pipe of commands, which the shell uses; or a beat. -/
inductive SessionEvent (defs : FLUDefs) where
  | key (value : String) (stack : Command.Stack) (beats : List (List (Beat defs)))
  | shell (event : PipeEvent) (stack : Command.Stack) (beats : List (List (Beat defs)))
  | beat (beat : Beat defs)

/-- The session after an event. -/
def Session.step (header : RtlFifoH) (setting : Setting) (session : Session defs) :
    SessionEvent defs → Option (Session defs)
  | .key value stack beats =>
      if session.done = true then some session
      else if value = "q" then some { session with done := true }
      else if value = "space" then
        (session.device.step header setting
          (.pipe .pause (.write (Command.bytes "pause")) stack beats)).map fun device =>
            { session with device := device, paused := true }
      else if value = "s" then
        (session.device.step header setting
          (.pipe .start (.write (Command.bytes "start")) stack beats)).map fun device =>
            { session with device := device, paused := false }
      else some session
  | .shell event stack beats =>
      (session.device.step header setting (.pipe .command event stack beats)).map fun device =>
        { session with device := device }
  | .beat beat =>
      (session.device.step header setting (.beat beat)).map fun device =>
        { session with device := device }

/-- The interface is started on the module that `init_module` leaves. -/
def Session.start (x : Tracker.Axis defs.numberXRx) (y : Tracker.Axis defs.numberYRx)
    (bitPositions : List Nat) : Session defs :=
  ⟨.init x y bitPositions, false, false⟩

/-- The key of an event, if it is one. -/
def SessionEvent.value : SessionEvent defs → List String
  | .key value _ _ => [value]
  | .shell _ _ _ | .beat _ => []

/-- The keys of a session. -/
def keys (events : List (SessionEvent defs)) : List String :=
  events.flatMap SessionEvent.value

/-- What the keys tell: whether the loop has ended, whether the text is shown, and whether a space
was pressed while it was. -/
structure Screen where
  done : Bool
  paused : Bool
  pausedTwice : Bool
  deriving DecidableEq, Repr

/-- What a key changes. -/
def Screen.press (screen : Screen) (value : String) : Screen :=
  if screen.done = true then screen
  else if value = "q" then { screen with done := true }
  else if value = "space" then
    ⟨false, true, screen.paused || screen.pausedTwice⟩
  else if value = "s" then { screen with paused := false }
  else screen

/-- The screen after some keys. -/
def Screen.of (values : List String) : Screen :=
  values.foldl Screen.press ⟨false, false, false⟩

/-! ## What is assumed -/

/-- `Rod.c` does nothing but step motors. -/
def StepsMotors (calls : List MotorCall) : Prop :=
  ∀ call ∈ calls, ∃ steps direction wait position,
    call = .motorStep steps direction wait position

/-- What is assumed of the code outside the repository: the calls of a period into `Rod.c` step
motors, and a tick neither stops a motor nor changes the state that is kept for a resume. Of the
functions of `Motor.c` the handlers call two. -/
def Usual : System.Event defs → Prop
  | .motors call => call = .stopMotors ∨ call = .resumeMotors
  | .logicPeriod _ rod => ∀ call, StepsMotors (rod call)
  | .tick _ effect => ∀ motor,
      ((effect.change motor).state = .stop ↔ motor.state = .stop) ∧
        (effect.change motor).prevState = motor.prevState
  | _ => True

/-- The beats between the calls of a handler are usual. -/
def UsualBeats (beats : List (List (Beat defs))) : Prop :=
  ∀ round ∈ beats, ∀ beat ∈ round, Usual beat.event

/-- The beats of the event are usual, and what the shell writes is not empty and, unless it is too
long for the handler, a line that ends. -/
def SessionEvent.Assumed : SessionEvent defs → Prop
  | .key _ _ beats => UsualBeats beats
  | .shell event _ beats =>
      (∀ bytes, event = .write bytes →
        bytes ≠ [] ∧ (bytes.length ≤ 100 → Command.Ends bytes)) ∧ UsualBeats beats
  | .beat one => Usual one.event

/-! ## What the calls do -/

/-- Whether the tracker runs, whether the motors are stopped, and whether a resume leaves them
stopped. -/
structure Flags where
  tracking : Bool
  stopped : Bool
  stuck : Bool
  deriving DecidableEq, Repr

/-- The flags after a call. -/
def Flags.step (flags : Flags) : System.Event defs → Flags
  | .motors .stopMotors => ⟨flags.tracking, true, flags.stopped⟩
  | .motors .resumeMotors => ⟨flags.tracking, flags.stuck, flags.stuck⟩
  | .startTracker => ⟨true, flags.stopped, flags.stuck⟩
  | .pauseTracker => ⟨false, flags.stopped, flags.stuck⟩
  | _ => flags

/-- A motor is stopped, now or after a resume, as the flags say. -/
structure Flags.OfMotor (flags : Flags) (motor : Motor) : Prop where
  state : motor.state = .stop ↔ flags.stopped = true
  prevState : motor.prevState = .stop ↔ flags.stuck = true

/-- The flags are those of the system. -/
structure Flags.Of (flags : Flags) (system : State defs) : Prop where
  tracker : system.tracker.start = flags.tracking
  motors : ∀ motor ∈ system.registry.motors, flags.OfMotor motor

/-- A change of one motor keeps the flags of the motors, if it keeps those of a motor. -/
theorem of_motors_modify {flags : Flags} {motors : List Motor}
    (h : ∀ motor ∈ motors, flags.OfMotor motor) {change : Motor → Motor}
    (hchange : ∀ motor, flags.OfMotor motor → flags.OfMotor (change motor)) (position : Nat) :
    ∀ motor ∈ motors.modify position change, flags.OfMotor motor := by
  intro motor hmotor
  obtain ⟨index, hindex⟩ := List.mem_iff_getElem?.mp hmotor
  rw [List.getElem?_modify] at hindex
  obtain ⟨before, hbefore, hafter⟩ := Option.map_eq_some_iff.mp hindex
  have hof := h before (List.mem_of_getElem? hbefore)
  split at hafter
  · rw [← hafter]
    exact hchange before hof
  · rw [← hafter]
    exact hof

/-- A step of a motor keeps its flags. -/
theorem of_motor_step {flags : Flags} {motor : Motor} (h : flags.OfMotor motor)
    (steps : Nat) (direction : Int) (wait : Nat) :
    flags.OfMotor (motorStep steps direction wait motor).2 := by
  unfold motorStep
  split
  case isFalse => exact h
  case isTrue hcomplete =>
    split
    case isFalse => exact h
    case isTrue =>
      refine ⟨?_, h.prevState⟩
      rw [← h.state, hcomplete]
      exact iff_of_false nofun nofun

/-- Steps keep the flags of all motors. -/
theorem of_motors_steps {flags : Flags} {calls : List MotorCall} (hcalls : StepsMotors calls)
    {registry : Registry defs.numberOfMotors}
    (h : ∀ motor ∈ registry.motors, flags.OfMotor motor) :
    ∀ motor ∈ (calls.foldl (MotorCall.run defs) registry).motors, flags.OfMotor motor := by
  have hstep : ∀ (registry : Registry defs.numberOfMotors) (call : MotorCall),
      (∀ motor ∈ registry.motors, flags.OfMotor motor) →
        (∃ steps direction wait position, call = .motorStep steps direction wait position) →
          ∀ motor ∈ (call.run defs registry).motors, flags.OfMotor motor := by
    intro registry call h hcall
    obtain ⟨steps, direction, wait, position, rfl⟩ := hcall
    exact of_motors_modify h (fun _ hof => of_motor_step hof steps direction wait) position
  exact last_of_forall hstep h hcalls

/-- A period of the `FoosLogic` thread keeps the flags of all motors. -/
theorem of_motors_period {flags : Flags} (setting : Setting) {rod : Logic.Call → List MotorCall}
    (hrod : ∀ call, StepsMotors (rod call))
    {registry : Registry defs.numberOfMotors}
    (h : ∀ motor ∈ registry.motors, flags.OfMotor motor) (calls : List Logic.Call) :
    ∀ motor ∈ (calls.foldl (runCall setting rod) registry).motors, flags.OfMotor motor := by
  have hstep : ∀ (registry : Registry defs.numberOfMotors) (call : Logic.Call),
      (∀ motor ∈ registry.motors, flags.OfMotor motor) →
        ∀ motor ∈ (runCall setting rod registry call).motors, flags.OfMotor motor := by
    intro registry call h
    cases call with
    | motorStep steps dir wait motor =>
        exact of_motors_modify h (fun _ hof => of_motor_step hof _ dir _) (setting.getMotor motor)
    | rodHome | rodHomeResumes | rodRotate | playerMove => exact of_motors_steps (hrod _) h
  exact (throughout_of_invariant hstep h calls).last

/-- Every usual call changes the flags of the system as `Flags.step` says. -/
theorem of_step (setting : Setting) {flags : Flags} {system : State defs} (h : flags.Of system)
    {event : System.Event defs} (hevent : Usual event) :
    (flags.step event).Of (System.step setting system event) := by
  obtain ⟨htracker, hmotors⟩ := h
  cases event with
  | motors call =>
      rcases hevent with rfl | rfl
      · refine ⟨htracker, fun motor hmotor => ?_⟩
        obtain ⟨before, hbefore, rfl⟩ := List.mem_map.mp hmotor
        have hof := hmotors before hbefore
        exact ⟨iff_of_true rfl rfl, hof.state⟩
      · refine ⟨htracker, fun motor hmotor => ?_⟩
        obtain ⟨before, hbefore, rfl⟩ := List.mem_map.mp hmotor
        have hof := hmotors before hbefore
        exact ⟨hof.prevState, hof.prevState⟩
  | logic call => exact ⟨htracker, hmotors⟩
  | startTracker | pauseTracker =>
      refine ⟨rfl, fun motor hmotor => ?_⟩
      have hof := hmotors motor hmotor
      exact ⟨hof.state, hof.prevState⟩
  | setBallTrackingMode mode =>
      refine ⟨?_, hmotors⟩
      cases mode with
      | normal | longCount => exact htracker
  | logicPeriod period rod => exact ⟨htracker, of_motors_period setting hevent hmotors _⟩
  | trackerPeriod xSample ySample =>
      exact ⟨(Tracker.wake_start xSample ySample system.tracker).trans htracker, hmotors⟩
  | tick position effect =>
      refine ⟨htracker, of_motors_modify hmotors (fun motor hof => ?_) position⟩
      obtain ⟨hstate, hprev⟩ := hevent motor
      exact ⟨hstate.trans hof.state, by rw [hprev]; exact hof.prevState⟩

/-- Usual calls one after the other. -/
theorem of_run (setting : Setting) {flags : Flags} {system : State defs} (h : flags.Of system)
    {events : List (System.Event defs)} (hevents : ∀ event ∈ events, Usual event) :
    (events.foldl Flags.step flags).Of (events.foldl (System.step setting) system) := by
  induction events generalizing flags system with
  | nil => exact h
  | cons event events ih =>
      exact ih (of_step setting h (hevents event List.mem_cons_self))
        fun later hmem => hevents later (List.mem_cons_of_mem event hmem)

/-- A beat changes no flag. -/
theorem flags_beats (flags : Flags) (beats : List (Beat defs)) :
    (beats.map Beat.event).foldl Flags.step flags = flags := by
  induction beats with
  | nil => rfl
  | cons beat beats ih =>
      cases beat with
      | logicPeriod | trackerPeriod | tick => exact ih

/-- The beats between the calls of a handler make no difference to the flags. -/
theorem flags_interleave (calls : List (System.Event defs)) (beats : List (List (Beat defs)))
    (flags : Flags) :
    (interleave calls beats).foldl Flags.step flags = calls.foldl Flags.step flags := by
  induction calls generalizing beats flags with
  | nil => exact flags_beats flags beats.flatten
  | cons call calls ih =>
      cases beats with
      | nil => rfl
      | cons round beats =>
          rw [interleave, List.foldl_append, flags_beats, List.foldl_cons, ih, List.foldl_cons]

/-- Usual beats between usual calls. -/
theorem usual_interleave {calls : List (System.Event defs)} (hcalls : ∀ call ∈ calls, Usual call)
    {beats : List (List (Beat defs))} (hbeats : UsualBeats beats) :
    ∀ event ∈ interleave calls beats, Usual event := by
  intro event hevent
  rcases mem_interleave hevent with hcall | ⟨round, hround, beat, hbeat, rfl⟩
  · exact hcalls event hcall
  · exact hbeats round hround beat hbeat

/-- A run of a handler with usual beats between its calls. -/
theorem of_handler (setting : Setting) {flags : Flags} {system : State defs} (h : flags.Of system)
    {calls : List (System.Event defs)} (hcalls : ∀ call ∈ calls, Usual call)
    {beats : List (List (Beat defs))} (hbeats : UsualBeats beats) :
    (calls.foldl Flags.step flags).Of
      ((interleave calls beats).foldl (System.step setting) system) := by
  rw [← flags_interleave calls beats]
  exact of_run setting h (usual_interleave hcalls hbeats)

/-- A usual call that changes no flag. -/
def Passive (event : System.Event defs) : Prop :=
  Usual event ∧ ∀ flags : Flags, flags.step event = flags

theorem flags_passive {events : List (System.Event defs)} (h : ∀ event ∈ events, Passive event)
    (flags : Flags) : events.foldl Flags.step flags = flags := by
  induction events with
  | nil => rfl
  | cons event events ih =>
      obtain ⟨hevent, hrest⟩ := List.forall_mem_cons.mp h
      rw [List.foldl_cons, hevent.2, ih hrest]

/-- The calls of the handler of commands are passive. -/
theorem command_calls (action : Command.Action) :
    ∀ call ∈ (System.commandHandler action : List (System.Event defs)), Passive call := by
  cases action with
  | call | setBallTrackingMode =>
      intro call hcall
      rw [List.mem_singleton.mp hcall]
      exact ⟨trivial, fun _ => rfl⟩
  | invalidMode | invalidCommand => exact nofun

/-! ## Sessions -/

variable (header : RtlFifoH) (setting : Setting)

/-- The pipes of pauses and starts are empty, the pipe of commands is open or stuck, and the system
is as the keys tell. -/
structure Session.Tells (session : Session defs) (screen : Screen) : Prop where
  done : session.done = screen.done
  paused : session.paused = screen.paused
  pause : (session.device.pipes .pause).Idle
  start : (session.device.pipes .start).Idle
  command : ∃ stuck, (session.device.pipes .command).Is stuck
  flags : (Flags.mk (!screen.paused) (screen.paused || screen.pausedTwice) screen.pausedTwice).Of
    session.device.system

/-- The shell runs the handler of commands or none, and touches only its own pipe. -/
theorem device_shell {device : Device defs} (h : ∃ stuck, (device.pipes .command).Is stuck)
    {event : PipeEvent} (hevent : ∀ bytes, event = .write bytes →
      bytes ≠ [] ∧ (bytes.length ≤ 100 → Command.Ends bytes))
    (stack : Command.Stack) (beats : List (List (Beat defs))) :
    ∃ pipe calls, (∃ stuck, pipe.Is stuck) ∧ (∀ call ∈ calls, Passive call) ∧
      device.step header setting (.pipe .command event stack beats) =
        some ⟨Function.update device.pipes .command pipe,
          (interleave calls beats).foldl (System.step setting) device.system⟩ := by
  obtain ⟨stuck, his⟩ := h
  have hwrites : event ≠ .write [] := fun heq => (hevent [] heq).1 rfl
  obtain ⟨pipe, hstep, hnext⟩ := pipe_is_step header his hwrites
  -- the handler is not called, or it is called for a line that ends
  have hcalls : ∃ calls : List (System.Event defs),
      Port.calls .command stack (if stuck = true then none else event.short) = some calls ∧
        ∀ call ∈ calls, Passive call := by
    cases hmessage : (if stuck = true then none else event.short) with
    | none => exact ⟨[], rfl, nofun⟩
    | some message =>
        have hshort : event.short = some message := by
          split at hmessage
          · cases hmessage
          · exact hmessage
        cases event with
        | wake | signal => cases hshort
        | write bytes =>
            rw [PipeEvent.short] at hshort
            split at hshort
            case isFalse => cases hshort
            case isTrue hlength =>
              obtain rfl := Option.some.inj hshort
              obtain ⟨final, -, haction⟩ :=
                Command.command_handler_read hlength ((hevent _ rfl).2 hlength) stack
              generalize Command.requested final.name final.values.toList = action at haction
              refine ⟨System.commandHandler action, ?_, command_calls action⟩
              rw [Port.calls, Port.handler, haction, Option.map_some]
  obtain ⟨calls, hcalls, hpassive⟩ := hcalls
  refine ⟨pipe, calls, ⟨_, hnext⟩, hpassive, ?_⟩
  rw [Device.step, hstep]
  dsimp only
  rw [hcalls]
  rfl

/-- Every event keeps the session in step with the keys. -/
theorem tells_step {session : Session defs} {screen : Screen} (h : session.Tells screen)
    {event : SessionEvent defs} (hevent : event.Assumed) :
    ∃ next, session.step header setting event = some next ∧
      next.Tells (event.value.foldl Screen.press screen) := by
  obtain ⟨hdone, hpaused, hpause, hstart, hcommand, hflags⟩ := h
  cases event with
  | beat beat =>
      refine ⟨_, rfl, hdone, hpaused, hpause, hstart, hcommand, ?_⟩
      have hbeat := of_step setting hflags hevent
      cases beat with
      | logicPeriod | trackerPeriod | tick => exact hbeat
  | shell event stack beats =>
      obtain ⟨hline, hbeats⟩ := hevent
      obtain ⟨pipe, calls, hpipe, hpassive, hstep⟩ :=
        device_shell header setting hcommand hline stack beats
      have hnext := congrArg (Option.map fun device => { session with device := device }) hstep
      have hhandler := of_handler setting hflags (fun call hcall => (hpassive call hcall).1) hbeats
      rw [flags_passive hpassive] at hhandler
      exact ⟨_, hnext, hdone, hpaused, hpause, hstart, hpipe, hhandler⟩
  | key value stack beats =>
      show ∃ next, _ ∧ Session.Tells next (screen.press value)
      rw [Session.step, Screen.press, ← hdone]
      by_cases hended : session.done = true
      · rw [if_pos hended, if_pos hended]
        exact ⟨session, rfl, hdone, hpaused, hpause, hstart, hcommand, hflags⟩
      · rw [if_neg hended, if_neg hended]
        by_cases hquit : value = "q"
        · rw [if_pos hquit, if_pos hquit]
          exact ⟨_, rfl, rfl, hpaused, hpause, hstart, hcommand, hflags⟩
        · rw [if_neg hquit, if_neg hquit]
          by_cases hspace : value = "space"
          · rw [if_pos hspace, if_pos hspace]
            have husual : ∀ call ∈ (pauseHandler : List (System.Event defs)), Usual call := by
              simp [pauseHandler, Usual]
            obtain ⟨pipe, hidle, hstep⟩ := device_delivers header setting hpause
              (show (Command.bytes "pause").length ≤ 100 by decide) stack rfl beats
            have hnext := congrArg
              (Option.map fun device => { session with device := device, paused := true }) hstep
            have hhandler := of_handler setting hflags husual hevent
            exact ⟨_, hnext, eq_false_of_ne_true hended, rfl, hidle, hstart, hcommand,
              hhandler⟩
          · rw [if_neg hspace, if_neg hspace]
            by_cases hresume : value = "s"
            · rw [if_pos hresume, if_pos hresume]
              have husual : ∀ call ∈ (startHandler : List (System.Event defs)), Usual call := by
                simp [startHandler, Usual]
              obtain ⟨pipe, hidle, hstep⟩ := device_delivers header setting hstart
                (show (Command.bytes "start").length ≤ 100 by decide) stack rfl beats
              have hnext := congrArg
                (Option.map fun device => { session with device := device, paused := false }) hstep
              have hhandler := of_handler setting hflags husual hevent
              exact ⟨_, hnext, rfl, rfl, hpause, hidle, hcommand, hhandler⟩
            · rw [if_neg hresume, if_neg hresume]
              exact ⟨session, rfl, hdone, hpaused, hpause, hstart, hcommand, hflags⟩

/-- A whole session keeps in step with its keys. -/
theorem tells_run {session : Session defs} {screen : Screen} (h : session.Tells screen)
    {events : List (SessionEvent defs)} (hevents : ∀ event ∈ events, event.Assumed) :
    ∃ last, events.foldlM (Session.step header setting) session = some last ∧
      last.Tells ((keys events).foldl Screen.press screen) := by
  induction events generalizing session screen with
  | nil => exact ⟨session, rfl, h⟩
  | cons event events ih =>
      obtain ⟨next, hstep, hnext⟩ := tells_step header setting h (hevents event List.mem_cons_self)
      obtain ⟨last, hrun, hlast⟩ := ih hnext fun later hmem =>
        hevents later (List.mem_cons_of_mem event hmem)
      refine ⟨last, ?_, ?_⟩
      · rw [List.foldlM_cons, hstep]
        exact hrun
      · rw [keys, List.flatMap_cons, List.foldl_append]
        exact hlast

/-- The motors that are registered one after the other are complete, and so are those that a resume
would leave. -/
theorem of_created (bitPositions : List Nat) {registry : Registry defs.numberOfMotors}
    (h : ∀ motor ∈ registry.motors, (Flags.mk true false false).OfMotor motor) :
    ∀ motor ∈ ((bitPositions.map MotorCall.createNewMotor).foldl (MotorCall.run defs)
      registry).motors, (Flags.mk true false false).OfMotor motor := by
  induction bitPositions generalizing registry with
  | nil => exact h
  | cons bitPosition bitPositions ih =>
      refine ih fun motor hmotor => ?_
      rw [MotorCall.run, create_new_motor_motors] at hmotor
      split at hmotor
      · rcases List.mem_append.mp hmotor with hold | hnew
        · exact h motor hold
        · rw [List.mem_singleton.mp hnew]
          have hstate : (Motor.normal defs bitPosition).state ≠ .stop := MotorState.noConfusion
          have hprev : (Motor.normal defs bitPosition).prevState ≠ .stop := MotorState.noConfusion
          exact ⟨iff_of_false hstate Bool.false_ne_true, iff_of_false hprev Bool.false_ne_true⟩
      · exact h motor hmotor

/-- The interface starts on a module that runs. -/
theorem tells_start (x : Tracker.Axis defs.numberXRx) (y : Tracker.Axis defs.numberYRx)
    (bitPositions : List Nat) :
    (Session.start x y bitPositions : Session defs).Tells ⟨false, false, false⟩ := by
  refine ⟨rfl, rfl, idle_create, idle_create, ⟨false, idle_create⟩, rfl, fun motor hmotor => ?_⟩
  obtain ⟨before, hbefore, rfl⟩ := List.mem_map.mp hmotor
  have hempty : ∀ motor ∈ (Registry.empty defs.numberOfMotors).motors,
      (Flags.mk true false false).OfMotor motor := nofun
  have hof := of_created bitPositions hempty before hbefore
  exact ⟨hof.prevState, hof.prevState⟩

end FoosballTable.Interface
