import FoosballTable.Interface.PauseKey

/-!
# What a pause gives back

Between a space and the `s` after it the shell may order steps, home rods and start the game, and
the threads and the ticks go on. None of that reaches a motor: from `stopMotors` to `resumeMotors`
the registry is the same, so that `pause_keeps_motion` gives every motor back with the state and the
order that it had.
-/

namespace FoosballTable.Interface

open Library Motors Pipes FoosballTable.System

variable {defs : FLUDefs}

/-! ## Stopped motors -/

/-- Steps leave stopped motors as they are. -/
theorem stopped_steps {registry : Registry defs.numberOfMotors} (h : registry.Stopped)
    {calls : List MotorCall} (hcalls : StepsMotors calls) :
    calls.foldl (MotorCall.run defs) registry = registry := by
  induction calls with
  | nil => rfl
  | cons call calls ih =>
      obtain ⟨hcall, hrest⟩ := List.forall_mem_cons.mp hcalls
      obtain ⟨steps, direction, wait, position, rfl⟩ := hcall
      have hsame : MotorCall.run defs registry (.motorStep steps direction wait position) =
          registry := h.motor_step steps direction wait position
      rw [List.foldl_cons, hsame]
      exact ih hrest

/-- A period of the `FoosLogic` thread leaves stopped motors as they are. -/
theorem stopped_period (setting : Setting) {registry : Registry defs.numberOfMotors}
    (h : registry.Stopped) {rod : Logic.Call → List MotorCall}
    (hrod : ∀ call, StepsMotors (rod call)) (calls : List Logic.Call) :
    calls.foldl (runCall setting rod) registry = registry := by
  induction calls with
  | nil => rfl
  | cons call calls ih =>
      have hsame : runCall setting rod registry call = registry := by
        cases call with
        | motorStep steps dir wait motor => exact h.motor_step _ dir _ (setting.getMotor motor)
        | rodHome | rodHomeResumes | rodRotate | playerMove => exact stopped_steps h (hrod _)
      rw [List.foldl_cons, hsame, ih]

/-- A usual call that is not one of a handler into `Motor.c`. -/
def Still (event : System.Event defs) : Prop :=
  Usual event ∧ ∀ call, event ≠ .motors call

/-- A passive call stops and resumes no motor. -/
theorem Passive.still {event : System.Event defs} (h : Passive event) : Still event := by
  refine ⟨h.1, fun call hcall => ?_⟩
  subst hcall
  rcases h.1 with rfl | rfl
  · have hstopped : true = false := congrArg Flags.stopped (h.2 ⟨true, false, false⟩)
    cases hstopped
  · have hstopped : false = true := congrArg Flags.stopped (h.2 ⟨true, true, false⟩)
    cases hstopped

/-- Such a call leaves stopped motors as they are. -/
theorem stopped_step (setting : Setting) {system : State defs} (h : system.registry.Stopped)
    {event : System.Event defs} (hevent : Still event) :
    (System.step setting system event).registry = system.registry := by
  obtain ⟨husual, hmotors⟩ := hevent
  cases event with
  | motors call => exact absurd rfl (hmotors call)
  | logic | startTracker | pauseTracker | setBallTrackingMode | trackerPeriod => rfl
  | logicPeriod period rod => exact stopped_period setting h husual _
  | tick position effect =>
      refine Registry.ext_motors (List.ext_getElem? fun index => ?_)
      show (system.registry.motors.modify position effect.change)[index]? = _
      rw [List.getElem?_modify]
      cases hmotor : system.registry.motors[index]? with
      | none => rfl
      | some motor =>
          have hstop := h motor (List.mem_of_getElem? hmotor)
          have hbusy : motor.state ≠ .busy := by
            rw [hstop]
            exact MotorState.noConfusion
          simp [effect.alone motor hbusy]

/-- Any number of such calls. -/
theorem stopped_run (setting : Setting) {system : State defs} (h : system.registry.Stopped)
    {events : List (System.Event defs)} (hevents : ∀ event ∈ events, Still event) :
    (events.foldl (System.step setting) system).registry = system.registry := by
  induction events generalizing system with
  | nil => rfl
  | cons event events ih =>
      obtain ⟨hevent, hrest⟩ := List.forall_mem_cons.mp hevents
      have hsame := stopped_step setting h hevent
      rw [List.foldl_cons, ih (hsame ▸ h) hrest, hsame]

/-- Beats are no calls of a handler. -/
theorem still_beat {beat : Beat defs} (h : Usual beat.event) : Still beat.event := by
  refine ⟨h, fun call hcall => ?_⟩
  cases beat with
  | logicPeriod | trackerPeriod | tick => cases hcall

/-- A handler that calls no function of `Motor.c`, with usual beats between its calls. -/
theorem still_interleave {calls : List (System.Event defs)} (hcalls : ∀ call ∈ calls, Still call)
    {beats : List (List (Beat defs))} (hbeats : UsualBeats beats) :
    ∀ event ∈ interleave calls beats, Still event := by
  intro event hevent
  rcases mem_interleave hevent with hcall | ⟨round, hround, beat, hbeat, rfl⟩
  · exact hcalls event hcall
  · exact still_beat (hbeats round hround beat hbeat)

/-! ## Sessions -/

variable (header : RtlFifoH) (setting : Setting)

/-- The keys that go on with the game or end the loop, and the one that pauses it. -/
def Acts (value : String) : Prop :=
  value = "q" ∨ value = "space" ∨ value = "s"

/-- A key that does nothing. -/
theorem press_idle {session : Session defs} {value : String} (h : ¬ Acts value)
    (stack : Command.Stack) (beats : List (List (Beat defs))) :
    session.step header setting (.key value stack beats) = some session := by
  obtain ⟨hquit, hpause⟩ := not_or.mp h
  obtain ⟨hspace, hresume⟩ := not_or.mp hpause
  rw [Session.step, if_neg hquit, if_neg hspace, if_neg hresume, ite_self]

/-- Between the space and the `s` the registry is left alone. -/
theorem stopped_session_step {session : Session defs} {screen : Screen} (h : session.Tells screen)
    (hstopped : session.device.system.registry.Stopped) {event : SessionEvent defs}
    (hevent : event.Assumed) (hkeys : ∀ value ∈ event.value, ¬ Acts value) :
    ∃ next, session.step header setting event = some next ∧ next.Tells screen ∧
      next.device.system.registry = session.device.system.registry := by
  obtain ⟨next, hstep, htells⟩ := tells_step header setting h hevent
  cases event with
  | beat beat =>
      obtain rfl := Option.some.inj hstep
      exact ⟨_, rfl, htells, stopped_step setting hstopped (still_beat hevent)⟩
  | shell event stack beats =>
      obtain ⟨pipe, calls, -, hpassive, hdevice⟩ :=
        device_shell header setting h.command hevent.1 stack beats
      rw [Session.step, hdevice, Option.map_some, Option.some.injEq] at hstep
      refine ⟨next, by rw [Session.step, hdevice, Option.map_some, hstep], htells, ?_⟩
      rw [← hstep]
      exact stopped_run setting hstopped
        (still_interleave (fun call hcall => (hpassive call hcall).still) hevent.2)
  | key value stack beats =>
      have hidle := hkeys value (List.mem_singleton_self value)
      exact ⟨session, press_idle header setting hidle stack beats, h, rfl⟩

/-- Any number of events between the space and the `s`. -/
theorem stopped_session_run {session : Session defs} {screen : Screen} (h : session.Tells screen)
    (hstopped : session.device.system.registry.Stopped) {events : List (SessionEvent defs)}
    (hevents : ∀ event ∈ events, event.Assumed) (hkeys : ∀ value ∈ keys events, ¬ Acts value) :
    ∃ last, events.foldlM (Session.step header setting) session = some last ∧ last.Tells screen ∧
      last.device.system.registry = session.device.system.registry := by
  induction events generalizing session with
  | nil => exact ⟨session, rfl, h, rfl⟩
  | cons event events ih =>
      obtain ⟨hevent, hrest⟩ := List.forall_mem_cons.mp hevents
      have hfirst : ∀ value ∈ event.value, ¬ Acts value := fun value hmem =>
        hkeys value (List.mem_flatMap_of_mem List.mem_cons_self hmem)
      have hlater : ∀ value ∈ keys events, ¬ Acts value := by
        intro value hmem
        rw [keys, List.flatMap_cons] at hkeys
        exact hkeys value (List.mem_append_right _ hmem)
      obtain ⟨next, hstep, htells, hsame⟩ :=
        stopped_session_step header setting h hstopped hevent hfirst
      obtain ⟨last, hrun, hlast, hregistry⟩ := ih htells (hsame ▸ hstopped) hrest hlater
      refine ⟨last, ?_, hlast, hregistry.trans hsame⟩
      rw [List.foldlM_cons, hstep]
      exact hrun

/-- A space stops every motor at once, if no beat comes before the first call of the handler, and
the rest of the handler leaves them alone. -/
theorem space_registry {session : Session defs} {screen : Screen} (h : session.Tells screen)
    (hdone : screen.done = false) (stack : Command.Stack) {beats : List (List (Beat defs))}
    (hbeats : UsualBeats beats) :
    ∃ next, session.step header setting (.key "space" stack ([] :: beats)) = some next ∧
      next.Tells (screen.press "space") ∧
      next.device.system.registry = (stopMotors session.device.system.registry).2 := by
  have hassumed : (SessionEvent.key "space" stack ([] :: beats)).Assumed :=
    List.forall_mem_cons.mpr ⟨nofun, hbeats⟩
  obtain ⟨next, hstep, htells⟩ := tells_step header setting h hassumed
  refine ⟨next, hstep, htells, ?_⟩
  obtain ⟨pipe, -, hdevice⟩ := device_delivers header setting h.pause
    (show (Command.bytes "pause").length ≤ 100 by decide) stack rfl ([] :: beats)
  rw [Session.step, if_neg (by rw [h.done, hdone]; exact Bool.false_ne_true), if_neg (by decide),
    if_pos rfl, hdevice, Option.map_some, Option.some.injEq] at hstep
  rw [← hstep]
  have hrest : ∀ call ∈ ([.logic .pause, .pauseTracker] : List (System.Event defs)),
      Still call := by
    simp [Still, Usual]
  exact stopped_run setting (stopped_stop_motors session.device.system.registry)
    (still_interleave hrest hbeats)

/-- An `s` resumes the motors where the beats before it found them stopped, and the rest of the
handler leaves them alone, if no beat comes in between. -/
theorem resume_registry {session : Session defs} {screen : Screen} (h : session.Tells screen)
    (hstopped : session.device.system.registry.Stopped) (hdone : screen.done = false)
    (stack : Command.Stack) {round : List (Beat defs)} (hround : ∀ beat ∈ round, Usual beat.event) :
    ∃ next, session.step header setting (.key "s" stack [round]) = some next ∧
      next.device.system.registry = (resumeMotors session.device.system.registry).2 := by
  have hassumed : (SessionEvent.key "s" stack [round]).Assumed :=
    List.forall_mem_singleton.mpr hround
  obtain ⟨next, hstep, -⟩ := tells_step header setting h hassumed
  refine ⟨next, hstep, ?_⟩
  obtain ⟨pipe, -, hdevice⟩ := device_delivers header setting h.start
    (show (Command.bytes "start").length ≤ 100 by decide) stack rfl [round]
  rw [Session.step, if_neg (by rw [h.done, hdone]; exact Bool.false_ne_true), if_neg (by decide),
    if_neg (by decide), if_pos rfl, hdevice, Option.map_some, Option.some.injEq] at hstep
  rw [← hstep]
  have hbeats : ∀ event ∈ round.map Beat.event, Still event := by
    intro event hevent
    obtain ⟨beat, hbeat, rfl⟩ := List.mem_map.mp hevent
    exact still_beat (hround beat hbeat)
  have hsame := stopped_run setting hstopped hbeats
  show ((round.map Beat.event ++ startHandler).foldl (System.step setting)
    session.device.system).registry = _
  rw [List.foldl_append, ← hsame]
  rfl

/-- From whatever state of a session in which the shell has written nothing empty and lines that
end: when a space is pressed and, after anything but these keys and `q`, an `s`, every motor has the
state and the order back that it had when the space was pressed, whatever such lines the shell has
written, the threads have ordered and the ticks have done in between. -/
theorem pause_keeps_motion (x : Tracker.Axis defs.numberXRx) (y : Tracker.Axis defs.numberYRx)
    (bitPositions : List Nat) (before between : List (SessionEvent defs))
    (hbefore : ∀ event ∈ before, event.Assumed) (hbetween : ∀ event ∈ between, event.Assumed)
    (hdone : (Screen.of (keys before)).done = false) (hkeys : ∀ value ∈ keys between, ¬ Acts value)
    (spaceStack resumeStack : Command.Stack) (beats : List (List (Beat defs)))
    (round : List (Beat defs)) (hbeats : UsualBeats beats)
    (hround : ∀ beat ∈ round, Usual beat.event) :
    ∃ first last,
      before.foldlM (Session.step header setting) (Session.start x y bitPositions) =
        some first ∧
      (.key "space" spaceStack ([] :: beats) :: (between ++ [.key "s" resumeStack [round]])).foldlM
        (Session.step header setting) first = some last ∧
      last.device.system.registry.motors.map Motor.motion =
        first.device.system.registry.motors.map Motor.motion := by
  obtain ⟨first, hfirst, htells⟩ :=
    tells_run header setting (tells_start x y bitPositions) hbefore
  obtain ⟨paused, hspace, hpaused, hstop⟩ :=
    space_registry header setting htells hdone spaceStack hbeats
  have hstopped : paused.device.system.registry.Stopped :=
    hstop ▸ stopped_stop_motors first.device.system.registry
  obtain ⟨later, hlater, hstill, hkept⟩ :=
    stopped_session_run header setting hpaused hstopped hbetween hkeys
  have hopen : ((Screen.of (keys before)).press "space").done = false := by
    rw [Screen.press, if_neg (by rw [hdone]; exact Bool.false_ne_true)]
    rfl
  obtain ⟨last, hresume, hresumed⟩ := resume_registry header setting hstill (hkept ▸ hstopped)
    hopen resumeStack hround
  refine ⟨first, last, hfirst, ?_, ?_⟩
  · rw [List.foldlM_cons, hspace, Option.bind_eq_bind, Option.bind_some, List.foldlM_append, hlater]
    show Option.bind (some later) _ = _
    rw [Option.bind_some, List.foldlM_cons, hresume]
    rfl
  · rw [hresumed, hkept, hstop, resume_motors_motors, stop_motors_motors, List.map_map,
      List.map_map]
    rfl

/-- The shell starts the game. -/
def startedGame : List (SessionEvent FLUDefs.small) :=
  [.shell (.write (Command.bytes "start\n")) Command.zeroStack []]

/-- The shell steps a motor during the pause, and the thread steps one. -/
def pausedGame : List (SessionEvent FLUDefs.small) :=
  [.shell (.write (Command.bytes "motorcmd 0 5 1 0\n")) Command.zeroStack [],
    .beat (.logicPeriod (.quiet true) fun _ => [.motorStep 3 0 1 1])]

/-- What is assumed holds of both. -/
theorem paused_game_assumed :
    (∀ event ∈ startedGame, event.Assumed) ∧ ∀ event ∈ pausedGame, event.Assumed := by
  have hstart : Command.bytes "start\n" ≠ [] ∧ Command.Ends (Command.bytes "start\n") := by decide
  have hmotor : Command.bytes "motorcmd 0 5 1 0\n" ≠ [] ∧
      Command.Ends (Command.bytes "motorcmd 0 5 1 0\n") := by decide
  simp [startedGame, pausedGame, SessionEvent.Assumed, UsualBeats, Usual, StepsMotors, Beat.event,
    hstart, hmotor]

/-- The motors are as before when the game goes on. -/
theorem paused_game_keeps_motion :
    ∃ first last,
      startedGame.foldlM (Session.step .plain Setting.small)
          (Session.start (Tracker.Axis.zero FLUDefs.small.numberXRx)
            (Tracker.Axis.zero FLUDefs.small.numberYRx) [0, 1]) = some first ∧
      (.key "space" Command.zeroStack [[]] ::
          (pausedGame ++ [.key "s" Command.zeroStack [[]]])).foldlM
        (Session.step .plain Setting.small) first = some last ∧
      last.device.system.registry.motors.map Motor.motion =
        first.device.system.registry.motors.map Motor.motion :=
  pause_keeps_motion .plain Setting.small _ _ _ startedGame pausedGame paused_game_assumed.1
    paused_game_assumed.2 rfl nofun Command.zeroStack Command.zeroStack [] [] nofun nofun

end FoosballTable.Interface
