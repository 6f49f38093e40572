import FoosballTable.Command.RoundTrip
import FoosballTable.Logic.Progress
import FoosballTable.Pipes.Device

/-!
# A command from the shell to the motor

A line like `motorcmd 2 400 10 1` goes a long way: through the buffer of its pipe, the parsing loop
of the handler, the variables of `FoosLogic` and the thread that looks at them, to the motors.
`typed_command_ordered` is about the whole way, from every state that the module can be in.
-/

namespace FoosballTable.Pipes

open Library Motors FoosballTable.System

variable {defs : FLUDefs}

/-! ## The thread of the module -/

/-- Wherever the thread of the system is, it is where the thread of `FoosLogic` can be. -/
theorem near_goalie_step (setting : Setting) {system : State defs} (h : system.logic.NearGoalie)
    (event : System.Event defs) : (System.step setting system event).logic.NearGoalie := by
  cases event with
  | logic call =>
      have hafter : (system.logic.after defs setting.rodIds (.call call)).NearGoalie :=
        Logic.near_goalie_after h (.call call)
      exact hafter
  | logicPeriod period rod => exact Logic.near_goalie_wake h _
  | motors | startTracker | pauseTracker | setBallTrackingMode | trackerPeriod | tick => exact h

/-- It is so in every state that the module reaches. -/
theorem near_goalie_reached (header : RtlFifoH) (setting : Setting)
    (x : Tracker.Axis defs.numberXRx) (y : Tracker.Axis defs.numberYRx) (bitPositions : List Nat)
    {events : List (DeviceEvent defs)} {device : Device defs}
    (hrun : events.foldlM (Device.step header setting) (Device.init x y bitPositions) =
      some device) : device.system.logic.NearGoalie := by
  have hkeep : ∀ (device : Device defs) (event : DeviceEvent defs) (next : Device defs),
      True → device.system.logic.NearGoalie → device.step header setting event = some next →
        next.system.logic.NearGoalie := by
    intro device event next _ hnear hstep
    cases event with
    | beat beat =>
        obtain rfl := Option.some.inj hstep
        exact near_goalie_step setting hnear _
    | pipe port event stack beats =>
        rw [Device.step] at hstep
        split at hstep
        case h_1 pipe message _ =>
          obtain ⟨calls, -, rfl⟩ := Option.map_eq_some_iff.mp hstep
          have hstep : ∀ (system : State defs) (event : System.Event defs),
              system.logic.NearGoalie → (System.step setting system event).logic.NearGoalie :=
            fun _ event hnear => near_goalie_step setting hnear event
          exact (throughout_of_invariant hstep hnear (interleave calls beats)).last
        case h_2 => cases hstep
  have hstart : (Device.init x y bitPositions : Device defs).system.logic.NearGoalie := False.elim
  exact foldlM_invariant hkeep hstart (fun _ _ => trivial) hrun

/-! ## Carrying out -/

/-- One for a period of the `FoosLogic` thread. -/
def Beat.periods : Beat defs → Nat
  | .logicPeriod _ _ => 1
  | .trackerPeriod _ _ | .tick _ _ => 0

/-- A period of the `FoosLogic` thread in which it looks at the mode. -/
def Answers (system : State defs) : Beat defs → Prop
  | .logicPeriod _ _ => system.logic.pc = .innerWait
  | .trackerPeriod _ _ | .tick _ _ => False

/-- The system after a beat. -/
def beatStep (setting : Setting) (system : State defs) (beat : Beat defs) : State defs :=
  System.step setting system beat.event

/-- A command waits for a thread that will look at it. -/
structure Waits (system : State defs) (made : Logic.Call) : Prop where
  responsive : system.logic.Responsive
  held : system.logic.held = some made

/-- A beat without a look at the mode leaves the command where it is, and brings the thread
closer if it is a period. -/
theorem waits_beat (setting : Setting) {system : State defs} {made : Logic.Call}
    (h : Waits system made) {beat : Beat defs} (haway : ¬ Answers system beat) :
    Waits (beatStep setting system beat) made ∧
      beat.periods + (beatStep setting system beat).logic.pc.away ≤ system.logic.pc.away := by
  cases beat with
  | trackerPeriod | tick => exact ⟨⟨h.responsive, h.held⟩, (Nat.zero_add _).le⟩
  | logicPeriod period rod =>
      have hafter : ∀ period : Logic.Period,
          (system.logic.after defs setting.rodIds (.period period)).Responsive ∧
            1 + (system.logic.after defs setting.rodIds (.period period)).pc.away ≤
              system.logic.pc.away :=
        fun _ => h.responsive.after id haway
      have hheld : ∀ period, (Logic.wake defs period system.logic).1.held = system.logic.held :=
        fun period => Logic.held_wake period haway h.responsive.free
      exact ⟨⟨(hafter _).1, (hheld _).trans h.held⟩, (hafter _).2⟩

/-- The period in which the thread looks at the mode carries out the command and calls nothing
else. -/
theorem waits_answered (setting : Setting) {system : State defs} {made : Logic.Call}
    (h : Waits system made) (hpc : system.logic.pc = .innerWait) (period : Logic.Period)
    (rod : Logic.Call → List MotorCall) :
    (beatStep setting system (.logicPeriod period rod)).registry =
      runCall setting rod system.registry made := by
  have hcalls : ∀ period, (Logic.wake defs period system.logic).2 = [made] := by
    intro period
    have hanswers := Logic.Log.answers_of_held defs period hpc h.held
    rwa [Logic.Log.answers, if_pos ⟨hpc, Option.isSome_of_eq_some h.held⟩] at hanswers
  show (Logic.wake defs _ system.logic).2.foldl (runCall setting rod) system.registry =
    runCall setting rod system.registry made
  rw [hcalls]
  rfl

/-- A command that waits for a responsive thread is carried out in every run with more periods than
the thread is away for. -/
theorem waits_run (setting : Setting) {system : State defs} {made : Logic.Call}
    (h : Waits system made) {beats : List (Beat defs)}
    (hlong : system.logic.pc.away < (beats.map Beat.periods).sum) :
    ∃ first period rod last, beats = first ++ .logicPeriod period rod :: last ∧
      (beatStep setting (first.foldl (beatStep setting) system)
          (.logicPeriod period rod)).registry =
        runCall setting rod (first.foldl (beatStep setting) system).registry made := by
  have hguard : Along (beatStep setting) (fun _ _ => True) system beats :=
    along_of_forall (fun _ _ => trivial) system
  have hkeep : ∀ (system : State defs) (beat : Beat defs), Waits system made → True →
      ¬ Answers system beat → Waits (beatStep setting system beat) made :=
    fun _ _ h _ haway => (waits_beat setting h haway).1
  have hpay : ∀ (system : State defs) (beat : Beat defs), Waits system made → True →
      ¬ Answers system beat →
        beat.periods + (beatStep setting system beat).logic.pc.away ≤ system.logic.pc.away :=
    fun _ _ h _ haway => (waits_beat setting h haway).2
  have hmeets := somewhere_of_rank_lt (fun _ beat => beat.periods)
    (fun system => system.logic.pc.away) hkeep hpay h hguard (by rwa [total_of_event])
  obtain ⟨first, beat, last, hsplit, hwaits, hattends⟩ := somewhere_iff_split.mp hmeets
  cases beat with
  | trackerPeriod | tick => exact hattends.elim
  | logicPeriod period rod =>
      exact ⟨first, period, rod, last, hsplit, waits_answered setting hwaits hattends period rod⟩

/-! ## The line -/

/-- A line that the handler reads in full: a word and its values, small enough for `msg`, `command`,
`values` and `int`, and at least as many values as the call for the word takes. -/
structure Readable (word : List Command.Byte) (values : List Int) : Prop where
  length : word.length ≤ 8
  spelled : ∀ c ∈ word, Command.WordByte c
  count : values.length ≤ 32
  magnitude : ∀ v ∈ values, v.natAbs ≤ Command.maxInt
  line : (Command.encodeLine word values).length ≤ 100
  arguments : Command.argumentCount word ≤ values.length

/-- The handler makes the call that such a line asks for, whatever its stack holds. -/
theorem Readable.handled {word : List Command.Byte} {values : List Int} (h : Readable word values)
    (stack : Command.Stack) :
    (Command.commandHandler (Command.encodeLine word values) stack).value =
      some (Command.requested word values) := by
  obtain ⟨tail, htail⟩ := Command.rtf_get_line h.line [] stack.msg
  rw [List.append_nil] at htail
  obtain ⟨-, final, hfinal, hcommand, hvalues⟩ :=
    Command.parse_line h.length h.spelled h.count h.magnitude tail stack
  rw [← htail] at hfinal
  rw [← Command.dispatch_requested h.spelled hcommand hvalues h.arguments]
  show (Traced.andThen _ _).value = _
  simp only [Traced.andThen, hfinal]
  rfl

/-! ## The whole way -/

/-- Beats fail on no module, and leave its pipes as they are. -/
theorem beats_run (header : RtlFifoH) (setting : Setting) (device : Device defs)
    (beats : List (Beat defs)) :
    (beats.map DeviceEvent.beat).foldlM (Device.step header setting) device =
      some { device with system := beats.foldl (beatStep setting) device.system } := by
  induction beats generalizing device with
  | nil => rfl
  | cons beat beats ih =>
      rw [List.map_cons, List.foldlM_cons, Device.step, Option.bind_eq_bind, Option.bind_some, ih]
      rfl

/-- From every state of the module in which the pipe of commands is empty and the thread is not
inside `rodHome`: when a line is written that asks for a command, the game is started then and no
other handler is called, the handler takes the line, and within 511 periods of the thread the motors
are called for that command and for nothing else. -/
theorem typed_command_ordered (header : RtlFifoH) (setting : Setting)
    (x : Tracker.Axis defs.numberXRx) (y : Tracker.Axis defs.numberYRx) (bitPositions : List Nat)
    (events : List (DeviceEvent defs)) {device : Device defs}
    (hrun : events.foldlM (Device.step header setting) (Device.init x y bitPositions) =
      some device)
    (hidle : (device.pipes .command).Idle) (hfree : device.system.logic.pc ≠ .homing)
    {word : List Command.Byte} {values : List Int} (hline : Readable word values)
    {call : Logic.HandlerCall} (hcall : Command.requested word values = .call call)
    {made : Logic.Call} (hmade : call.request setting.rodIds = some made)
    (hstart : ((call.handler setting.rodIds).run device.system.logic).start = true)
    (stack : Command.Stack) (beats : List (Beat defs))
    (hlong : 511 ≤ (beats.map Beat.periods).sum) :
    ∃ first period rod last before after,
      beats = first ++ .logicPeriod period rod :: last ∧
      (.pipe .command (.write (Command.encodeLine word values)) stack [] ::
        first.map DeviceEvent.beat).foldlM (Device.step header setting) device = some before ∧
      before.step header setting (.beat (.logicPeriod period rod)) = some after ∧
      after.system.registry = runCall setting rod before.system.registry made := by
  have hhandler : Port.handler stack (Command.encodeLine word values) .command =
      some [(.logic call : System.Event defs)] := by
    rw [Port.handler, hline.handled, hcall]
    rfl
  obtain ⟨pipe, -, hstep⟩ := device_delivers header setting hidle hline.line stack hhandler []
  have hpause : call ≠ .pause := by
    rintro rfl
    cases hmade
  have hwaits : Waits (System.step setting device.system (.logic call)) made :=
    { responsive :=
        { near := near_goalie_step setting (near_goalie_reached header setting x y _ hrun) _
          start := hstart
          free := (Logic.pc_run setting.rodIds call device.system.logic).trans_ne hfree }
      held := (Logic.held_run setting.rodIds hpause device.system.logic).trans hmade }
  have haway := Logic.Pc.away_le (System.step setting device.system (.logic call)).logic.pc
  have hlate : (System.step setting device.system (.logic call)).logic.pc.away <
      (beats.map Beat.periods).sum := Nat.lt_of_lt_of_le (Nat.lt_succ_of_le haway) hlong
  obtain ⟨first, period, rod, last, hsplit, hordered⟩ := waits_run setting hwaits hlate
  have hbefore : (.pipe .command (.write (Command.encodeLine word values)) stack [] ::
      first.map DeviceEvent.beat).foldlM (Device.step header setting) device =
        some ⟨Function.update device.pipes .command pipe,
          first.foldl (beatStep setting) (System.step setting device.system (.logic call))⟩ := by
    rw [List.foldlM_cons, hstep]
    exact beats_run header setting _ first
  exact ⟨first, period, rod, last, _, _, hsplit, hbefore, rfl, hordered⟩

/-- Periods in which the ball is nowhere near and `Rod.c` calls no motor. -/
def idleBeats : List (Beat FLUDefs.small) :=
  List.replicate 511 (.logicPeriod (.quiet true) fun _ => [])

theorem idle_beats_periods : 511 ≤ (idleBeats.map Beat.periods).sum := by
  rw [idleBeats, List.map_replicate, List.sum_replicate_nat]
  exact (Nat.mul_one 511).ge

/-- A module with two motors, of which nothing has been asked. -/
def freshDevice : Device FLUDefs.small :=
  Device.init (Tracker.Axis.zero FLUDefs.small.numberXRx)
    (Tracker.Axis.zero FLUDefs.small.numberYRx) [0, 1]

/-- The start of the game. -/
def startWritten : DeviceEvent FLUDefs.small :=
  .pipe .start (.write (Command.bytes "start")) Command.zeroStack []

/-- A motor command that is written after the start of the game reaches its motor. -/
theorem typed_motor_command_ordered :
    ∃ device first period rod last before after,
      [startWritten].foldlM (Device.step .plain Setting.small) freshDevice = some device ∧
      idleBeats = first ++ .logicPeriod period rod :: last ∧
      (.pipe .command (.write (Command.encodeLine (Command.bytes "motorcmd") [1, 400, 10, 0]))
          Command.zeroStack [] :: first.map DeviceEvent.beat).foldlM
        (Device.step .plain Setting.small) device = some before ∧
      before.step .plain Setting.small (.beat (.logicPeriod period rod)) = some after ∧
      after.system.registry =
        runCall Setting.small rod before.system.registry (.motorStep 400 0 10 1) := by
  have hidle : (freshDevice.pipes .start).Idle := idle_create
  obtain ⟨pipe, -, hstep⟩ := device_delivers .plain Setting.small hidle
    (show (Command.bytes "start").length ≤ 100 by decide) Command.zeroStack rfl []
  have hrun : [startWritten].foldlM (Device.step .plain Setting.small) freshDevice =
      some ⟨Function.update freshDevice.pipes .start pipe,
        startHandler.foldl (System.step Setting.small) freshDevice.system⟩ := by
    rw [List.foldlM_cons, startWritten, hstep]
    rfl
  have hline : Readable (Command.bytes "motorcmd") [1, 400, 10, 0] :=
    ⟨by decide, by decide, by decide, by decide, by decide, by decide⟩
  obtain ⟨first, period, rod, last, before, after, h⟩ := typed_command_ordered .plain Setting.small
    _ _ _ [startWritten] hrun idle_create Logic.Pc.noConfusion hline rfl rfl rfl Command.zeroStack
    idleBeats idle_beats_periods
  exact ⟨_, first, period, rod, last, before, after, hrun, h⟩

end FoosballTable.Pipes
