import FoosballTable.Command.Bounds
import FoosballTable.Library.Simulation
import FoosballTable.Pipes.Delivery
import FoosballTable.System.Model

/-!
# The module behind its pipes

`init_module` creates the pipes of commands, pauses and starts, each with its handler. A process
that writes to a pipe runs the handler, one process at a time, while the threads of the module go
on between two calls of the handler. `Device` is the module with the buffers of its pipes; `Served`
is what it is for: a pipe is open until a write of more than 100 bytes, and a write to an open pipe
runs its handler on the bytes written. `device_serves` relates the two over whole runs.
-/

namespace FoosballTable.Pipes

open Library FoosballTable.System

/-- The pipes `/dev/rtf7`, `/dev/rtf8` and `/dev/rtf9`. -/
inductive Port where
  | command
  | pause
  | start
  deriving DecidableEq, Repr

/-- A period of a thread or a tick: what goes on beside the handlers. -/
inductive Beat (defs : FLUDefs) where
  | logicPeriod (period : Logic.Period) (rod : Logic.Call → List Motors.MotorCall)
  | trackerPeriod (xSample : Tracker.Sample defs.numberXRx)
      (ySample : Tracker.Sample defs.numberYRx)
  | tick (position : Nat) (effect : Tick)

variable {defs : FLUDefs}

/-- The event of the system. -/
def Beat.event : Beat defs → System.Event defs
  | .logicPeriod period rod => .logicPeriod period rod
  | .trackerPeriod xSample ySample => .trackerPeriod xSample ySample
  | .tick position effect => .tick position effect

/-- The calls of a handler, each after the beats that come before it. -/
def interleave : List (System.Event defs) → List (List (Beat defs)) → List (System.Event defs)
  | [], beats => beats.flatten.map Beat.event
  | call :: calls, [] => call :: calls
  | call :: calls, beats :: rest => beats.map Beat.event ++ call :: interleave calls rest

/-- What is interleaved are the calls and the beats. -/
theorem mem_interleave {calls : List (System.Event defs)} {beats : List (List (Beat defs))}
    {event : System.Event defs} (h : event ∈ interleave calls beats) :
    event ∈ calls ∨ ∃ round ∈ beats, ∃ beat ∈ round, beat.event = event := by
  induction calls generalizing beats with
  | nil =>
      obtain ⟨beat, hbeat, rfl⟩ := List.mem_map.mp h
      obtain ⟨round, hround, hmem⟩ := List.mem_flatten.mp hbeat
      exact Or.inr ⟨round, hround, beat, hmem, rfl⟩
  | cons call calls ih =>
      cases beats with
      | nil => exact Or.inl h
      | cons first beats =>
          rcases List.mem_append.mp h with hbeat | hlater
          · obtain ⟨beat, hmem, rfl⟩ := List.mem_map.mp hbeat
            exact Or.inr ⟨first, List.mem_cons_self, beat, hmem, rfl⟩
          · rcases List.mem_cons.mp hlater with rfl | hlater
            · exact Or.inl List.mem_cons_self
            · rcases ih hlater with hcall | ⟨round, hround, hbeat⟩
              · exact Or.inl (List.mem_cons_of_mem _ hcall)
              · exact Or.inr ⟨round, List.mem_cons_of_mem _ hround, hbeat⟩

/-- The calls of the handler that `init_module` creates for a pipe, on a message that `rtf_get`
takes out of it. The handlers of pauses and starts do not look at the message. The handler of
commands has no result where its parsing loop leaves an array. -/
def Port.handler (stack : Command.Stack) (message : List Command.Byte) :
    Port → Option (List (System.Event defs))
  | .command => (Command.commandHandler message stack).value.map System.commandHandler
  | .pause => some pauseHandler
  | .start => some startHandler

/-- The calls of the handler, if it is called. -/
def Port.calls (port : Port) (stack : Command.Stack) :
    Option (List Command.Byte) → Option (List (System.Event defs))
  | some message => port.handler stack message
  | none => some []

/-- The module: its pipes, and the state of the system. -/
structure Device (defs : FLUDefs) where
  pipes : Port → Pipe
  system : State defs

/-- What happens to the module: an event of a pipe, with what the stack of its handler holds and the
beats between the calls of the handler, or a beat. -/
inductive DeviceEvent (defs : FLUDefs) where
  | pipe (port : Port) (event : PipeEvent) (stack : Command.Stack)
      (beats : List (List (Beat defs)))
  | beat (beat : Beat defs)

/-- The module after an event. -/
def Device.step (header : RtlFifoH) (setting : Setting) (device : Device defs) :
    DeviceEvent defs → Option (Device defs)
  | .pipe port event stack beats =>
      match (device.pipes port).step header event with
      | some (pipe, message) =>
          (port.calls stack message).map fun calls =>
            { pipes := Function.update device.pipes port pipe
              system := (interleave calls beats).foldl (System.step setting) device.system }
      | none => none
  | .beat beat => some { device with system := System.step setting device.system beat.event }

/-- The module that `init_module` leaves. -/
def Device.init (x : Tracker.Axis defs.numberXRx) (y : Tracker.Axis defs.numberYRx)
    (bitPositions : List Nat) : Device defs :=
  ⟨fun _ => .create, State.init x y bitPositions⟩

/-! ## What the module is for -/

/-- The bytes of a write of at most 100 bytes. -/
def PipeEvent.short : PipeEvent → Option (List Command.Byte)
  | .write bytes => if bytes.length ≤ 100 then some bytes else none
  | .wake | .signal => none

/-- A write of more than 100 bytes. -/
def PipeEvent.long : PipeEvent → Bool
  | .write bytes => decide (100 < bytes.length)
  | .wake | .signal => false

/-- Which pipes are stuck, and the state of the system. -/
structure Served (defs : FLUDefs) where
  stuck : Port → Bool
  system : State defs

/-- A write to an open pipe runs its handler, if it is not long, and makes the pipe stuck, if it
is. -/
def Served.step (setting : Setting) (served : Served defs) :
    DeviceEvent defs → Option (Served defs)
  | .pipe port event stack beats =>
      (port.calls stack (if served.stuck port = true then none else event.short)).map fun calls =>
        { stuck := Function.update served.stuck port (served.stuck port || event.long)
          system := (interleave calls beats).foldl (System.step setting) served.system }
  | .beat beat => some { served with system := System.step setting served.system beat.event }

/-- The system that `init_module` leaves, with open pipes. -/
def Served.init (x : Tracker.Axis defs.numberXRx) (y : Tracker.Axis defs.numberYRx)
    (bitPositions : List Nat) : Served defs :=
  ⟨fun _ => false, State.init x y bitPositions⟩

/-- The state of a pipe that is stuck or open. -/
def Pipe.Is (pipe : Pipe) : Bool → Prop
  | false => pipe.Idle
  | true => ∃ items, pipe.Blocked items

/-- A module whose pipes are open and stuck as the system says, in the same state. -/
structure Serves (device : Device defs) (served : Served defs) : Prop where
  pipes : ∀ port, (device.pipes port).Is (served.stuck port)
  system : device.system = served.system

/-- The event writes something, if it is a write. -/
def DeviceEvent.Writes : DeviceEvent defs → Prop
  | .pipe _ event _ _ => event ≠ .write []
  | .beat _ => True

/-! ## The refinement -/

variable (header : RtlFifoH)

/-- A pipe hands a short write to its handler while it is open, and is stuck from a long one on. -/
theorem pipe_is_step {pipe : Pipe} {stuck : Bool} (h : pipe.Is stuck) {event : PipeEvent}
    (hevent : event ≠ .write []) :
    ∃ next, pipe.step header event = some (next, if stuck = true then none else event.short) ∧
      next.Is (stuck || event.long) := by
  cases stuck with
  | true =>
      obtain ⟨items, hblocked⟩ := h
      obtain ⟨next, hstep, hnext⟩ := blocked_step header hblocked hevent
      exact ⟨next, hstep, items, hnext⟩
  | false =>
      cases event with
      | write bytes =>
          by_cases hshort : bytes.length ≤ 100
          · obtain ⟨next, hstep, hnext⟩ := short_write_delivered header h hshort
            have hlong : (PipeEvent.write bytes).long = false :=
              decide_eq_false (Nat.not_lt.mpr hshort)
            refine ⟨next, ?_, ?_⟩
            · rw [hstep, if_neg Bool.false_ne_true, PipeEvent.short, if_pos hshort]
            · rw [hlong]
              exact hnext
          · obtain ⟨next, hstep, hnext⟩ :=
              long_write_sleeps header h (Nat.lt_of_not_le hshort)
            have hlong : (PipeEvent.write bytes).long = true :=
              decide_eq_true (Nat.lt_of_not_le hshort)
            refine ⟨next, ?_, ?_⟩
            · rw [hstep, if_neg Bool.false_ne_true, PipeEvent.short, if_neg hshort]
            · rw [hlong]
              exact ⟨_, hnext⟩
      | wake =>
          obtain ⟨next, hstep, hnext⟩ := idle_step header h .wake rfl
          exact ⟨next, hstep, hnext⟩
      | signal =>
          obtain ⟨next, hstep, hnext⟩ := idle_step header h .signal rfl
          exact ⟨next, hstep, hnext⟩

/-- A short write to an empty pipe runs its handler. -/
theorem device_delivers (setting : Setting) {device : Device defs} {port : Port}
    (h : (device.pipes port).Idle) {bytes : List Command.Byte} (hshort : bytes.length ≤ 100)
    (stack : Command.Stack) {calls : List (System.Event defs)}
    (hcalls : port.handler stack bytes = some calls) (beats : List (List (Beat defs))) :
    ∃ pipe, pipe.Idle ∧ device.step header setting (.pipe port (.write bytes) stack beats) =
      some ⟨Function.update device.pipes port pipe,
        (interleave calls beats).foldl (System.step setting) device.system⟩ := by
  obtain ⟨pipe, hstep, hidle⟩ := short_write_delivered header h hshort
  refine ⟨pipe, hidle, ?_⟩
  rw [Device.step, hstep]
  dsimp only
  rw [Port.calls, hcalls]
  rfl

/-- An event fails on the module exactly when it fails on the system that it serves, and leaves both
related otherwise. -/
theorem serves_step (setting : Setting) {device : Device defs} {served : Served defs}
    (h : Serves device served) {event : DeviceEvent defs} (hevent : event.Writes) :
    Option.Rel Serves (device.step header setting event) (served.step setting event) := by
  obtain ⟨hpipes, hsystem⟩ := h
  cases event with
  | beat beat =>
      refine .some ⟨hpipes, ?_⟩
      dsimp only
      rw [hsystem]
  | pipe port event stack beats =>
      obtain ⟨next, hstep, hnext⟩ := pipe_is_step header (hpipes port) hevent
      rw [Device.step, hstep, Served.step]
      dsimp only
      generalize (if served.stuck port = true then none else event.short) = message
      cases port.calls stack message with
      | none => exact .none
      | some calls =>
          refine .some ⟨fun other => ?_, ?_⟩
          · dsimp only
            by_cases hother : other = port
            · subst hother
              rw [Function.update_self, Function.update_self]
              exact hnext
            · rw [Function.update_of_ne hother, Function.update_of_ne hother]
              exact hpipes other
          · dsimp only
            rw [hsystem]

/-- From `init_module` on, in every run without empty writes, the module with its buffers does what
the system with open and stuck pipes does: both fail in a handler of commands that leaves an array,
or none does, and then every pipe holds nothing or is stuck for good and the system is in the same
state. -/
theorem device_serves (setting : Setting) (x : Tracker.Axis defs.numberXRx)
    (y : Tracker.Axis defs.numberYRx) (bitPositions : List Nat) (events : List (DeviceEvent defs))
    (hevents : ∀ event ∈ events, event.Writes) :
    Option.Rel Serves
      (events.foldlM (Device.step header setting) (Device.init x y bitPositions))
      (events.foldlM (Served.step setting) (Served.init x y bitPositions)) := by
  have hstart : Serves (Device.init x y bitPositions : Device defs)
      (Served.init x y bitPositions) := ⟨fun _ => idle_create, rfl⟩
  have hstep : ∀ (device : Device defs) (served : Served defs) (event : DeviceEvent defs),
      event.Writes → Serves device served →
        Option.Rel Serves (device.step header setting event) (served.step setting event) :=
    fun _ _ _ hwrites hserves => serves_step header setting hserves hwrites
  exact rel_foldlM hstep hstart hevents

/-- A long line, which makes the pipe of commands stuck, another line, and a pause. -/
def stuckSession : List (DeviceEvent FLUDefs.small) :=
  [.pipe .command (.write (Command.bytes "home 1\n")) Command.zeroStack [],
    .pipe .command (.write (List.replicate 101 0)) Command.zeroStack [],
    .pipe .command (.write (Command.bytes "home 0\n")) Command.zeroStack [],
    .pipe .pause (.write (Command.bytes "pause")) Command.zeroStack
      [[], [.logicPeriod (.quiet true) fun _ => []]]]

/-- Nothing in that session is an empty write. -/
theorem stuck_session_writes : ∀ event ∈ stuckSession, event.Writes := by
  simp [stuckSession, DeviceEvent.Writes, Command.bytes]

/-- The module carries out the first line and the pause. -/
theorem stuck_session_serves :
    Option.Rel Serves
      (stuckSession.foldlM (Device.step .plain Setting.small)
        (Device.init (Tracker.Axis.zero FLUDefs.small.numberXRx)
          (Tracker.Axis.zero FLUDefs.small.numberYRx) [0, 1]))
      (stuckSession.foldlM (Served.step Setting.small)
        (Served.init (Tracker.Axis.zero FLUDefs.small.numberXRx)
          (Tracker.Axis.zero FLUDefs.small.numberYRx) [0, 1])) :=
  device_serves .plain Setting.small _ _ _ stuckSession stuck_session_writes

end FoosballTable.Pipes
