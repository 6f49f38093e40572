import FoosballTable.Logic.Mailbox
import Mathlib.Logic.Function.Basic

/-!
# Commands under preemption

`home`, `userCommandMotor` and `userRotateRod` are run one assignment at a time, and the thread
may run any number of periods between two of them. Every variable carries the index of the
handler call that wrote it last, so that `Preempted.Whole` can say that the thread never acts on
the variables of two different calls. `whole_iff_undisturbed` shows that this holds in exactly the
runs whose thread never answers a command while the call in progress has written a part of it
and has still to write another part. A call that is not preempted is the call made as one step:
`uninterrupted_call`.
-/

namespace FoosballTable.Logic

open Library

/-- The variables the handlers write. -/
inductive Field where
  | start
  | mode
  | currentRod
  | userCmdMotorId
  | userCmdSteps
  | userCmdWait
  | userCmdDir
  | userRotId
  | userRotAngle
  | userRotWait
  | userRotDir
  deriving DecidableEq, Repr

/-- The variable an assignment writes. -/
def Assignment.field : Assignment → Field
  | .start _ => .start
  | .mode _ => .mode
  | .currentRod _ => .currentRod
  | .userCmdMotorId _ => .userCmdMotorId
  | .userCmdSteps _ => .userCmdSteps
  | .userCmdWait _ => .userCmdWait
  | .userCmdDir _ => .userCmdDir
  | .userRotId _ => .userRotId
  | .userRotAngle _ => .userRotAngle
  | .userRotWait _ => .userRotWait
  | .userRotDir _ => .userRotDir

/-- The state has the value an assignment writes. -/
def Assignment.Holds (state : State) : Assignment → Prop
  | .start value => state.start = value
  | .mode value => state.mode = value
  | .currentRod value => state.currentRod = value
  | .userCmdMotorId value => state.userCmdMotorId = value
  | .userCmdSteps value => state.userCmdSteps = value
  | .userCmdWait value => state.userCmdWait = value
  | .userCmdDir value => state.userCmdDir = value
  | .userRotId value => state.userRot.id = value
  | .userRotAngle value => state.userRot.angle = value
  | .userRotWait value => state.userRot.wait = value
  | .userRotDir value => state.userRot.dir = value

/-- The variables the thread passes on when it answers a mode. -/
def FoosLogicMode.arguments : FoosLogicMode → List Field
  | .home => [.currentRod]
  | .userCommand => [.userCmdSteps, .userCmdDir, .userCmdWait, .userCmdMotorId]
  | .userCommandRot => [.userRotAngle, .userRotId]
  | .normal | .doNothing => []

/-- The mode asks the thread to carry out a command. -/
def FoosLogicMode.OneShot (mode : FoosLogicMode) : Prop :=
  mode ≠ .normal ∧ mode ≠ .doNothing

instance (mode : FoosLogicMode) : Decidable mode.OneShot := inferInstanceAs (Decidable (_ ∧ _))

/-- An assignment writes a part of the command of a mode: one of its arguments or the mode
itself. -/
def Assignment.Concerns (mode : FoosLogicMode) (assignment : Assignment) : Prop :=
  assignment.field ∈ mode.arguments ∨ assignment = .mode mode

instance (mode : FoosLogicMode) (assignment : Assignment) :
    Decidable (assignment.Concerns mode) := inferInstanceAs (Decidable (_ ∨ _))

/-- The period writes `_mode`: a one-shot command ends in it. -/
def resets (period : Period) (state : State) : Bool :=
  match state.pc, state.mode with
  | .innerWait, .home => period.homed
  | .innerWait, .userCommand => true
  | .innerWait, .userCommandRot => true
  | .homing, _ => period.homed
  | _, _ => false

/-- The state with, for each variable, the index of the call that wrote it last, the calls so
far, and the last interruptible call with the number of its assignments already executed. -/
structure Preempted where
  state : State
  writer : Field → Option Nat
  calls : List HandlerCall
  current : Nat
  body : List Assignment
  done : Nat

/-- The start of a handler call, the next assignment of the call in progress, or a period of the
thread. -/
inductive AssignEvent where
  | call (call : HandlerCall)
  | assign
  | period (period : Period)

namespace Preempted

/-- The state after `setup` and `run`. -/
def start : Preempted where
  state := State.setup
  writer := fun _ => none
  calls := []
  current := 0
  body := []
  done := 0

/-- The assignments of the call in progress that are executed. -/
def executed (run : Preempted) : List Assignment :=
  run.body.take run.done

/-- The assignments of the call in progress that are still to come. -/
def remaining (run : Preempted) : List Assignment :=
  run.body.drop run.done

/-- An assignment made by the call with the given index. -/
def write (index : Nat) (run : Preempted) (assignment : Assignment) : Preempted :=
  { run with
    state := assignment.apply run.state
    writer := Function.update run.writer assignment.field (some index) }

/-- The run after an event. `startPlay` and `pause` are single steps; any other call only begins,
and not while one is in progress, as all of them are made by the handler of the command pipe. -/
def step (defs : FLUDefs) (rodIds : List Int) (run : Preempted) : AssignEvent → Preempted
  | .call .startPlay =>
      { startPlay.body.foldl (write run.calls.length) run with
        calls := run.calls ++ [.startPlay] }
  | .call .pause =>
      { pause.body.foldl (write run.calls.length) run with calls := run.calls ++ [.pause] }
  | .call call =>
      if run.remaining = [] then
        { run with
          calls := run.calls ++ [call]
          current := run.calls.length
          body := (call.handler rodIds).body
          done := 0 }
      else run
  | .assign =>
      match run.remaining with
      | [] => run
      | assignment :: _ => { write run.current run assignment with done := run.done + 1 }
  | .period period =>
      { run with
        state := (wake defs period run.state).1
        writer :=
          if resets period run.state then Function.update run.writer .mode none
          else run.writer }

/-- Whenever the thread carries out a command in a period, the mode it answers and all arguments
it passes on were written by one call, and the call it makes is the one owed to that call. -/
def Whole (defs : FLUDefs) (rodIds : List Int) (run : Preempted) : AssignEvent → Prop
  | .period period =>
      ∀ made ∈ Log.answers run.state (wake defs period run.state).2,
        ∃ index call, run.calls[index]? = some call ∧ call.request rodIds = some made ∧
          run.writer .mode = some index ∧
          ∀ field ∈ run.state.mode.arguments, run.writer field = some index
  | .call _ | .assign => True

/-- The call in progress has written a part of the command in `_mode` and has still to write
another part. -/
def Half (run : Preempted) : Prop :=
  (∃ assignment ∈ run.executed, assignment.Concerns run.state.mode) ∧
    ∃ assignment ∈ run.remaining, assignment.Concerns run.state.mode

instance (run : Preempted) : Decidable run.Half := inferInstanceAs (Decidable (_ ∧ _))

/-- The condition on a period: no half-written command is answered in it. -/
def Undisturbed (run : Preempted) : AssignEvent → Prop
  | .period _ => run.state.pc = .innerWait → run.state.mode.OneShot → ¬ run.Half
  | .call _ | .assign => True

instance (run : Preempted) : (event : AssignEvent) → Decidable (run.Undisturbed event)
  | .period _ => inferInstanceAs (Decidable (_ → _))
  | .call _ | .assign => .isTrue trivial

end Preempted

/-! ## Assignments -/

/-- An assignment leaves its value. -/
theorem Assignment.holds_apply_self (assignment : Assignment) (state : State) :
    assignment.Holds (assignment.apply state) := by
  cases assignment <;> rfl

/-- An assignment to another variable is not disturbed. -/
theorem Assignment.holds_apply_of_ne {assignment other : Assignment}
    (hne : assignment.field ≠ other.field) (state : State) :
    assignment.Holds (other.apply state) ↔ assignment.Holds state := by
  cases other <;> cases assignment <;> first | rfl | exact absurd rfl hne

/-- A period disturbs no variable but the mode. -/
theorem Assignment.holds_wake (defs : FLUDefs) (period : Period) {assignment : Assignment}
    (hne : assignment.field ≠ .mode) (state : State) :
    assignment.Holds (wake defs period state).1 ↔ assignment.Holds state := by
  have hwritten := wake_written defs period state
  simp only [State.written, Prod.mk.injEq] at hwritten
  obtain ⟨hstart, hrod, ⟨hmotor, hsteps, hwait, hdir⟩, hrot⟩ := hwritten
  cases assignment <;> first | exact absurd rfl hne | simp only [Assignment.Holds, *]

/-- A mode is one-shot exactly when the state holds a command. -/
theorem one_shot_iff_held (state : State) : state.mode.OneShot ↔ state.held.isSome := by
  unfold State.held FoosLogicMode.OneShot
  cases state.mode <;> simp

/-- A period that resets the mode leaves it without command, any other one leaves it alone. -/
theorem wake_mode (defs : FLUDefs) (period : Period) (state : State) :
    (wake defs period state).1.mode =
      if resets period state then .doNothing else state.mode := by
  unfold wake resets
  split
  case h_2 hpc =>
    unfold iteration
    cases hmode : state.mode with
    | home => cases period.homed <;> simp [hpc]
    | normal => simpa [hpc] using (basic_strategy_keeps defs period _).2.1
    | userCommand | userCommandRot | doNothing => simp [hpc, hmode]
  case h_3 hpc => cases period.homed <;> simp [hpc]
  case h_5 t hpc =>
    split
    · simp [hpc]
    · simpa [hpc] using (fullback_strategy_keeps defs period state).2.1
  case h_1 hpc => simp [hpc]
  case h_4 t hpc => split <;> simp [hpc]
  case h_6 t hpc => split <;> simp [hpc]
  case h_7 t hpc => split <;> simp [hpc]

/-! ## The order of the assignments of a call -/

/-- The calls that are made one assignment at a time, with their bodies. -/
inductive Interruptible (rodIds : List Int) : HandlerCall → List Assignment → Prop where
  | homeFound (id : Int) (t : Nat) (hfind : findRod rodIds id = some t) :
      Interruptible rodIds (.home id) [.mode .doNothing, .mode .home, .currentRod t, .start true]
  | homeMissing (id : Int) (hfind : findRod rodIds id = none) :
      Interruptible rodIds (.home id) [.mode .doNothing]
  | motor (motor steps wait dir : Int) :
      Interruptible rodIds (.userCommandMotor motor steps wait dir)
        [.userCmdMotorId motor, .userCmdSteps steps, .userCmdWait wait, .userCmdDir dir,
          .mode .userCommand]
  | rotate (id anglePosition timeToWait dir : Int) :
      Interruptible rodIds (.userRotateRod id anglePosition timeToWait dir)
        [.userRotId id, .userRotAngle anglePosition, .userRotWait timeToWait, .userRotDir dir,
          .mode .userCommandRot]

/-- Every call but `startPlay` and `pause` is made one assignment at a time. -/
theorem interruptible (rodIds : List Int) {call : HandlerCall}
    (hcall : call ≠ .startPlay ∧ call ≠ .pause) :
    Interruptible rodIds call (call.handler rodIds).body := by
  cases call with
  | startPlay => exact absurd rfl hcall.1
  | pause => exact absurd rfl hcall.2
  | home id =>
      cases hfind : findRod rodIds id with
      | some t => simpa [HandlerCall.handler, home, hfind] using .homeFound id t hfind
      | none => simpa [HandlerCall.handler, home, hfind] using .homeMissing id hfind
  | userCommandMotor => exact .motor ..
  | userRotateRod => exact .rotate ..

namespace Interruptible

variable {rodIds : List Int} {call : HandlerCall} {body : List Assignment} {k : Nat}
  {assignment : Assignment} {mode : FoosLogicMode}

/-- `_start` is written after `_mode`. -/
theorem start_after_mode (h : Interruptible rodIds call body)
    (hk : body[k]? = some assignment) (hfield : assignment.field = .start) :
    ∃ earlier ∈ body.take k, earlier.field = .mode := by
  cases h <;> rcases k with _ | _ | _ | _ | _ | k <;> simp at hk <;> subst hk <;>
    simp_all [Assignment.field]

/-- No variable but `_mode` is written twice. -/
theorem written_once (h : Interruptible rodIds call body)
    (hk : body[k]? = some assignment) (hfield : assignment.field ≠ .mode) {earlier : Assignment}
    (hearlier : earlier ∈ body.take k) : earlier.field ≠ assignment.field := by
  cases h <;> rcases k with _ | _ | _ | _ | _ | k <;> simp at hk <;> subst hk <;>
    simp at hearlier hfield ⊢ <;> grind [Assignment.field]

/-- After a part of a command, another part is still to come, or its mode and all its arguments
are written. -/
theorem publishes (h : Interruptible rodIds call body) (hmode : mode.OneShot)
    (hk : body[k]? = some assignment) (hconcerns : assignment.Concerns mode) :
    (∃ later ∈ body.drop (k + 1), later.Concerns mode) ∨
      .mode mode ∈ body.take (k + 1) ∧
        ∀ argument ∈ body, argument.field ∈ mode.arguments → argument ∈ body.take (k + 1) := by
  cases h <;> rcases k with _ | _ | _ | _ | _ | k <;> simp at hk <;> subst hk <;>
    cases mode <;> simp_all [Assignment.Concerns, Assignment.field, FoosLogicMode.arguments]

/-- A part of a command that is still to come when another part is written writes a variable the
call has not written yet. -/
theorem unwritten_part (h : Interruptible rodIds call body) (hmode : mode.OneShot)
    {first last earlier : Assignment} (hfirst : first ∈ body.take k)
    (hfirst' : first.Concerns mode) (hlast : last ∈ body.drop k) (hlast' : last.Concerns mode)
    (hearlier : earlier ∈ body.take k) : earlier.field ≠ last.field := by
  cases h <;> rcases k with _ | _ | _ | _ | _ | k <;> simp at hfirst hlast hearlier <;>
    cases mode <;>
    grind [Assignment.Concerns, Assignment.field, FoosLogicMode.arguments, FoosLogicMode.OneShot]

/-- A call that writes a one-shot mode writes all its arguments. -/
theorem arguments_written (h : Interruptible rodIds call body) (hmode : mode.OneShot)
    (hmem : .mode mode ∈ body) {field : Field} (hfield : field ∈ mode.arguments) :
    ∃ argument ∈ body, argument.field = field := by
  cases h <;> cases mode <;>
    simp_all [FoosLogicMode.arguments, FoosLogicMode.OneShot, Assignment.field] <;> grind

/-- A call whose mode and arguments are in the state is owed the command held there. -/
theorem request_eq_held (h : Interruptible rodIds call body) {state : State}
    (hone : state.mode.OneShot) (hmode : .mode state.mode ∈ body)
    (hholds : ∀ argument ∈ body, argument.field ∈ state.mode.arguments → argument.Holds state) :
    call.request rodIds = state.held := by
  cases h with
  | homeFound id t hfind =>
      have hhome : state.mode = .home := by simpa [hone.2] using hmode
      have hrod : state.currentRod = t :=
        hholds (.currentRod t) (by simp)
          (by simp [hhome, FoosLogicMode.arguments, Assignment.field])
      simp [HandlerCall.request, State.held, hfind, hhome, hrod]
  | homeMissing id hfind => exact absurd (by simpa using hmode) hone.2
  | motor motor steps wait dir =>
      have huser : state.mode = .userCommand := by simpa using hmode
      rw [huser] at hholds
      simp [Assignment.Holds, Assignment.field, FoosLogicMode.arguments] at hholds
      simp [HandlerCall.request, State.held, huser, hholds]
  | rotate id anglePosition timeToWait dir =>
      have huser : state.mode = .userCommandRot := by simpa using hmode
      rw [huser] at hholds
      simp [Assignment.Holds, Assignment.field, FoosLogicMode.arguments] at hholds
      simp [HandlerCall.request, State.held, huser, hholds]

end Interruptible

/-! ## What holds of every run -/

namespace Preempted

variable {defs : FLUDefs} {rodIds : List Int} {run : Preempted}

/-- What holds of every run, disturbed or not. -/
structure Tracked (rodIds : List Int) (run : Preempted) : Prop where
  /-- The call in progress is one of the interruptible ones. -/
  begun : run.body = [] ∨
    ∃ call, run.calls[run.current]? = some call ∧ Interruptible rodIds call run.body
  /-- Variables are written by calls. -/
  bounded : ∀ field index, run.writer field = some index → index < run.calls.length
  /-- What the call in progress has written is in place. -/
  fresh : ∀ assignment ∈ run.executed, assignment.field ≠ .mode → assignment.field ≠ .start →
    run.writer assignment.field = some run.current ∧ assignment.Holds run.state
  /-- A mode the call in progress has written is its own while it lasts. -/
  published : .mode run.state.mode ∈ run.executed → run.state.mode.OneShot →
    run.writer .mode = some run.current
  /-- The call in progress is not the writer of what it has still to write. -/
  unwritten : ∀ field, run.body ≠ [] → run.writer field = some run.current →
    ∃ assignment ∈ run.executed, assignment.field = field
  /-- A mode no call has written asks for nothing, or the thread was never started. -/
  unset : run.writer .mode = none → run.state.mode = .doNothing ∨
    (run.state.start = false ∧ run.state.pc = .outerWait) ∧
      ∀ assignment ∈ run.executed, assignment.field ≠ .mode
  /-- The command of a mode is in place, unless the call in progress has half written it. -/
  packet : ∀ index, run.writer .mode = some index → run.state.mode.OneShot →
    ∃ call body, run.calls[index]? = some call ∧ Interruptible rodIds call body ∧
      .mode run.state.mode ∈ body ∧
      (run.Half ∨ ∀ argument ∈ body, argument.field ∈ run.state.mode.arguments →
        run.writer argument.field = some index ∧ argument.Holds run.state)

theorem tracked_start (rodIds : List Int) : Tracked rodIds start where
  begun := .inl rfl
  bounded := fun _ _ h => by cases h
  fresh := fun _ h => by simp [executed, start] at h
  published := fun h => by simp [executed, start] at h
  unwritten := fun _ h => absurd rfl h
  unset := fun _ => .inr ⟨⟨rfl, rfl⟩, fun _ h => by simp [executed, start] at h⟩
  packet := fun _ h => by cases h

/-- No argument of a command is `_mode` or `_start`. -/
theorem argument_ne {mode : FoosLogicMode} {field : Field} (h : field ∈ mode.arguments) :
    field ≠ .mode ∧ field ≠ .start := by
  cases mode <;> simp [FoosLogicMode.arguments] at h <;> grind

/-- The call in progress was made. -/
theorem Tracked.current_lt (h : Tracked rodIds run) (hbody : run.body ≠ []) :
    run.current < run.calls.length := by
  rcases h.begun with hnil | ⟨call, hcall, -⟩
  · exact absurd hnil hbody
  · exact (List.getElem?_eq_some_iff.mp hcall).1

/-- Calls keep their index when another call is made. -/
theorem getElem?_calls_append {index : Nat} {call : HandlerCall}
    (h : run.calls[index]? = some call) (later : HandlerCall) :
    (run.calls ++ [later])[index]? = some call := by
  rw [List.getElem?_append_left (List.getElem?_eq_some_iff.mp h).1, h]

/-- After assignments of one call, a variable has that call as its writer or the same one as
before. -/
theorem writer_foldl_write (index : Nat) (body : List Assignment) (run : Preempted)
    (field : Field) :
    (body.foldl (write index) run).writer field = some index ∨
      (body.foldl (write index) run).writer field = run.writer field := by
  induction body generalizing run with
  | nil => exact Or.inr rfl
  | cons assignment body ih =>
      rcases ih (write index run assignment) with hlater | hlater
      · exact Or.inl hlater
      · by_cases hfield : field = assignment.field
        · left
          rw [List.foldl_cons, hlater, hfield]
          exact Function.update_self _ _ _
        · right
          rw [List.foldl_cons, hlater]
          exact Function.update_of_ne hfield _ _

/-- The call in progress is still found after another one was made. -/
theorem Tracked.begun_append (h : Tracked rodIds run) (added : HandlerCall) :
    run.body = [] ∨
      ∃ call, (run.calls ++ [added])[run.current]? = some call ∧
        Interruptible rodIds call run.body :=
  h.begun.imp id fun ⟨call, hcall, hbody⟩ => ⟨call, getElem?_calls_append hcall _, hbody⟩

/-- After a call that is made in one step, variables are still written by calls. -/
theorem Tracked.bounded_foldl_write (h : Tracked rodIds run) (added : HandlerCall)
    (body : List Assignment) {field : Field} {index : Nat}
    (hwriter : (body.foldl (write run.calls.length) run).writer field = some index) :
    index < (run.calls ++ [added]).length := by
  rw [List.length_append, List.length_singleton]
  rcases writer_foldl_write run.calls.length body run field with hnew | hold
  · rw [hnew] at hwriter
    cases hwriter
    exact Nat.lt_succ_self _
  · rw [hold] at hwriter
    exact Nat.lt_succ_of_lt (h.bounded field index hwriter)

/-- After a call that is made in one step, the call in progress is still not the writer of what it
has to write. -/
theorem Tracked.unwritten_foldl_write (h : Tracked rodIds run) (body : List Assignment)
    {field : Field} (hbody : run.body ≠ [])
    (hwriter : (body.foldl (write run.calls.length) run).writer field = some run.current) :
    ∃ assignment ∈ run.executed, assignment.field = field := by
  rcases writer_foldl_write run.calls.length body run field with hnew | hold
  · have hlt := h.current_lt hbody
    rw [hnew] at hwriter
    exact absurd (Option.some.inj hwriter) (Nat.ne_of_gt hlt)
  · rw [hold] at hwriter
    exact h.unwritten field hbody hwriter

/-- `startPlay` keeps a run tracked. -/
theorem Tracked.start_play (h : Tracked rodIds run) :
    Tracked rodIds (run.step defs rodIds (.call .startPlay)) where
  begun := h.begun_append .startPlay
  bounded := fun _ _ hwriter => h.bounded_foldl_write .startPlay startPlay.body hwriter
  fresh := by
    intro assignment hmem hmode hstart
    obtain ⟨hwriter, hholds⟩ := h.fresh assignment hmem hmode hstart
    refine ⟨?_, ?_⟩
    · show Function.update (Function.update run.writer .start _) .mode _ assignment.field = _
      rw [Function.update_of_ne hmode, Function.update_of_ne hstart]
      exact hwriter
    · show assignment.Holds ((Assignment.mode .normal).apply ((Assignment.start true).apply _))
      rw [Assignment.holds_apply_of_ne hmode, Assignment.holds_apply_of_ne hstart]
      exact hholds
  published := fun _ hone => absurd rfl hone.1
  unwritten := fun _ hbody hwriter => h.unwritten_foldl_write startPlay.body hbody hwriter
  unset := by
    intro hwriter
    simp [step, startPlay, write, Assignment.field] at hwriter
  packet := fun _ _ hone => absurd rfl hone.1

/-- `pause` keeps a run tracked. -/
theorem Tracked.pause (h : Tracked rodIds run) :
    Tracked rodIds (run.step defs rodIds (.call .pause)) where
  begun := h.begun_append .pause
  bounded := fun _ _ hwriter => h.bounded_foldl_write .pause Logic.pause.body hwriter
  fresh := by
    intro assignment hmem hmode hstart
    obtain ⟨hwriter, hholds⟩ := h.fresh assignment hmem hmode hstart
    exact ⟨(Function.update_of_ne hstart _ _).trans hwriter,
      (Assignment.holds_apply_of_ne hstart _).mpr hholds⟩
  published := h.published
  unwritten := fun _ hbody hwriter => h.unwritten_foldl_write Logic.pause.body hbody hwriter
  unset := fun hwriter => (h.unset hwriter).imp id fun ⟨⟨_, hpc⟩, hmode⟩ => ⟨⟨rfl, hpc⟩, hmode⟩
  packet := by
    intro index hwriter hone
    obtain ⟨call, body, hcall, hbody, hmode, hparts⟩ := h.packet index hwriter hone
    refine ⟨call, body, getElem?_calls_append hcall _, hbody, hmode, hparts.imp id ?_⟩
    intro hall argument hmem hargument
    obtain ⟨hargwriter, hholds⟩ := hall argument hmem hargument
    have hstart := (argument_ne hargument).2
    exact ⟨(Function.update_of_ne hstart _ _).trans hargwriter,
      (Assignment.holds_apply_of_ne hstart _).mpr hholds⟩

/-- The start of a call keeps a run tracked. -/
theorem Tracked.begin (h : Tracked rodIds run) {call : HandlerCall} {body : List Assignment}
    (hbody : Interruptible rodIds call body) (hdone : run.remaining = []) :
    Tracked rodIds
      { run with
        calls := run.calls ++ [call]
        current := run.calls.length
        body := body
        done := 0 } where
  begun := .inr ⟨call, by simp, hbody⟩
  bounded := by
    intro field index hwriter
    have := h.bounded field index hwriter
    simp only [List.length_append, List.length_singleton]
    omega
  fresh := fun _ hmem => by simp [executed] at hmem
  published := fun hmem => by simp [executed] at hmem
  unwritten := fun field _ hwriter => absurd (h.bounded field _ hwriter) (Nat.lt_irrefl _)
  unset := fun hwriter => (h.unset hwriter).imp id fun ⟨hstart, _⟩ =>
    ⟨hstart, fun _ hmem => by simp [executed] at hmem⟩
  packet := by
    intro index hwriter hone
    obtain ⟨call', body', hcall', hbody', hmode, hparts⟩ := h.packet index hwriter hone
    refine ⟨call', body', getElem?_calls_append hcall' _, hbody', hmode, .inr ?_⟩
    rcases hparts with ⟨_, assignment, hmem, _⟩ | hall
    · rw [hdone] at hmem
      cases hmem
    · exact hall

/-- A period changes the writer of no variable but the mode. -/
theorem writer_period_of_ne (period : Period) {field : Field} (hne : field ≠ .mode) :
    (run.step defs rodIds (.period period)).writer field = run.writer field := by
  show (if resets period run.state then Function.update run.writer .mode none
    else run.writer) field = _
  split
  · exact Function.update_of_ne hne _ _
  · rfl

/-- A period makes no call the writer of a variable. -/
theorem writer_of_period (period : Period) {field : Field} {index : Nat}
    (h : (run.step defs rodIds (.period period)).writer field = some index) :
    run.writer field = some index := by
  by_cases hfield : field = .mode
  · subst hfield
    rw [← h]
    show _ = (if resets period run.state then Function.update run.writer .mode none
      else run.writer) .mode
    split
    · rename_i hreset
      simp [step, hreset] at h
    · rfl
  · rwa [writer_period_of_ne period hfield] at h

/-- A period keeps a run tracked. -/
theorem Tracked.period (h : Tracked rodIds run) (period : Period) :
    Tracked rodIds (run.step defs rodIds (.period period)) := by
  have hmode : (run.step defs rodIds (.period period)).state.mode =
      if resets period run.state then .doNothing else run.state.mode :=
    wake_mode defs period run.state
  have hholds : ∀ assignment : Assignment, assignment.field ≠ .mode →
      assignment.Holds run.state →
      assignment.Holds (run.step defs rodIds (.period period)).state :=
    fun assignment hne h => (assignment.holds_wake defs period hne run.state).mpr h
  have hbounded : ∀ field index,
      (run.step defs rodIds (.period period)).writer field = some index →
      index < run.calls.length :=
    fun field index hwriter => h.bounded field index (writer_of_period period hwriter)
  have hfresh : ∀ assignment ∈ run.executed, assignment.field ≠ .mode →
      assignment.field ≠ .start →
      (run.step defs rodIds (.period period)).writer assignment.field = some run.current ∧
        assignment.Holds (run.step defs rodIds (.period period)).state := by
    intro assignment hmem hne hstart
    obtain ⟨hwriter, hvalue⟩ := h.fresh assignment hmem hne hstart
    exact ⟨(writer_period_of_ne period hne).trans hwriter, hholds assignment hne hvalue⟩
  have hunwritten : ∀ field, run.body ≠ [] →
      (run.step defs rodIds (.period period)).writer field = some run.current →
      ∃ assignment ∈ run.executed, assignment.field = field :=
    fun field hbody hwriter => h.unwritten field hbody (writer_of_period period hwriter)
  cases hreset : resets period run.state with
  | true =>
      -- the thread itself is now the writer of the mode, which asks for nothing
      have hnothing : (run.step defs rodIds (.period period)).state.mode = .doNothing := by
        rw [hmode, if_pos hreset]
      exact
        { begun := h.begun, bounded := hbounded, fresh := hfresh
          published := fun _ hone => absurd hnothing hone.2
          unwritten := hunwritten
          unset := fun _ => .inl hnothing
          packet := fun _ _ hone => absurd hnothing hone.2 }
  | false =>
      have hsame : (run.step defs rodIds (.period period)).state.mode = run.state.mode := by
        rw [hmode, hreset]
        rfl
      have hwriter : (run.step defs rodIds (.period period)).writer = run.writer := by
        simp [step, hreset]
      refine
        { begun := h.begun, bounded := hbounded, fresh := hfresh, published := ?_,
          unwritten := hunwritten, unset := ?_, packet := ?_ }
      · rw [hsame, hwriter]
        exact h.published
      · intro hnone
        rw [hwriter] at hnone
        rcases h.unset hnone with hnothing | ⟨⟨hstart, hpc⟩, hmodes⟩
        · exact .inl (hsame.trans hnothing)
        · refine .inr ⟨?_, hmodes⟩
          show (wake defs period run.state).1.start = false ∧
            (wake defs period run.state).1.pc = .outerWait
          rw [wake_stopped defs period hstart hpc]
          exact ⟨hstart, hpc⟩
      · intro index hindex hone
        rw [hsame] at hone
        obtain ⟨call, body, hcall, hbody, hmem, hparts⟩ :=
          h.packet index (writer_of_period period hindex) hone
        refine ⟨call, body, hcall, hbody, by rwa [hsame], hparts.imp ?_ ?_⟩
        · unfold Half
          rw [hsame]
          exact id
        · intro hall argument hargument hfield
          rw [hsame] at hfield
          obtain ⟨hargwriter, hvalue⟩ := hall argument hargument hfield
          rw [hwriter]
          exact ⟨hargwriter, hholds argument (argument_ne hfield).1 hvalue⟩

/-- The run after the next assignment of the call in progress. -/
def assigned (run : Preempted) (assignment : Assignment) : Preempted :=
  { write run.current run assignment with done := run.done + 1 }

/-- The assignments that remain after the next one. -/
theorem remaining_assigned {assignment : Assignment} {rest : List Assignment}
    (h : run.remaining = assignment :: rest) : (run.assigned assignment).remaining = rest := by
  show run.body.drop (run.done + 1) = rest
  rw [← List.tail_drop]
  exact congrArg List.tail h

/-- The next assignment of the call in progress is executed. -/
theorem step_assign {assignment : Assignment} {rest : List Assignment}
    (h : run.remaining = assignment :: rest) :
    run.step defs rodIds .assign = run.assigned assignment := by
  simp only [step, h]
  rfl

/-- An interruptible call begins unless one is in progress. -/
theorem step_call {call : HandlerCall} (hcall : call ≠ .startPlay ∧ call ≠ .pause) :
    run.step defs rodIds (.call call) =
      if run.remaining = [] then
        { run with
          calls := run.calls ++ [call]
          current := run.calls.length
          body := (call.handler rodIds).body
          done := 0 }
      else run := by
  cases call with
  | startPlay => exact absurd rfl hcall.1
  | pause => exact absurd rfl hcall.2
  | home | userCommandMotor | userRotateRod => rfl

/-- The assignments that remain, executed in a row, act as their list. -/
theorem state_assign_all {rest : List Assignment} (h : run.remaining = rest) :
    ((List.replicate rest.length .assign).foldl (step defs rodIds) run).state =
      rest.foldl Assignment.apply run.state := by
  induction rest generalizing run with
  | nil => rfl
  | cons assignment rest ih =>
      rw [List.length_cons, List.replicate_succ, List.foldl_cons, step_assign h]
      exact ih (remaining_assigned h)

/-- A call whose assignments are executed in a row is the call made as one step. -/
theorem uninterrupted_call {call : HandlerCall} (hcall : call ≠ .startPlay ∧ call ≠ .pause)
    (h : run.remaining = []) :
    ((.call call :: List.replicate (call.handler rodIds).body.length .assign).foldl
        (step defs rodIds) run).state =
      (call.handler rodIds).run run.state := by
  rw [List.foldl_cons, step_call hcall, if_pos h]
  exact state_assign_all rfl

/-- The next assignment of the call in progress is the one at `done`. -/
theorem getElem?_of_remaining {assignment : Assignment} {rest : List Assignment}
    (h : run.remaining = assignment :: rest) : run.body[run.done]? = some assignment := by
  rw [← List.head?_drop]
  exact congrArg List.head? h

/-- Executing an assignment moves it from the remaining ones to the executed ones. -/
theorem mem_executed_assigned {assignment other : Assignment}
    (hk : run.body[run.done]? = some assignment) :
    other ∈ (run.assigned assignment).executed ↔ other ∈ run.executed ∨ other = assignment := by
  show other ∈ run.body.take (run.done + 1) ↔ _
  rw [List.take_add_one, hk]
  simp [executed]

/-- A variable other than the one assigned keeps its writer. -/
theorem writer_assigned_of_ne {assignment : Assignment} {field : Field}
    (hne : field ≠ assignment.field) :
    (run.assigned assignment).writer field = run.writer field :=
  Function.update_of_ne hne _ _

/-- The variable assigned has the call in progress as its writer. -/
theorem writer_assigned_self (assignment : Assignment) :
    (run.assigned assignment).writer assignment.field = some run.current :=
  Function.update_self _ _ _

/-- An assignment to another variable leaves the mode alone. -/
theorem mode_assigned {assignment : Assignment} (hne : assignment.field ≠ .mode) :
    (run.assigned assignment).state.mode = run.state.mode := by
  cases assignment <;> first | rfl | exact absurd rfl hne

/-- A half-written command stays half written when no part of it is assigned. -/
theorem Half.assigned (h : run.Half) {assignment : Assignment} {rest : List Assignment}
    (hremaining : run.remaining = assignment :: rest)
    (hsame : (run.assigned assignment).state.mode = run.state.mode)
    (hconcerns : ¬ assignment.Concerns run.state.mode) : (run.assigned assignment).Half := by
  obtain ⟨⟨first, hfirst, hfirst'⟩, last, hlast, hlast'⟩ := h
  have hk := getElem?_of_remaining hremaining
  have hrest : last ∈ rest := by
    rw [hremaining] at hlast
    rcases List.mem_cons.mp hlast with rfl | hrest
    · exact absurd hlast' hconcerns
    · exact hrest
  unfold Half
  rw [hsame, remaining_assigned hremaining]
  exact ⟨⟨first, (mem_executed_assigned hk).mpr (.inl hfirst), hfirst'⟩, last, hrest, hlast'⟩

/-- What the call in progress has written stays in place when it writes on. -/
theorem Tracked.fresh_assigned (h : Tracked rodIds run) {call : HandlerCall}
    {assignment : Assignment} (hbody : Interruptible rodIds call run.body)
    (hk : run.body[run.done]? = some assignment) {other : Assignment}
    (hmem : other ∈ (run.assigned assignment).executed) (hmode : other.field ≠ .mode)
    (hstart : other.field ≠ .start) :
    (run.assigned assignment).writer other.field = some run.current ∧
      other.Holds (run.assigned assignment).state := by
  rcases (mem_executed_assigned hk).mp hmem with hearlier | rfl
  · have hne : other.field ≠ assignment.field := by
      intro hsame
      exact hbody.written_once hk (hsame ▸ hmode) hearlier hsame
    obtain ⟨hwriter, hholds⟩ := h.fresh other hearlier hmode hstart
    rw [writer_assigned_of_ne hne]
    exact ⟨hwriter, (Assignment.holds_apply_of_ne hne _).mpr hholds⟩
  · exact ⟨writer_assigned_self _, other.holds_apply_self _⟩

/-- The mode and the arguments of a command are in place, or half written, after the call in
progress has written a part of it. -/
theorem Tracked.packet_assigned (h : Tracked rodIds run) {call : HandlerCall}
    {assignment : Assignment} (hbody : Interruptible rodIds call run.body)
    (hk : run.body[run.done]? = some assignment)
    (hone : (run.assigned assignment).state.mode.OneShot)
    (hconcerns : assignment.Concerns (run.assigned assignment).state.mode)
    (hpublished : .mode (run.assigned assignment).state.mode ∈ (run.assigned assignment).executed →
      (run.assigned assignment).writer .mode = some run.current)
    {index : Nat} (hindex : (run.assigned assignment).writer .mode = some index) :
    (run.assigned assignment).Half ∨
      index = run.current ∧ .mode (run.assigned assignment).state.mode ∈ run.body ∧
        ∀ argument ∈ run.body, argument.field ∈ (run.assigned assignment).state.mode.arguments →
          (run.assigned assignment).writer argument.field = some run.current ∧
            argument.Holds (run.assigned assignment).state := by
  have hself : assignment ∈ (run.assigned assignment).executed :=
    (mem_executed_assigned hk).mpr (.inr rfl)
  rcases hbody.publishes hone hk hconcerns with ⟨later, hlater, hlater'⟩ | ⟨hmode, hall⟩
  · exact .inl ⟨⟨assignment, hself, hconcerns⟩, later, hlater, hlater'⟩
  · refine .inr ⟨?_, List.mem_of_mem_take hmode, ?_⟩
    · rw [hpublished hmode] at hindex
      exact (Option.some.inj hindex).symm
    · intro argument hmem hfield
      obtain ⟨hnotmode, hnotstart⟩ := argument_ne hfield
      exact h.fresh_assigned hbody hk (hall argument hmem hfield) hnotmode hnotstart

/-- A mode that the call in progress has written is its own after another assignment too. -/
theorem Tracked.published_assigned (h : Tracked rodIds run) {assignment : Assignment}
    (hk : run.body[run.done]? = some assignment)
    (hmem : .mode (run.assigned assignment).state.mode ∈ (run.assigned assignment).executed)
    (hone : (run.assigned assignment).state.mode.OneShot) :
    (run.assigned assignment).writer .mode = some run.current := by
  by_cases hfield : assignment.field = .mode
  · rw [← hfield]
    exact writer_assigned_self assignment
  · rw [writer_assigned_of_ne (Ne.symm hfield)]
    rw [mode_assigned hfield] at hmem hone
    refine h.published (((mem_executed_assigned hk).mp hmem).resolve_right ?_) hone
    rintro rfl
    exact hfield rfl

/-- A mode that no call has written asks for nothing, or the thread was never started, after an
assignment too. -/
theorem Tracked.unset_assigned (h : Tracked rodIds run) {call : HandlerCall}
    {assignment : Assignment} (hbody : Interruptible rodIds call run.body)
    (hk : run.body[run.done]? = some assignment)
    (hwriter : (run.assigned assignment).writer .mode = none) :
    (run.assigned assignment).state.mode = .doNothing ∨
      ((run.assigned assignment).state.start = false ∧
          (run.assigned assignment).state.pc = .outerWait) ∧
        ∀ other ∈ (run.assigned assignment).executed, other.field ≠ .mode := by
  have hfield : assignment.field ≠ .mode := by
    intro hfield
    rw [← hfield, writer_assigned_self] at hwriter
    cases hwriter
  rw [writer_assigned_of_ne (Ne.symm hfield)] at hwriter
  rcases h.unset hwriter with hnothing | ⟨⟨hstart, hpc⟩, hunwritten⟩
  · exact .inl ((mode_assigned hfield).trans hnothing)
  · -- `_start` is not assigned here: the call would have written `_mode` before
    have hnotstart : assignment.field ≠ .start := by
      intro hfield'
      obtain ⟨earlier, hmem, hmode⟩ := hbody.start_after_mode hk hfield'
      exact hunwritten earlier hmem hmode
    refine .inr ⟨⟨?_, ?_⟩, ?_⟩
    · show (assignment.apply run.state).start = false
      cases assignment <;> first | exact hstart | exact absurd rfl hnotstart
    · show (assignment.apply run.state).pc = .outerWait
      cases assignment <;> exact hpc
    · intro other hmem
      rcases (mem_executed_assigned hk).mp hmem with hearlier | rfl
      · exact hunwritten other hearlier
      · exact hfield

/-- The arguments of a command that are in place stay there when no part of it is assigned. -/
theorem arguments_assigned {assignment : Assignment} {body : List Assignment} {index : Nat}
    (hall : ∀ argument ∈ body, argument.field ∈ run.state.mode.arguments →
      run.writer argument.field = some index ∧ argument.Holds run.state)
    (hsame : (run.assigned assignment).state.mode = run.state.mode)
    (hconcerns : ¬ assignment.Concerns run.state.mode) :
    ∀ argument ∈ body, argument.field ∈ (run.assigned assignment).state.mode.arguments →
      (run.assigned assignment).writer argument.field = some index ∧
        argument.Holds (run.assigned assignment).state := by
  intro argument hargument hargfield
  rw [hsame] at hargfield
  obtain ⟨hwriter, hholds⟩ := hall argument hargument hargfield
  have hnefield : argument.field ≠ assignment.field := by
    intro heq
    exact hconcerns (.inl (heq ▸ hargfield))
  rw [writer_assigned_of_ne hnefield]
  exact ⟨hwriter, (Assignment.holds_apply_of_ne hnefield _).mpr hholds⟩

/-- An assignment of the call in progress keeps a run tracked. -/
theorem Tracked.assign (h : Tracked rodIds run) {assignment : Assignment}
    {rest : List Assignment} (hremaining : run.remaining = assignment :: rest) :
    Tracked rodIds (run.assigned assignment) := by
  have hk := getElem?_of_remaining hremaining
  have hne : run.body ≠ [] := by
    intro hnil
    rw [hnil] at hk
    cases hk
  obtain ⟨call, hcall, hbody⟩ := h.begun.resolve_left hne
  refine
    { begun := .inr ⟨call, hcall, hbody⟩
      bounded := ?_
      fresh := fun _ hmem hmode hstart => h.fresh_assigned hbody hk hmem hmode hstart
      published := h.published_assigned hk
      unwritten := ?_
      unset := h.unset_assigned hbody hk
      packet := ?_ }
  · intro field index hwriter
    by_cases hfield : field = assignment.field
    · rw [hfield, writer_assigned_self] at hwriter
      cases hwriter
      exact h.current_lt hne
    · rw [writer_assigned_of_ne hfield] at hwriter
      exact h.bounded field index hwriter
  · intro field _ hwriter
    by_cases hfield : field = assignment.field
    · exact ⟨assignment, (mem_executed_assigned hk).mpr (.inr rfl), hfield.symm⟩
    · rw [writer_assigned_of_ne hfield] at hwriter
      obtain ⟨other, hmem, hother⟩ := h.unwritten field hne hwriter
      exact ⟨other, (mem_executed_assigned hk).mpr (.inl hmem), hother⟩
  · intro index hindex hone
    have hconcerned : assignment.Concerns (run.assigned assignment).state.mode → _ :=
      fun hconcerns => h.packet_assigned hbody hk hone hconcerns
        (h.published_assigned hk · hone) hindex
    by_cases hfield : assignment.field = .mode
    · -- the mode itself is assigned: the command is now that of the call in progress
      have hmode : assignment = .mode (run.assigned assignment).state.mode := by
        cases assignment <;> first | rfl | cases hfield
      have hindex' : index = run.current := by
        rw [← hfield, writer_assigned_self] at hindex
        exact (Option.some.inj hindex).symm
      have hmem : .mode (run.assigned assignment).state.mode ∈ run.body :=
        hmode ▸ List.mem_of_getElem? hk
      subst hindex'
      exact ⟨call, run.body, hcall, hbody, hmem, (hconcerned (.inr hmode)).imp id fun h => h.2.2⟩
    · have hsame : (run.assigned assignment).state.mode = run.state.mode := mode_assigned hfield
      have hone' := hone
      rw [writer_assigned_of_ne (Ne.symm hfield)] at hindex
      rw [hsame] at hone'
      obtain ⟨call', body', hcall', hbody', hmem, hparts⟩ := h.packet index hindex hone'
      by_cases hconcerns : assignment.Concerns (run.assigned assignment).state.mode
      · rcases hconcerned hconcerns with hhalf | ⟨rfl, hmode, hall⟩
        · exact ⟨call', body', hcall', hbody', hsame ▸ hmem, .inl hhalf⟩
        · exact ⟨call, run.body, hcall, hbody, hmode, .inr hall⟩
      · -- no part of the command is assigned
        rw [hsame] at hconcerns
        exact ⟨call', body', hcall', hbody', hsame ▸ hmem,
          hparts.imp (fun hhalf => hhalf.assigned hremaining hsame hconcerns)
            fun hall => arguments_assigned hall hsame hconcerns⟩

/-- Every step keeps a run tracked. -/
theorem Tracked.step (h : Tracked rodIds run) (event : AssignEvent) :
    Tracked rodIds (run.step defs rodIds event) := by
  cases event with
  | period period => exact h.period period
  | assign =>
      cases hremaining : run.remaining with
      | nil => simpa only [Preempted.step, hremaining] using h
      | cons assignment rest =>
          rw [step_assign hremaining]
          exact h.assign hremaining
  | call call =>
      by_cases hatomic : call ≠ .startPlay ∧ call ≠ .pause
      · rw [step_call hatomic]
        split
        · exact h.begin (interruptible rodIds hatomic) ‹_›
        · exact h
      · cases call with
        | startPlay => exact h.start_play
        | pause => exact h.pause
        | home | userCommandMotor | userRotateRod => exact absurd ⟨by simp, by simp⟩ hatomic

/-- A command whose mode and arguments have one writer is not half written. -/
theorem Tracked.not_half (h : Tracked rodIds run) (hone : run.state.mode.OneShot) {index : Nat}
    (hmode : run.writer .mode = some index)
    (hargs : ∀ field ∈ run.state.mode.arguments, run.writer field = some index) :
    ¬ run.Half := by
  intro hhalf
  obtain ⟨⟨first, hfirst, hfirst'⟩, last, hlast, hlast'⟩ := hhalf
  have hne : run.body ≠ [] := by
    intro hnil
    rw [executed, hnil] at hfirst
    simp at hfirst
  obtain ⟨call, -, hbody⟩ := h.begun.resolve_left hne
  -- what the call has written of the command makes it the writer, and so of what it has not
  have hindex : index = run.current := by
    rcases hfirst' with hargument | rfl
    · obtain ⟨hnotmode, hnotstart⟩ := argument_ne hargument
      have hwriter := (h.fresh first hfirst hnotmode hnotstart).1
      rw [hargs first.field hargument] at hwriter
      exact Option.some.inj hwriter
    · have hwriter := h.published hfirst hone
      rw [hmode] at hwriter
      exact Option.some.inj hwriter
  have hwriter : run.writer last.field = some run.current := by
    rw [← hindex]
    rcases hlast' with hargument | rfl
    · exact hargs last.field hargument
    · exact hmode
  obtain ⟨earlier, hearlier, hfield⟩ := h.unwritten last.field hne hwriter
  exact hbody.unwritten_part hone hfirst hfirst' hlast hlast' hearlier hfield

/-- A command that is not half written was written by one call, to which it is owed. -/
theorem Tracked.whole (h : Tracked rodIds run) (hpc : run.state.pc = .innerWait)
    (hone : run.state.mode.OneShot) (hhalf : ¬ run.Half) :
    ∃ index call, run.calls[index]? = some call ∧ call.request rodIds = run.state.held ∧
      run.writer .mode = some index ∧
      ∀ field ∈ run.state.mode.arguments, run.writer field = some index := by
  cases hwriter : run.writer .mode with
  | none =>
      -- a mode that no call has written does not reach the inner loop
      rcases h.unset hwriter with hnothing | ⟨⟨-, hpc'⟩, -⟩
      · exact absurd hnothing hone.2
      · rw [hpc] at hpc'
        cases hpc'
  | some index =>
      obtain ⟨call, body, hcall, hbody, hmode, hparts⟩ := h.packet index hwriter hone
      have hall := hparts.resolve_left hhalf
      refine ⟨index, call, hcall, ?_, rfl, ?_⟩
      · exact hbody.request_eq_held hone hmode fun argument hmem hfield =>
          (hall argument hmem hfield).2
      · intro field hfield
        obtain ⟨argument, hmem, rfl⟩ := hbody.arguments_written hone hmode hfield
        exact (hall argument hmem hfield).1

/-- A tracked thread acts on a whole command exactly when it is not disturbed. -/
theorem Tracked.whole_iff (h : Tracked rodIds run) (event : AssignEvent) :
    run.Whole defs rodIds event ↔ run.Undisturbed event := by
  cases event with
  | call call => exact Iff.rfl
  | assign => exact Iff.rfl
  | period period =>
      constructor
      · intro hwhole hpc hone hhalf
        obtain ⟨made, hheld⟩ := Option.isSome_iff_exists.mp ((one_shot_iff_held _).mp hone)
        obtain ⟨index, call, -, -, hmode, hargs⟩ := hwhole made (by
          rw [Log.answers_of_held defs period hpc hheld]
          exact List.mem_singleton_self made)
        exact h.not_half hone hmode hargs hhalf
      · intro hundisturbed made hmade
        obtain ⟨hpc, hheld⟩ := Log.held_of_answer hmade
        have hone := (one_shot_iff_held run.state).mpr (Option.isSome_of_eq_some hheld)
        obtain ⟨index, call, hcall, hrequest, hrest⟩ := h.whole hpc hone (hundisturbed hpc hone)
        exact ⟨index, call, hcall, hrequest.trans hheld, hrest⟩

/-- The thread acts on whole commands only in exactly the runs in which it never answers a
command that the call in progress has half written. -/
theorem whole_iff_undisturbed (defs : FLUDefs) (rodIds : List Int) (events : List AssignEvent) :
    Along (step defs rodIds) (Whole defs rodIds) start events ↔
      Along (step defs rodIds) Undisturbed start events := by
  refine along_congr ?_ ?_ (tracked_start rodIds) events
  · exact fun run event h => Tracked.step h event
  · exact fun run event h => h.whole_iff event

/-- Rod 0 is homed; then the thread preempts `home 1` between its write of `_mode` and its write
of `_currentRod`. -/
def halfHome : List AssignEvent :=
  [.call (.home 0), .assign, .assign, .assign, .assign, .period Log.homedPeriod,
    .period Log.homedPeriod, .call (.home 1), .assign, .assign]

/-- A motor command is pending when the thread preempts a second one after its first write. -/
def halfMotorCommand : List AssignEvent :=
  [.call .startPlay, .period Log.homedPeriod, .call (.userCommandMotor 0 10 1 0), .assign, .assign,
    .assign, .assign, .assign, .call (.userCommandMotor 1 99 7 1), .assign]

/-- The thread homes the rod of the first call in answer to the mode of the second, and steps the
motor of the second call with the steps of the first. -/
theorem preempted_call_acts_in_halves :
    (Log.answers (halfHome.foldl (step FLUDefs.small [0, 1]) start).state
          (wake FLUDefs.small Log.homedPeriod
            (halfHome.foldl (step FLUDefs.small [0, 1]) start).state).2 = [.rodHome 0] ∧
        (halfHome.foldl (step FLUDefs.small [0, 1]) start).writer .mode = some 1 ∧
        (halfHome.foldl (step FLUDefs.small [0, 1]) start).writer .currentRod = some 0 ∧
        ¬ Along (step FLUDefs.small [0, 1]) (Whole FLUDefs.small [0, 1]) start
          (halfHome ++ [.period Log.homedPeriod])) ∧
      Log.answers (halfMotorCommand.foldl (step FLUDefs.small [0, 1]) start).state
          (wake FLUDefs.small Log.homedPeriod
            (halfMotorCommand.foldl (step FLUDefs.small [0, 1]) start).state).2 =
        [.motorStep 10 0 1 1] ∧
      ¬ Along (step FLUDefs.small [0, 1]) (Whole FLUDefs.small [0, 1]) start
        (halfMotorCommand ++ [.period Log.homedPeriod]) := by
  refine ⟨⟨by decide, by decide, by decide, ?_⟩, by decide, ?_⟩
  · intro h
    obtain ⟨index, call, -, -, hmode, hargs⟩ := (along_append.mp h).2.1 (.rodHome 0) (by decide)
    have hrod := hargs .currentRod (by decide)
    have hmode' : (halfHome.foldl (step FLUDefs.small [0, 1]) start).writer .mode = some 1 := by
      decide
    have hrod' : (halfHome.foldl (step FLUDefs.small [0, 1]) start).writer .currentRod =
        some 0 := by decide
    rw [hmode'] at hmode
    rw [hrod'] at hrod
    cases hmode
    cases hrod
  · intro h
    obtain ⟨index, call, -, -, hmode, hargs⟩ :=
      (along_append.mp h).2.1 (.motorStep 10 0 1 1) (by decide)
    have hmotor := hargs .userCmdMotorId (by decide)
    have hmode' : (halfMotorCommand.foldl (step FLUDefs.small [0, 1]) start).writer .mode =
        some 1 := by decide
    have hmotor' : (halfMotorCommand.foldl (step FLUDefs.small [0, 1]) start).writer
        .userCmdMotorId = some 2 := by decide
    rw [hmode'] at hmode
    rw [hmotor'] at hmotor
    cases hmode
    cases hmotor

end Preempted

end FoosballTable.Logic
