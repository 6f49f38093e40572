import FoosballTable.Library.Runs
import FoosballTable.Logic.Thread
import Mathlib.Data.List.Perm.Basic

/-!
# Delivery of the commands

The handlers run as single steps, between the periods of the thread and also while it waits
inside `rodHome`. The log records every handler call and every call the thread made to carry out
a command, so that `Log.Delivered` can compare them. The mailbox has room for one command and no
flag that tells whether it is in use: `commands_delivered` shows that it delivers every command
to a client that waits for the previous one, and `hurried_command_lost` that it loses one
whenever a client does not.
-/

namespace FoosballTable.Logic

open Library

/-- The call of the thread that carries out a handler call, where that call returns success. -/
def HandlerCall.request (rodIds : List Int) : HandlerCall → Option Call
  | .home id => (findRod rodIds id).map Call.rodHome
  | .userCommandMotor motor steps wait dir => some (.motorStep steps dir wait motor)
  | .userRotateRod id anglePosition _ _ => some (.rodRotate anglePosition id)
  | .startPlay | .pause => none

/-- The state with the handler calls made so far and the calls that carried out commands. -/
structure Log where
  state : State
  calls : List HandlerCall
  carried : List Call

/-- A handler call, or a period of the thread. -/
inductive Event where
  | call (call : HandlerCall)
  | period (period : Period)

namespace Log

/-- The log after `setup` and `run`. -/
def start : Log :=
  ⟨State.setup, [], []⟩

/-- The calls of a period that carry out the command in `_mode`. -/
def answers (state : State) (calls : List Call) : List Call :=
  if state.pc = .innerWait ∧ state.held.isSome then calls else []

/-- The log after an event. -/
def step (defs : FLUDefs) (rodIds : List Int) (log : Log) : Event → Log
  | .call call =>
      { state := (call.handler rodIds).run log.state
        calls := log.calls ++ [call]
        carried := log.carried }
  | .period period =>
      { log with
        state := (wake defs period log.state).1
        carried := log.carried ++ answers log.state (wake defs period log.state).2 }

/-- The commands accepted so far, as the calls that carry them out. -/
def accepted (rodIds : List Int) (log : Log) : List Call :=
  log.calls.filterMap (HandlerCall.request rodIds)

/-- The last handler call that writes `_mode` was `startPlay`. -/
def Playing (log : Log) : Prop :=
  (log.calls.filter (· ≠ .pause)).getLast? = some .startPlay

/-- No handler call has written `_mode`. -/
def Untouched (log : Log) : Prop :=
  ∀ call ∈ log.calls, call = .pause

/-- No command is lost or repeated: the accepted commands are those carried out, each once, and
at most one more, which is the command held in `_mode` and its parameter fields. After
`startPlay` the mode stays normal. -/
def Delivered (rodIds : List Int) (log : Log) : Prop :=
  ((log.accepted rodIds).Perm log.carried ∨
      (log.accepted rodIds).Perm (log.carried ++ log.state.held.toList)) ∧
    (log.Playing → log.state.mode = .normal)

/-- The mailbox is free: no handler has written `_mode` yet, or it holds no command. -/
def Free (log : Log) : Prop :=
  log.Untouched ∨ log.state.mode = .normal ∨ log.state.mode = .doNothing

/-- The condition on a handler call: the mailbox is free and no command is being carried out. A
`home` that finds no rod may also come while `rodHome` runs. -/
def Unhurried (rodIds : List Int) (log : Log) : Event → Prop
  | .call call =>
      call = .pause ∨ log.Free ∧ log.state.pc ≠ .homing ∨
        (call.handler rodIds).status = .failure ∧ log.state.pc = .homing
  | .period _ => True

instance (log : Log) : Decidable log.Playing := inferInstanceAs (Decidable (_ = _))

instance (log : Log) : Decidable log.Untouched :=
  inferInstanceAs (Decidable (∀ call ∈ log.calls, call = .pause))

instance (log : Log) : Decidable log.Free := inferInstanceAs (Decidable (_ ∨ _))

instance (rodIds : List Int) (log : Log) : Decidable (log.Delivered rodIds) :=
  inferInstanceAs (Decidable (_ ∧ _))

instance (rodIds : List Int) (log : Log) : (event : Event) → Decidable (Unhurried rodIds log event)
  | .call _ => inferInstanceAs (Decidable (_ ∨ _))
  | .period _ => .isTrue trivial

end Log

/-! ## What a handler call does to the mailbox -/

/-- `home` fails exactly when it owes nothing to its caller. -/
theorem home_status (rodIds : List Int) (id : Int) :
    (home rodIds id).status = .failure ↔ findRod rodIds id = none := by
  unfold home
  cases findRod rodIds id <;> simp

/-- Every handler call other than `pause` leaves in the mailbox exactly the command it owes. -/
theorem held_run (rodIds : List Int) {call : HandlerCall} (hcall : call ≠ .pause)
    (state : State) : ((call.handler rodIds).run state).held = call.request rodIds := by
  cases call with
  | pause => exact absurd rfl hcall
  | startPlay => rfl
  | home id =>
      simp only [HandlerCall.handler, HandlerCall.request, home]
      cases findRod rodIds id <;> rfl
  | userCommandMotor | userRotateRod => rfl

/-- A handler call does not move the thread. -/
theorem pc_run (rodIds : List Int) (call : HandlerCall) (state : State) :
    ((call.handler rodIds).run state).pc = state.pc := by
  cases call with
  | home id =>
      simp only [HandlerCall.handler, home]
      cases findRod rodIds id <;> rfl
  | startPlay | pause | userCommandMotor | userRotateRod => rfl

/-- A failed handler call owes nothing. -/
theorem request_of_failure {rodIds : List Int} {call : HandlerCall}
    (h : (call.handler rodIds).status = .failure) : call.request rodIds = none := by
  cases call with
  | home id => simp [HandlerCall.request, (home_status rodIds id).mp h]
  | startPlay | pause => rfl
  | userCommandMotor | userRotateRod => cases h

namespace Log

variable {defs : FLUDefs} {rodIds : List Int} {log : Log}

/-- The command held is `none` in a mode without command. -/
theorem held_of_free_mode {state : State}
    (h : state.mode = .normal ∨ state.mode = .doNothing) : state.held = none := by
  rcases h with h | h <;> simp [State.held, h]

/-- A command that is held in the inner loop is answered, and with nothing else. -/
theorem answers_of_held (defs : FLUDefs) (period : Period) {state : State} {made : Call}
    (hpc : state.pc = .innerWait) (hheld : state.held = some made) :
    answers state (wake defs period state).2 = [made] := by
  cases wake_case defs period state with
  | answered call _ hcall hcalls | homingStarted call _ hcall hcalls =>
      rw [hheld] at hcall
      cases hcall
      simp [answers, hpc, hheld, hcalls]
  | homingContinues hpc' | homingReturned hpc' =>
      rw [hpc] at hpc'
      cases hpc'
  | other _ hnone =>
      rw [hnone hpc] at hheld
      cases hheld

/-- A call that answers a command is the command held in the inner loop. -/
theorem held_of_answer {defs : FLUDefs} {period : Period} {state : State} {made : Call}
    (hmade : made ∈ answers state (wake defs period state).2) :
    state.pc = .innerWait ∧ state.held = some made := by
  by_cases hwaiting : state.pc = .innerWait ∧ state.held.isSome
  · obtain ⟨hpc, hsome⟩ := hwaiting
    obtain ⟨held, hheld⟩ := Option.isSome_iff_exists.mp hsome
    rw [answers_of_held defs period hpc hheld] at hmade
    exact ⟨hpc, by rw [hheld, List.mem_singleton.mp hmade]⟩
  · rw [answers, if_neg hwaiting] at hmade
    cases hmade

theorem accepted_call (call : HandlerCall) :
    (log.step defs rodIds (.call call)).accepted rodIds =
      log.accepted rodIds ++ (call.request rodIds).toList := by
  simp only [accepted, step, List.filterMap_append]
  cases h : call.request rodIds <;> simp [h]

/-- A call other than `pause` is the last one to write the mode. -/
theorem playing_call {call : HandlerCall} (hcall : call ≠ .pause) :
    (log.step defs rodIds (.call call)).Playing ↔ call = .startPlay := by
  simp [Playing, step, List.filter_append, hcall]

theorem playing_pause : (log.step defs rodIds (.call .pause)).Playing ↔ log.Playing := by
  simp [Playing, step, List.filter_append]

theorem untouched_call {call : HandlerCall} (hcall : call ≠ .pause) :
    ¬ (log.step defs rodIds (.call call)).Untouched := by
  intro h
  exact hcall (h call (by simp [step]))

theorem untouched_pause :
    (log.step defs rodIds (.call .pause)).Untouched ↔ log.Untouched := by
  simp [Untouched, step, or_imp]

/-- The command that waits in the mailbox: the one held, unless no handler has written the mode
or the thread is carrying it out. -/
def waiting (log : Log) : List Call :=
  if log.Untouched ∨ log.state.pc = .homing then [] else log.state.held.toList

/-- What holds throughout the guarded runs: the commands accepted are carried out in order, up
to the one that waits. -/
structure Calm (rodIds : List Int) (log : Log) : Prop where
  delivered : log.accepted rodIds = log.carried ++ log.waiting
  playing : log.Playing → log.state.mode = .normal ∧ log.state.pc ≠ .homing
  untouched : log.Untouched → log.state.start = false ∧ log.state.pc = .outerWait

theorem calm_start : Calm rodIds start :=
  ⟨rfl, fun h => by simp [Playing, start] at h, fun _ => ⟨rfl, rfl⟩⟩

/-- A calm log delivers. -/
theorem Calm.deliver (h : Calm rodIds log) : log.Delivered rodIds := by
  refine ⟨?_, fun hplaying => (h.playing hplaying).1⟩
  have hdelivered := h.delivered
  unfold waiting at hdelivered
  split at hdelivered
  · exact Or.inl (by rw [hdelivered, List.append_nil])
  · exact Or.inr (by rw [hdelivered])

/-- Nothing waits in a free mailbox. -/
theorem waiting_of_free (hfree : log.Free) : log.waiting = [] := by
  unfold waiting
  split
  · rfl
  · rename_i hnot
    rcases hfree with huntouched | hmode
    · exact absurd (Or.inl huntouched) hnot
    · rw [held_of_free_mode hmode, Option.toList_none]

/-- A pause keeps a log calm. -/
theorem Calm.pause (h : Calm rodIds log) : Calm rodIds (log.step defs rodIds (.call .pause)) := by
  have hwaiting : (log.step defs rodIds (.call .pause)).waiting = log.waiting := by
    simp only [waiting, untouched_pause]
    rfl
  refine ⟨?_, fun hplaying => h.playing (playing_pause.mp hplaying), ?_⟩
  · rw [accepted_call, hwaiting, h.delivered]
    simp [HandlerCall.request, step]
  · intro huntouched
    exact ⟨rfl, (h.untouched (untouched_pause.mp huntouched)).2⟩

/-- A handler call that finds the mailbox free, with no command being carried out, is the
command that waits next. -/
theorem Calm.call (h : Calm rodIds log) {call : HandlerCall} (hcall : call ≠ .pause)
    (hfree : log.Free) (hpc : log.state.pc ≠ .homing) :
    Calm rodIds (log.step defs rodIds (.call call)) := by
  have hpc' : (log.step defs rodIds (.call call)).state.pc ≠ .homing := by
    simp only [step, pc_run]
    exact hpc
  have hwaiting : (log.step defs rodIds (.call call)).waiting = (call.request rodIds).toList := by
    rw [waiting, if_neg (not_or.mpr ⟨untouched_call hcall, hpc'⟩)]
    simp only [step, held_run rodIds hcall]
  refine ⟨?_, ?_, fun huntouched => absurd huntouched (untouched_call hcall)⟩
  · rw [accepted_call, hwaiting, h.delivered, waiting_of_free hfree, List.append_nil]
    rfl
  · intro hplaying
    cases (playing_call hcall).mp hplaying
    exact ⟨rfl, hpc'⟩

/-- A `home` that fails while `rodHome` runs changes nothing that waits. -/
theorem Calm.failed (h : Calm rodIds log) {call : HandlerCall}
    (hfailed : (call.handler rodIds).status = .failure) (hpc : log.state.pc = .homing) :
    Calm rodIds (log.step defs rodIds (.call call)) := by
  have hcall : call ≠ .pause := by
    rintro rfl
    cases hfailed
  have hpc' : (log.step defs rodIds (.call call)).state.pc = .homing := by
    simp only [step, pc_run]
    exact hpc
  refine ⟨?_, ?_, fun huntouched => absurd huntouched (untouched_call hcall)⟩
  · have hdelivered := h.delivered
    rw [waiting, if_pos (Or.inr hpc)] at hdelivered
    rw [accepted_call, request_of_failure hfailed, hdelivered, waiting, if_pos (Or.inr hpc')]
    simp [step]
  · intro hplaying
    cases (playing_call hcall).mp hplaying
    cases hfailed

/-- What waits after a period in which the thread is not left inside `rodHome`. -/
theorem waiting_period (period : Period) (hnext : (wake defs period log.state).1.pc ≠ .homing) :
    (log.step defs rodIds (.period period)).waiting =
      if log.Untouched then [] else (wake defs period log.state).1.held.toList := by
  show (if log.Untouched ∨ (wake defs period log.state).1.pc = .homing then []
    else (wake defs period log.state).1.held.toList) = _
  simp only [hnext, or_false]

/-- A period keeps a log calm. -/
theorem Calm.period (h : Calm rodIds log) (period : Period) :
    Calm rodIds (log.step defs rodIds (.period period)) := by
  have haccepted : (log.step defs rodIds (.period period)).accepted rodIds =
      log.carried ++ log.waiting := h.delivered
  have huntouched' : (log.step defs rodIds (.period period)).Untouched →
      (log.step defs rodIds (.period period)).state.start = false ∧
        (log.step defs rodIds (.period period)).state.pc = .outerWait := by
    intro huntouched
    obtain ⟨hstart, hpc⟩ := h.untouched huntouched
    show (wake defs period log.state).1.start = false ∧
      (wake defs period log.state).1.pc = .outerWait
    rw [wake_stopped defs period hstart hpc]
    exact ⟨hstart, hpc⟩
  have hinner : log.state.pc = .innerWait → ¬ log.Untouched := by
    intro hpc huntouched
    rw [(h.untouched huntouched).2] at hpc
    cases hpc
  cases wake_case defs period log.state with
  | answered call hpc hheld hcalls hmode hnext =>
      -- the command that waits leaves the mailbox as it is carried out
      have hwaiting : log.waiting = [call] := by
        simp [waiting, hinner hpc, hpc, hheld]
      refine ⟨?_, ?_, huntouched'⟩
      · rw [haccepted, hwaiting, waiting_period period hnext, if_neg (hinner hpc),
          held_of_free_mode (Or.inr hmode)]
        simp [step, answers, hpc, hheld, hcalls]
      · intro hplaying
        have hnormal := (h.playing hplaying).1
        rw [held_of_free_mode (Or.inl hnormal)] at hheld
        cases hheld
  | homingStarted call hpc hheld hcalls hmode hnext hhome =>
      -- the command stays in `_mode` while `rodHome` runs, but it waits no longer
      have hwaiting : log.waiting = [call] := by
        simp [waiting, hinner hpc, hpc, hheld]
      have hwaiting' : (log.step defs rodIds (.period period)).waiting = [] :=
        if_pos (Or.inr hnext)
      refine ⟨?_, ?_, huntouched'⟩
      · rw [haccepted, hwaiting, hwaiting']
        simp [step, answers, hpc, hheld, hcalls]
      · intro hplaying
        have hnormal := (h.playing hplaying).1
        rw [hhome] at hnormal
        cases hnormal
  | homingContinues hpc hnext =>
      have hsame : log.step defs rodIds (.period period) = log := by
        simp [step, answers, hnext, hpc]
      rwa [hsame]
  | homingReturned hpc hmode hnext =>
      -- no `startPlay` came while `rodHome` ran, so the reset of the mode undoes none
      have hwaiting : log.waiting = [] := if_pos (Or.inr hpc)
      refine ⟨?_, fun hplaying => absurd hpc (h.playing hplaying).2, huntouched'⟩
      rw [haccepted, hwaiting, waiting_period period hnext, held_of_free_mode (Or.inr hmode)]
      simp [step, answers, hpc]
  | other hpc hheld hmode hnext =>
      have hheld' : (wake defs period log.state).1.held = log.state.held :=
        held_congr hmode (wake_written defs period log.state)
      have hanswers : answers log.state (wake defs period log.state).2 = [] := by
        refine if_neg ?_
        intro hboth
        rw [hheld hboth.1] at hboth
        cases hboth.2
      refine ⟨?_, fun hplaying => ⟨?_, hnext⟩, huntouched'⟩
      · rw [haccepted, waiting_period period hnext, hheld']
        simp [step, hanswers, waiting, hpc]
      · exact hmode.trans (h.playing hplaying).1

/-- A step that meets the condition keeps a log calm. -/
theorem Calm.step (h : Calm rodIds log) {event : Event} (hguard : Unhurried rodIds log event) :
    Calm rodIds (log.step defs rodIds event) := by
  cases event with
  | period period => exact h.period period
  | call call =>
      by_cases hcall : call = .pause
      · subst hcall
        exact h.pause
      · rcases hguard with hpause | ⟨hfree, hpc⟩ | ⟨hfailed, hpc⟩
        · exact absurd hpause hcall
        · exact h.call hcall hfree hpc
        · exact h.failed hfailed hpc

/-- A run of unhurried handler calls is calm throughout. -/
theorem calm_throughout {events : List Event}
    (hguard : Along (Log.step defs rodIds) (Unhurried rodIds) start events) :
    Throughout (Log.step defs rodIds) (Calm rodIds) start events := by
  refine throughout_of_along ?_ calm_start hguard
  exact fun log event h hevent => h.step hevent

/-- When every handler call finds the mailbox free and no command being carried out, no command
is lost or repeated in any state of the run. -/
theorem commands_delivered (defs : FLUDefs) (rodIds : List Int) (events : List Event)
    (hguard : Along (Log.step defs rodIds) (Unhurried rodIds) start events) :
    Throughout (Log.step defs rodIds) (Delivered rodIds) start events :=
  (calm_throughout hguard).mono fun _ h => h.deliver

/-- The period in which a running `rodHome` returns. -/
def homedPeriod : Period :=
  .quiet true

/-- A period in which a running `rodHome` waits on. -/
def waitingPeriod : Period :=
  .quiet false

/-- The shell session of the user guide, with the second `home` typed while the first rod is
still being homed, and `start` while the second one would be. -/
def homeHomeStart : List Event :=
  [.call (.home 0), .period waitingPeriod, .period waitingPeriod, .call (.home 1),
    .period homedPeriod, .call .startPlay]

/-- The same session with both rods homed one after the other, and `start` typed while the
second one is being homed. -/
def startWhileHoming : List Event :=
  [.call (.home 0), .period waitingPeriod, .period homedPeriod, .call (.home 1),
    .period waitingPeriod, .call .startPlay, .period homedPeriod]

/-- The first session homes only one of its two rods, and the second one leaves the mode that
`start` has set. -/
theorem user_guide_session_loses_commands :
    ((homeHomeStart.foldl (Log.step FLUDefs.small [0, 1]) start).accepted [0, 1] =
        [.rodHome 0, .rodHome 1] ∧
      (homeHomeStart.foldl (Log.step FLUDefs.small [0, 1]) start).carried = [.rodHome 0] ∧
      (homeHomeStart.foldl (Log.step FLUDefs.small [0, 1]) start).state.held = none ∧
      ¬ Throughout (Log.step FLUDefs.small [0, 1]) (Delivered [0, 1]) start homeHomeStart) ∧
    ((startWhileHoming.foldl (Log.step FLUDefs.small [0, 1]) start).Playing ∧
      (startWhileHoming.foldl (Log.step FLUDefs.small [0, 1]) start).state.mode = .doNothing ∧
      ¬ Throughout (Log.step FLUDefs.small [0, 1]) (Delivered [0, 1]) start startWhileHoming) := by
  decide

/-- The session of a client that waits for each command delivers both homings and the start. -/
theorem patient_session_delivered :
    Throughout (Log.step FLUDefs.small [0, 1]) (Delivered [0, 1]) start
      [.call (.home 0), .period waitingPeriod, .period waitingPeriod, .period homedPeriod,
        .call (.home 1), .period waitingPeriod, .period homedPeriod, .call .startPlay,
        .period waitingPeriod] :=
  commands_delivered FLUDefs.small [0, 1] _ (by decide)

/-! ## The condition is exact -/

/-- A log with more commands accepted than carried out and held has lost one. -/
theorem not_delivered_of_length
    (h : log.carried.length + log.state.held.toList.length < (log.accepted rodIds).length) :
    ¬ log.Delivered rodIds := by
  intro hdelivered
  obtain ⟨hperm | hperm, -⟩ := hdelivered
  · have := hperm.length_eq
    omega
  · have := hperm.length_eq
    rw [List.length_append] at this
    omega

/-- A handler call that finds a command waiting overwrites it. -/
theorem Calm.overwritten (h : Calm rodIds log) {call : HandlerCall} (hcall : call ≠ .pause)
    (hfree : ¬ log.Free) (hpc : log.state.pc ≠ .homing) :
    ¬ (log.step defs rodIds (.call call)).Delivered rodIds := by
  obtain ⟨huntouched, hmode⟩ := not_or.mp hfree
  obtain ⟨held, hheld⟩ : ∃ held, log.state.held = some held := by
    cases hm : log.state.mode <;> simp_all [State.held]
  have hdelivered : log.accepted rodIds = log.carried ++ [held] := by
    simpa [waiting, huntouched, hpc, hheld] using h.delivered
  apply not_delivered_of_length
  rw [accepted_call, hdelivered]
  simp only [Log.step, held_run rodIds hcall, List.length_append, List.length_singleton]
  omega

/-- A handler call that succeeds while `rodHome` runs is undone when `rodHome` returns. -/
theorem Calm.reset (h : Calm rodIds log) {call : HandlerCall} (hcall : call ≠ .pause)
    (hstatus : (call.handler rodIds).status ≠ .failure) (hpc : log.state.pc = .homing) :
    ¬ ((log.step defs rodIds (.call call)).step defs rodIds
      (.period homedPeriod)).Delivered rodIds := by
  have hpc' : (log.step defs rodIds (.call call)).state.pc = .homing := by
    simp only [Log.step, pc_run]
    exact hpc
  have hmode : ((log.step defs rodIds (.call call)).step defs rodIds
      (.period homedPeriod)).state.mode = .doNothing := by
    show (wake defs homedPeriod (log.step defs rodIds (.call call)).state).1.mode = .doNothing
    simp [wake, hpc', homedPeriod, Period.quiet]
  have hdelivered : log.accepted rodIds = log.carried := by
    simpa [waiting, hpc] using h.delivered
  -- the reset takes the mode from `startPlay`, and the command from any other call
  by_cases hstart : call = .startPlay
  · subst hstart
    intro hdelivered
    obtain ⟨-, hplaying⟩ := hdelivered
    have hstarted : (log.step defs rodIds (.call .startPlay)).Playing :=
      (playing_call hcall).mpr rfl
    have hnormal := hplaying hstarted
    rw [hmode] at hnormal
    cases hnormal
  · obtain ⟨owed, howed⟩ : ∃ owed, call.request rodIds = some owed := by
      cases call with
      | startPlay => exact absurd rfl hstart
      | pause => exact absurd rfl hcall
      | home id =>
          cases hfind : findRod rodIds id with
          | none => exact absurd ((home_status rodIds id).mpr hfind) hstatus
          | some t => exact ⟨.rodHome t, by simp [HandlerCall.request, hfind]⟩
      | userCommandMotor | userRotateRod => exact ⟨_, rfl⟩
    apply not_delivered_of_length
    have haccepted : ((log.step defs rodIds (.call call)).step defs rodIds
        (.period homedPeriod)).accepted rodIds = log.carried ++ [owed] := by
      show (log.step defs rodIds (.call call)).accepted rodIds = _
      rw [accepted_call, hdelivered, howed, Option.toList_some]
    have hcarried : ((log.step defs rodIds (.call call)).step defs rodIds
        (.period homedPeriod)).carried = log.carried := by
      show log.carried ++ answers (log.step defs rodIds (.call call)).state _ = _
      simp [answers, hpc']
    rw [haccepted, hcarried, held_of_free_mode (Or.inr hmode)]
    simp

/-- The first handler call of a run that does not meet the condition loses a command, at once or
when the running `rodHome` returns. -/
theorem hurried_command_lost (events : List Event) (event : Event)
    (hguard : Along (Log.step defs rodIds) (Unhurried rodIds) start events)
    (hhurried : ¬ Unhurried rodIds (events.foldl (Log.step defs rodIds) start) event) :
    ∃ periods : List Period, ¬ Delivered rodIds
      ((events ++ event :: periods.map .period).foldl (Log.step defs rodIds) start) := by
  have hcalm := (calm_throughout hguard).last
  simp only [List.foldl_append, List.foldl_cons]
  cases event with
  | period period => exact absurd trivial hhurried
  | call call =>
      obtain ⟨hcall, hhurried⟩ := not_or.mp hhurried
      obtain ⟨hbusy, hfailed⟩ := not_or.mp hhurried
      by_cases hpc : (events.foldl (Log.step defs rodIds) start).state.pc = .homing
      · exact ⟨[homedPeriod], hcalm.reset hcall (fun h => hfailed ⟨h, hpc⟩) hpc⟩
      · exact ⟨[], hcalm.overwritten hcall (fun h => hbusy ⟨h, hpc⟩) hpc⟩

end Log

end FoosballTable.Logic
