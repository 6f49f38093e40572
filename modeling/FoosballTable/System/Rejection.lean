import FoosballTable.Command.WellFormed
import FoosballTable.Logic.Mailbox
import FoosballTable.System.Model
import FoosballTable.Tracker.Filter

/-!
# Rejected commands

A line is rejected for its word, for the tracking mode or for the rod that it names. The message
that is printed for a word or a mode changes nothing, but `home` writes `_mode` before it looks
for the rod, and a word that is no command is one as a string when it has a NUL in it or when only
its first bytes fit. `rejected_unchanged_iff` says when a rejected line leaves the system as it
was.
-/

namespace FoosballTable.Logic

/-- The variables of `FoosLogic` hold already what a call assigns. -/
def HandlerCall.Settled (rodIds : List Int) (state : State) : HandlerCall → Prop
  | .startPlay => state.start = true ∧ state.mode = .normal
  | .pause => state.start = false
  | .home id =>
      match findRod rodIds id with
      | some t => state.start = true ∧ state.mode = .home ∧ state.currentRod = t
      | none => state.mode = .doNothing
  | .userCommandMotor motor steps wait dir =>
      state.mode = .userCommand ∧ state.userCmdMotorId = motor ∧ state.userCmdSteps = steps ∧
        state.userCmdWait = wait ∧ state.userCmdDir = dir
  | .userRotateRod id anglePosition timeToWait dir =>
      state.mode = .userCommandRot ∧ state.userRot = ⟨id, anglePosition, timeToWait, dir⟩

/-- A call changes nothing exactly when its assignments do not. -/
theorem run_unchanged_iff (rodIds : List Int) (call : HandlerCall) (state : State) :
    (call.handler rodIds).run state = state ↔ call.Settled rodIds state := by
  obtain ⟨start, mode, currentRod, motorId, steps, wait, dir, userRot, ballPos, pc⟩ := state
  cases call with
  | startPlay | pause | userRotateRod =>
      simp [HandlerCall.handler, HandlerCall.Settled, Handler.run, startPlay, pause,
        userRotateRod, Assignment.apply, eq_comm, and_comm]
  | userCommandMotor motor steps' wait' dir' =>
      simp only [HandlerCall.handler, HandlerCall.Settled, Handler.run, userCommandMotor,
        Assignment.apply, List.foldl_cons, List.foldl_nil, State.mk.injEq, true_and, and_true]
      tauto
  | home id =>
      cases hfind : findRod rodIds id with
      | none =>
          simp [HandlerCall.handler, HandlerCall.Settled, Handler.run, home, hfind,
            Assignment.apply, eq_comm]
      | some t =>
          simp [HandlerCall.handler, HandlerCall.Settled, Handler.run, home, hfind,
            Assignment.apply, eq_comm]

end FoosballTable.Logic

namespace FoosballTable.System

open Library Command

variable {defs : FLUDefs}

/-- The words of the commands. -/
def commands : List (List Byte) :=
  [bytes "home", bytes "start", bytes "motorcmd", bytes "btmode", bytes "rotate"]

/-- A line is rejected: its word is no command, which includes every word that is too long, or its
mode is none, or it asks to home a rod that does not exist. -/
def Rejected (rodIds : List Int) (line : List Byte) : Action → Prop
  | .invalidMode _ => True
  | .call (.home id) => wordOf line ∉ commands ∨ (Logic.home rodIds id).status = .failure
  | _ => wordOf line ∉ commands

/-- The variables of the system hold already what an action assigns. -/
def Settled (setting : Setting) (state : State defs) : Action → Prop
  | .call call => call.Settled setting.rodIds state.logic
  | .setBallTrackingMode mode =>
      state.tracker.btMode = mode ∧ (∀ t, state.tracker.x.longCount.get t = 0) ∧
        ∀ t, state.tracker.y.longCount.get t = 0
  | .invalidMode _ | .invalidCommand => True

/-- Clearing an array changes nothing exactly when it is clear. -/
theorem zero_int_array_unchanged_iff {lasers : Nat} (array : Vector Int lasers) :
    Tracker.zeroIntArray array = array ↔ ∀ t, array.get t = 0 := by
  constructor
  · intro h t
    rw [← h]
    exact Tracker.zero_int_array_get array t
  · intro h
    refine Vector.ext fun index hindex => ?_
    exact (Tracker.zero_int_array_get array ⟨index, hindex⟩).trans (h ⟨index, hindex⟩).symm

/-- An action changes nothing exactly when its assignments do not. -/
theorem occur_unchanged_iff (setting : Setting) (state : State defs) (action : Action) :
    occur setting state (.commandLine action) = state ↔ Settled setting state action := by
  obtain ⟨logic, tracker, registry⟩ := state
  cases action with
  | call call =>
      show State.mk ((call.handler setting.rodIds).run logic) tracker registry = _ ↔ _
      rw [State.mk.injEq, and_iff_left ⟨rfl, rfl⟩]
      exact Logic.run_unchanged_iff setting.rodIds call logic
  | setBallTrackingMode mode =>
      show State.mk logic (Tracker.setBallTrackingMode mode tracker).2 registry = _ ↔ _
      rw [State.mk.injEq, and_iff_right rfl, and_iff_left rfl]
      unfold Settled
      rw [← zero_int_array_unchanged_iff, ← zero_int_array_unchanged_iff]
      obtain ⟨start, btMode, curPos, curPosShareMem, filterCount, x, y, pc⟩ := tracker
      obtain ⟨longCountX, breakCountX, breaksX, calcBreaksX, shareMemX⟩ := x
      obtain ⟨longCountY, breakCountY, breaksY, calcBreaksY, shareMemY⟩ := y
      cases mode with
      | normal | longCount =>
          simp [Tracker.setBallTrackingMode, Tracker.Axis.clearLongCount, eq_comm]
  | invalidMode | invalidCommand => exact iff_of_true rfl trivial

/-- The command of a line whose word is a command is that word. -/
theorem read_command {line : List Byte} {stack : Stack} {final : Frame}
    (hread : Read line stack final) (hword : wordOf line ∈ commands) :
    final.name = wordOf line := by
  have hshort : ∀ word ∈ commands, word.length ≤ 8 ∧ 0 ∉ word := by decide
  obtain ⟨hlength, hnul⟩ := hshort _ hword
  rw [read_name hread fun hlong => absurd hlong (by omega), commandName,
    List.take_of_length_le hlength, string_of_not_mem hnul]

/-- Only the word `home` asks to home a rod. -/
theorem home_of_requested {word : List Byte} {values : List Int} {id : Int}
    (h : requested word values = .call (.home id)) : word = bytes "home" := by
  by_contra hne
  unfold requested at h
  rw [if_neg hne] at h
  repeat' split at h
  all_goals cases h

/-- A name that is no command asks for nothing. -/
theorem requested_of_unknown {name : List Byte} (hname : name ∉ commands) (values : List Int) :
    requested name values = .invalidCommand := by
  simp only [commands, List.mem_cons, List.not_mem_nil, or_false, not_or] at hname
  obtain ⟨hhome, hstart, hmotor, hmode, hrotate⟩ := hname
  rw [requested, if_neg hhome, if_neg hstart, if_neg hmotor, if_neg hmode, if_neg hrotate]

/-- A line whose first eight bytes, up to a NUL, name no command asks for nothing. -/
theorem requested_of_unknown_name {line : List Byte} {stack : Stack} {final : Frame}
    (hread : Read line stack final) (hname : commandName line ∉ commands) (values : List Int) :
    requested final.name values = .invalidCommand := by
  refine requested_of_unknown ?_ values
  by_cases hnul : 8 < (wordOf line).length → 0 ∈ (wordOf line).take 8 ∨ stack.command[8] = 0
  · rw [read_name hread hnul]
    exact hname
  · -- the word runs into the last byte of `command`, and is longer than every command
    push Not at hnul
    obtain ⟨hlong, hword, hstale⟩ := hnul
    have hlength := read_overlong_name hread hlong hword hstale
    have hshort : ∀ word ∈ commands, word.length ≤ 8 := by decide
    intro hmem
    have := hshort _ hmem
    omega

/-- A rejected line leaves the system as it was exactly when two conditions are met. If its word is
`home`, the mode is `FL_DO_NOTHING` already. If its word is no command, its first eight bytes up to
a NUL are none either, or the variables hold already what is assigned for them. -/
theorem rejected_unchanged_iff (setting : Setting) (state : State defs) {received : List Byte}
    {stack : Stack} {action : Action}
    (haction : (Command.commandHandler received stack).value = some action)
    (hrejected : Rejected setting.rodIds (rtfGet received stack.msg) action) :
    occur setting state (.commandLine action) = state ↔
      (wordOf (rtfGet received stack.msg) = bytes "home" → state.logic.mode = .doNothing) ∧
        (wordOf (rtfGet received stack.msg) ∉ commands →
          commandName (rtfGet received stack.msg) ∈ commands → Settled setting state action) := by
  obtain ⟨final, hread, hrequested⟩ := message_read haction
  rw [occur_unchanged_iff]
  by_cases hword : wordOf (rtfGet received stack.msg) ∈ commands
  · rw [and_iff_left fun hnot => absurd hword hnot]
    rw [read_command hread hword] at hrequested
    by_cases hhome : wordOf (rtfGet received stack.msg) = bytes "home"
    · rw [forall_prop_of_true hhome]
      have hcall : action = .call (.home (final.values.toList.getD 0 0)) := by
        rw [hrequested, hhome]
        rfl
      subst hcall
      have hfailed := hrejected.resolve_left (not_not.mpr hword)
      have hnone := (Logic.home_status setting.rodIds _).mp hfailed
      show Logic.HandlerCall.Settled setting.rodIds state.logic (.home _) ↔ _
      rw [Logic.HandlerCall.Settled, hnone]
    · refine iff_of_true ?_ fun h => absurd h hhome
      -- the only other command that is rejected for its values is that of the mode
      cases action with
      | invalidMode | invalidCommand => trivial
      | setBallTrackingMode mode => exact absurd hword hrejected
      | call call =>
          cases call with
          | startPlay | pause | userCommandMotor | userRotateRod => exact absurd hword hrejected
          | home id => exact absurd (home_of_requested hrequested.symm) hhome
  · have hhome : wordOf (rtfGet received stack.msg) ≠ bytes "home" := by
      intro h
      exact hword (h ▸ List.mem_cons_self)
    rw [and_iff_right fun h => absurd h hhome, forall_prop_of_true hword]
    refine ⟨fun h _ => h, fun h => ?_⟩
    by_cases hname : commandName (rtfGet received stack.msg) ∈ commands
    · exact h hname
    · rw [hrequested, requested_of_unknown_name hread hname]
      trivial

/-- A game that is going on. -/
def playingSystem : State FLUDefs.small :=
  occur Setting.small twoMotorSystem (.commandLine (.call .startPlay))

/-- A rod that does not exist ends the game, and a word that is too long for `command` is carried
out for its first eight bytes. -/
theorem rejected_lines_change_mode :
    ((Command.commandHandler (bytes "home 7" ++ [lineFeed]) zeroStack).value =
        some (.call (.home 7)) ∧
      Rejected Setting.small.rodIds (bytes "home 7" ++ [lineFeed]) (.call (.home 7)) ∧
      occur Setting.small playingSystem (.commandLine (.call (.home 7))) ≠ playingSystem) ∧
      (Command.commandHandler (bytes "motorcmds 0" ++ [lineFeed]) zeroStack).value =
        some (.call (.userCommandMotor 0 0 0 0)) ∧
      Rejected Setting.small.rodIds (bytes "motorcmds 0" ++ [lineFeed])
        (.call (.userCommandMotor 0 0 0 0)) ∧
      occur Setting.small playingSystem (.commandLine (.call (.userCommandMotor 0 0 0 0))) ≠
        playingSystem := by
  refine ⟨⟨by decide, Or.inr rfl, fun h => ?_⟩, by decide, by unfold Rejected; decide, fun h => ?_⟩
  · exact absurd (congrArg (fun state => state.logic.mode) h) (by decide)
  · exact absurd (congrArg (fun state => state.logic.mode) h) (by decide)

/-- A mode that does not exist changes nothing. -/
theorem invalid_mode_changes_nothing :
    occur Setting.small playingSystem (.commandLine (.invalidMode 2)) = playingSystem := by
  have haction : (Command.commandHandler (bytes "btmode 2" ++ [lineFeed]) zeroStack).value =
      some (.invalidMode 2) := by decide
  exact (rejected_unchanged_iff Setting.small playingSystem haction trivial).mpr
    ⟨fun h => absurd h (by decide), fun h => absurd h (by decide)⟩

end FoosballTable.System
