import FoosballTable.Logic.Preemption

/-!
# References to rods

The thread reaches the rods through two variables: `_currentRod`, which `home` sets to an index it
has found, and `_userRot.id`, which `userRotateRod` sets to the number it is given. `rods_valid`
says when every rod reached is the one that was asked for: each rotation must name a rod that is
found at the index of its own id, and no command for a rod may be answered half written.
-/

namespace FoosballTable.Logic

open Library

/-- The rod that a call names. -/
def HandlerCall.rodId : HandlerCall → Option Int
  | .home id | .userRotateRod id _ _ _ => some id
  | .startPlay | .pause | .userCommandMotor .. => none

/-- The index with which the thread reaches into `_rods` when it answers a command. -/
def Call.rodIndex : Call → Option Int
  | .rodHome rod => some rod
  | .rodRotate _ rod => some rod
  | .rodHomeResumes | .motorStep .. | .playerMove .. => none

/-- The rod at an index has the id. -/
def RodAt (rodIds : List Int) (index id : Int) : Prop :=
  0 ≤ index ∧ rodIds[index.toNat]? = some id

instance (rodIds : List Int) (index id : Int) : Decidable (RodAt rodIds index id) :=
  inferInstanceAs (Decidable (_ ∧ _))

/-- A rotation names a rod by its index. -/
def HandlerCall.Named (rodIds : List Int) : HandlerCall → Prop
  | .userRotateRod id _ _ _ => RodAt rodIds id id
  | .startPlay | .pause | .home _ | .userCommandMotor .. => True

instance (rodIds : List Int) : (call : HandlerCall) → Decidable (call.Named rodIds)
  | .userRotateRod _ _ _ _ => inferInstanceAs (Decidable (_ ∧ _))
  | .startPlay | .pause | .home _ | .userCommandMotor .. => .isTrue trivial

/-- A rod that is found has the id that was searched for. -/
theorem rod_at_of_find {rodIds : List Int} {id : Int} {t : Nat}
    (h : findRod rodIds id = some t) : RodAt rodIds t id := by
  obtain ⟨hlt, heq, -⟩ := List.findIdx?_eq_some_iff_getElem.mp h
  refine ⟨Int.natCast_nonneg t, ?_⟩
  rw [Int.toNat_natCast, List.getElem?_eq_getElem hlt, beq_iff_eq.mp heq]

/-- A call that carries out a command reaches the rod that the command names. -/
theorem rod_at_of_request {rodIds : List Int} {call : HandlerCall} (hnamed : call.Named rodIds)
    {made : Call} (hrequest : call.request rodIds = some made) {index : Int}
    (hindex : made.rodIndex = some index) :
    ∃ id, call.rodId = some id ∧ RodAt rodIds index id := by
  cases call with
  | startPlay | pause => cases hrequest
  | home id =>
      obtain ⟨t, hfind, rfl⟩ := Option.map_eq_some_iff.mp hrequest
      obtain rfl := Option.some.inj hindex
      exact ⟨id, rfl, rod_at_of_find hfind⟩
  | userCommandMotor motor steps wait dir =>
      cases hrequest
      cases hindex
  | userRotateRod id anglePosition timeToWait dir =>
      cases hrequest
      obtain rfl := Option.some.inj hindex
      exact ⟨_, rfl, hnamed⟩

/-- A rod that is named by its index exists. -/
theorem RodAt.mem {rodIds : List Int} {index id : Int} (h : RodAt rodIds index id) :
    id ∈ rodIds :=
  List.mem_of_getElem? h.2

/-- A call that names a rod that does not exist fails, when a rotation names its rod by its
index. -/
theorem failure_of_missing {rodIds : List Int} {call : HandlerCall} (hnamed : call.Named rodIds)
    {id : Int} (hid : call.rodId = some id) (hmissing : id ∉ rodIds) :
    (call.handler rodIds).status = .failure := by
  cases call with
  | startPlay | pause | userCommandMotor => cases hid
  | home id =>
      obtain rfl := Option.some.inj hid
      refine (home_status rodIds _).mpr (List.findIdx?_eq_none_iff.mpr ?_)
      intro rodId hmem
      exact beq_eq_false_iff_ne.mpr fun heq => hmissing (heq ▸ hmem)
  | userRotateRod id anglePosition timeToWait dir =>
      obtain rfl := Option.some.inj hid
      exact absurd (RodAt.mem hnamed) hmissing

namespace Preempted

variable {defs : FLUDefs} {rodIds : List Int} {run : Preempted}

/-- What is claimed of a step. A call that names a rod that does not exist fails, and whenever the
thread reaches for a rod to answer a command, it finds the rod that the call named that wrote the
mode it answers. -/
def RodsValid (defs : FLUDefs) (rodIds : List Int) (run : Preempted) : AssignEvent → Prop
  | .call call => ∀ id, call.rodId = some id → id ∉ rodIds →
      (call.handler rodIds).status = .failure
  | .assign => True
  | .period period =>
      ∀ made ∈ Log.answers run.state (wake defs period run.state).2,
        ∀ index, made.rodIndex = some index →
          ∃ writer call id, run.writer .mode = some writer ∧ run.calls[writer]? = some call ∧
            call.rodId = some id ∧ RodAt rodIds index id

/-- The condition on a step: a rotation names a rod by its index, and no command for a rod is
answered while it is half written. -/
def RodsNamed (rodIds : List Int) (run : Preempted) : AssignEvent → Prop
  | .call call => call.Named rodIds
  | .assign => True
  | .period _ => run.state.pc = .innerWait →
      run.state.mode = .home ∨ run.state.mode = .userCommandRot → ¬ run.Half

instance (rodIds : List Int) (run : Preempted) : (event : AssignEvent) →
    Decidable (run.RodsNamed rodIds event)
  | .call _ => inferInstanceAs (Decidable (HandlerCall.Named _ _))
  | .assign => .isTrue trivial
  | .period _ => inferInstanceAs (Decidable (_ → _))

/-- The run is tracked, and every rotation so far has named a rod by its index. -/
structure Referenced (rodIds : List Int) (run : Preempted) : Prop where
  tracked : Tracked rodIds run
  named : ∀ call ∈ run.calls, call.Named rodIds

/-- A step adds no call, or the one that it starts. -/
theorem calls_step (event : AssignEvent) :
    (run.step defs rodIds event).calls = run.calls ∨
      ∃ call, event = .call call ∧ (run.step defs rodIds event).calls = run.calls ++ [call] := by
  cases event with
  | period period => exact .inl rfl
  | assign =>
      left
      cases hremaining : run.remaining with
      | nil => simp only [step, hremaining]
      | cons assignment rest => rw [step_assign hremaining]; rfl
  | call call =>
      by_cases hatomic : call ≠ .startPlay ∧ call ≠ .pause
      · rw [step_call hatomic]
        split
        · exact .inr ⟨call, rfl, rfl⟩
        · exact .inl rfl
      · cases call with
        | startPlay | pause => exact .inr ⟨_, rfl, rfl⟩
        | home | userCommandMotor | userRotateRod => exact absurd ⟨by simp, by simp⟩ hatomic

theorem referenced_start (rodIds : List Int) : Referenced rodIds start :=
  ⟨tracked_start rodIds, fun _ hmem => by cases hmem⟩

/-- A step that meets the condition keeps the rotations named. -/
theorem Referenced.step (h : Referenced rodIds run) {event : AssignEvent}
    (hguard : run.RodsNamed rodIds event) : Referenced rodIds (run.step defs rodIds event) := by
  refine ⟨h.tracked.step event, ?_⟩
  have hcalls : (run.step defs rodIds event).calls = run.calls ∨ _ := calls_step event
  rcases hcalls with hcalls | ⟨call, rfl, hcalls⟩
  · rw [hcalls]
    exact h.named
  · rw [hcalls]
    intro made hmem
    rcases List.mem_append.mp hmem with hmem | hmem
    · exact h.named made hmem
    · rw [List.mem_singleton.mp hmem]
      exact hguard

/-- A mode whose answer reaches for a rod is that of `home` or of a rotation. -/
theorem mode_of_rod_index {state : State} {made : Call} (hheld : state.held = some made)
    {index : Int} (hindex : made.rodIndex = some index) :
    state.mode = .home ∨ state.mode = .userCommandRot := by
  unfold State.held at hheld
  cases hmode : state.mode with
  | home => exact .inl rfl
  | userCommandRot => exact .inr rfl
  | normal | doNothing =>
      rw [hmode] at hheld
      cases hheld
  | userCommand =>
      rw [hmode] at hheld
      cases hheld
      cases hindex

/-- A step that meets the condition reaches the rod that is asked for. -/
theorem Referenced.valid (h : Referenced rodIds run) {event : AssignEvent}
    (hguard : run.RodsNamed rodIds event) : run.RodsValid defs rodIds event := by
  cases event with
  | assign => trivial
  | call call => exact fun id hid hmissing => failure_of_missing hguard hid hmissing
  | period period =>
      intro made hmade index hindex
      obtain ⟨hpc, hheld⟩ := Log.held_of_answer hmade
      have hone := (one_shot_iff_held run.state).mpr (Option.isSome_of_eq_some hheld)
      have hhalf := hguard hpc (mode_of_rod_index hheld hindex)
      obtain ⟨writer, call, hcall, hrequest, hmode, -⟩ := h.tracked.whole hpc hone hhalf
      obtain ⟨id, hid, hat⟩ := rod_at_of_request (h.named call (List.mem_of_getElem? hcall))
        (hrequest.trans hheld) hindex
      exact ⟨writer, call, id, hmode, hcall, hid, hat⟩

/-- When every rotation names a rod by its index and no command for a rod is answered half
written, every rod that is reached is the one asked for, and a command for a rod that does not
exist fails. -/
theorem rods_valid (defs : FLUDefs) (rodIds : List Int) (events : List AssignEvent)
    (hguard : Along (step defs rodIds) (RodsNamed rodIds) start events) :
    Along (step defs rodIds) (RodsValid defs rodIds) start events := by
  refine along_of_along ?_ ?_ (referenced_start rodIds) hguard
  · exact fun run event h hevent => Referenced.step h hevent
  · exact fun run event h hevent => Referenced.valid h hevent

/-- Play is started and the rotation of a rod is asked for. -/
def rotateRod (id : Int) : List AssignEvent :=
  [.call .startPlay, .period Log.homedPeriod, .call (.userRotateRod id 90 1 0), .assign, .assign,
    .assign, .assign, .assign]

/-- There are two rods, and the thread reaches for the eighth. -/
theorem missing_rod_rotated :
    ((HandlerCall.userRotateRod 7 90 1 0).handler [0, 1]).status = .success ∧
      Log.answers ((rotateRod 7).foldl (step FLUDefs.small [0, 1]) start).state
          (wake FLUDefs.small Log.homedPeriod
            ((rotateRod 7).foldl (step FLUDefs.small [0, 1]) start).state).2 =
        [.rodRotate 90 7] ∧
      ¬ Along (step FLUDefs.small [0, 1]) (RodsValid FLUDefs.small [0, 1]) start
        (rotateRod 7) := by
  refine ⟨rfl, by decide, ?_⟩
  intro h
  obtain ⟨-, -, hfailed, -⟩ := h
  cases hfailed 7 rfl (by decide)

/-- The second rod is rotated, and `home` of a rod that does not exist fails. -/
theorem existing_rod_rotated :
    Along (step FLUDefs.small [0, 1]) (RodsValid FLUDefs.small [0, 1]) start
      (rotateRod 1 ++ [.period Log.homedPeriod, .call (.home 7), .assign]) :=
  rods_valid FLUDefs.small [0, 1] _ (by decide)

end Preempted

end FoosballTable.Logic
