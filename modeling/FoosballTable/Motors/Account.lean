import FoosballTable.Library.Runs
import FoosballTable.Motors.Registry
import Mathlib.Logic.Function.Basic

/-!
# Accounts of the commanded motion

Beside the registry run two accounts for each motor: the edges emitted so far, and the steps of
the `motorStep` calls that returned `success`. `Ledger.Balanced` says that no motion is lost or
invented. `resumeMotors` keeps it exactly when no motor has run since its `prevState` was saved:
a resume without a pause writes a stale state back over the current one.
-/

namespace FoosballTable.Motors

open Library

/-- A tick of the motor controller on a motor, with the number of edges it emits. Only a busy
motor with edges left is touched; each emitted edge lowers `edgeToSend` by one, and the motor is
`complete` when none is left. The controller may set the waiting cycles as it likes. -/
def tick (edges cyclesToWait : Nat) (motor : Motor) : Nat × Motor :=
  if motor.state = .busy ∧ 0 < motor.edgeToSend then
    let emitted := min edges motor.edgeToSend
    (emitted,
      { motor with
        edgeToSend := motor.edgeToSend - emitted
        cyclesToWait := cyclesToWait
        state := if motor.edgeToSend - emitted = 0 then .complete else .busy })
  else (0, motor)

/-- The registry with the accounts of the motor at each position. -/
structure Ledger (capacity : Nat) where
  registry : Registry capacity
  emitted : Nat → Nat
  ordered : Nat → Nat

/-- What happens to the motors: a call of `Motor.c`, or a tick of one motor. -/
inductive MotorEvent where
  | call (call : MotorCall)
  | tick (edges cyclesToWait : Nat) (position : Nat)
  deriving DecidableEq, Repr

/-- The steps ordered by a call are representable: `2 * numberOfSteps` does not overflow. -/
def MotorEvent.Fits : MotorEvent → Prop
  | .call (.motorStep numberOfSteps _ _ _) => numberOfSteps < 2 ^ 31
  | _ => True

/-- `MotorEvent.Fits` is decidable by inspection of the event. -/
instance : DecidablePred MotorEvent.Fits
  | .call (.motorStep numberOfSteps _ _ _) => inferInstanceAs (Decidable (numberOfSteps < 2 ^ 31))
  | .call (.createNewMotor _) | .call .stopMotors | .call .resumeMotors | .tick _ _ _ =>
      .isTrue trivial

namespace Ledger

variable {capacity : Nat} {defs : FLUDefs}

/-- No motors yet and empty accounts. -/
def start (capacity : Nat) : Ledger capacity :=
  ⟨Registry.empty capacity, fun _ => 0, fun _ => 0⟩

/-- The steps a call adds to the account of a motor: those of an accepted `motorStep`. -/
def accepted (numberOfSteps : Nat) (direction : Int) (cyclesToWait : Nat) (motor : Motor) : Nat :=
  if (motorStep numberOfSteps direction cyclesToWait motor).1 = .success then numberOfSteps else 0

/-- The ledger after an event. An event at a position without a motor changes nothing. -/
def step (defs : FLUDefs) (ledger : Ledger capacity) : MotorEvent → Ledger capacity
  | .call (.motorStep numberOfSteps direction cyclesToWait position) =>
      match ledger.registry.motors[position]? with
      | some motor =>
          { ledger with
            registry := ledger.registry.motorStep numberOfSteps direction cyclesToWait position
            ordered := Function.update ledger.ordered position
              (ledger.ordered position +
                accepted numberOfSteps direction cyclesToWait motor) }
      | none => ledger
  | .call call => { ledger with registry := call.run defs ledger.registry }
  | .tick edges cyclesToWait position =>
      match ledger.registry.motors[position]? with
      | some motor =>
          { ledger with
            registry :=
              ⟨ledger.registry.motors.modify position fun motor =>
                (Motors.tick edges cyclesToWait motor).2, by simpa using ledger.registry.bound⟩
            emitted := Function.update ledger.emitted position
              (ledger.emitted position + (Motors.tick edges cyclesToWait motor).1) }
      | none => ledger

end Ledger

/-- Nothing is left to send for a motor that is complete, or was when it was stopped. -/
def Motor.Rests (motor : Motor) : Prop :=
  motor.state = .complete ∨ motor.state = .stop ∧ motor.prevState = .complete

/-- A motor that is busy, or was when it was stopped. -/
def Motor.Works (motor : Motor) : Prop :=
  motor.state = .busy ∨ motor.state = .stop ∧ motor.prevState = .busy

instance (motor : Motor) : Decidable motor.Rests := inferInstanceAs (Decidable (_ ∨ _))
instance (motor : Motor) : Decidable motor.Works := inferInstanceAs (Decidable (_ ∨ _))

/-- The state of a motor and its accounts agree: the state tells whether edges are left, and
the edges emitted and left are the edges ordered. -/
structure Accounted (motor : Motor) (emitted ordered : Nat) : Prop where
  rests : motor.Rests → motor.edgeToSend = 0
  works : motor.Works → 0 < motor.edgeToSend
  conserved : emitted + motor.edgeToSend = 2 * ordered

/-- `Accounted` is decidable by evaluation. -/
instance (motor : Motor) (emitted ordered : Nat) : Decidable (Accounted motor emitted ordered) :=
  decidable_of_iff
    ((motor.Rests → motor.edgeToSend = 0) ∧ (motor.Works → 0 < motor.edgeToSend) ∧
      emitted + motor.edgeToSend = 2 * ordered)
    ⟨fun ⟨h₁, h₂, h₃⟩ => ⟨h₁, h₂, h₃⟩, fun ⟨h₁, h₂, h₃⟩ => ⟨h₁, h₂, h₃⟩⟩

/-- The saved state of a motor is the one a resume may restore: the motor is stopped, or the
slot holds the current state. -/
def Motor.Resumable (motor : Motor) : Prop :=
  motor.state = .stop ∨ motor.prevState = motor.state

instance (motor : Motor) : Decidable motor.Resumable := inferInstanceAs (Decidable (_ ∨ _))

/-- A motor whose slot holds `stop` has been stopped twice and is still stopped. -/
def Motor.SlotSound (motor : Motor) : Prop :=
  motor.prevState = .stop → motor.state = .stop

/-! ## One motor -/

section OneMotor

variable {motor : Motor} {emitted ordered : Nat}

/-- A new motor owes nothing. -/
theorem accounted_normal (defs : FLUDefs) (bitPosition : Nat) :
    Accounted (Motor.normal defs bitPosition) 0 0 :=
  ⟨fun _ => rfl, fun h => by simp [Motor.Works, Motor.normal] at h, rfl⟩

/-- An accepted order enters both sides of the account; a rejected one enters neither. -/
theorem Accounted.motor_step (h : Accounted motor emitted ordered) {numberOfSteps : Nat}
    (hlt : numberOfSteps < 2 ^ 31) (direction : Int) (cyclesToWait : Nat) :
    Accounted (motorStep numberOfSteps direction cyclesToWait motor).2 emitted
      (ordered + Ledger.accepted numberOfSteps direction cyclesToWait motor) := by
  by_cases hstate : motor.state = .complete
  · have hempty : motor.edgeToSend = 0 := h.rests (Or.inl hstate)
    have hconserved := h.conserved
    rcases Nat.eq_zero_or_pos numberOfSteps with rfl | hpos
    · rw [motor_step_zero]
      simpa [Ledger.accepted] using h
    · rw [Ledger.accepted, motor_step_accepted hstate hpos hlt]
      refine ⟨?_, fun _ => by simpa using hpos, ?_⟩
      · intro hrests
        simp [Motor.Rests] at hrests
      · simp only [if_true]
        omega
  · rw [Ledger.accepted, motor_step_rejected hstate]
    simpa using h

/-- A tick moves edges from one side of the account to the other. -/
theorem Accounted.tick (h : Accounted motor emitted ordered) (edges cyclesToWait : Nat) :
    Accounted (tick edges cyclesToWait motor).2
      (emitted + (Motors.tick edges cyclesToWait motor).1) ordered := by
  have hconserved := h.conserved
  by_cases hbusy : motor.state = .busy ∧ 0 < motor.edgeToSend
  · simp only [Motors.tick, if_pos hbusy]
    refine ⟨?_, ?_, ?_⟩
    · intro hrests
      by_cases hdone : motor.edgeToSend - min edges motor.edgeToSend = 0
      · exact hdone
      · simp [Motor.Rests, hdone] at hrests
    · intro hworks
      by_cases hdone : motor.edgeToSend - min edges motor.edgeToSend = 0
      · simp [Motor.Works, hdone] at hworks
      · exact Nat.pos_of_ne_zero hdone
    · show emitted + min edges motor.edgeToSend +
        (motor.edgeToSend - min edges motor.edgeToSend) = 2 * ordered
      omega
  · simpa only [Motors.tick, if_neg hbusy, Nat.add_zero] using h

/-- Stopping a motor keeps its account: the slot remembers whether it works or rests. -/
theorem Accounted.stop (h : Accounted motor emitted ordered) :
    Accounted (stopMotor motor) emitted ordered := by
  refine ⟨fun hrests => h.rests ?_, fun hworks => h.works ?_, h.conserved⟩
  · simp only [Motor.Rests, stopMotor, reduceCtorEq, true_and, false_or] at hrests
    exact Or.inl hrests
  · simp only [Motor.Works, stopMotor, reduceCtorEq, true_and, false_or] at hworks
    exact Or.inl hworks

/-- Resuming a motor keeps its account exactly when the slot may be restored. -/
theorem Accounted.resume_iff (h : Accounted motor emitted ordered) (hslot : motor.SlotSound) :
    Accounted (resumeMotor motor) emitted ordered ↔ motor.Resumable := by
  have hrests := h.rests
  have hworks := h.works
  constructor
  · intro hresumed
    obtain ⟨hrests', hworks', -⟩ := hresumed
    cases hs : motor.state <;> cases hp : motor.prevState <;>
      simp_all [Motor.Rests, Motor.Works, Motor.Resumable, Motor.SlotSound, resumeMotor]
  · intro hresumable
    rcases hresumable with hstop | hsame
    · refine ⟨fun hr => hrests (Or.inr ⟨hstop, ?_⟩), fun hw => hworks (Or.inr ⟨hstop, ?_⟩),
        h.conserved⟩
      · rcases hr with hr | ⟨hr, hr'⟩
        · exact hr
        · exact hr'
      · rcases hw with hw | ⟨hw, hw'⟩
        · exact hw
        · exact hw'
    · have heq : resumeMotor motor = motor := by
        cases motor
        cases hsame
        rfl
      rwa [heq]

end OneMotor

/-! ## The registry -/

namespace Ledger

variable {capacity : Nat} {defs : FLUDefs} {ledger : Ledger capacity}

/-- No motion is lost or invented: every registered motor is `Accounted`. -/
def Balanced (ledger : Ledger capacity) : Prop :=
  ∀ position motor, ledger.registry.motors[position]? = some motor →
    Accounted motor (ledger.emitted position) (ledger.ordered position)

/-- `Balanced` is decidable: finitely many motors are registered. -/
instance : DecidablePred fun ledger : Ledger capacity => Balanced ledger := fun ledger =>
  decidable_of_iff
    (∀ position : Fin ledger.registry.motors.length,
      Accounted ledger.registry.motors[position] (ledger.emitted position)
        (ledger.ordered position))
    ⟨fun h position motor hmotor => by
      obtain ⟨hlt, rfl⟩ := List.getElem?_eq_some_iff.mp hmotor
      exact h ⟨position, hlt⟩,
    fun h position => h position _ (List.getElem?_eq_getElem position.isLt)⟩

/-- A resume finds every registered motor stopped, or with its current state in the slot. -/
def ResumesFrozen (ledger : Ledger capacity) (event : MotorEvent) : Prop :=
  event = .call .resumeMotors → ∀ motor ∈ ledger.registry.motors, motor.Resumable

instance (ledger : Ledger capacity) (event : MotorEvent) :
    Decidable (ResumesFrozen ledger event) :=
  inferInstanceAs (Decidable (_ → _))

/-- What holds of every run, guarded or not: the slots are sound, and no account was opened
for a motor that does not exist. -/
structure Sound (ledger : Ledger capacity) : Prop where
  slots : ∀ motor ∈ ledger.registry.motors, motor.SlotSound
  fresh : ∀ position, ledger.registry.motors.length ≤ position →
    ledger.emitted position = 0 ∧ ledger.ordered position = 0

theorem sound_start : Sound (start capacity) :=
  ⟨fun _ h => by simp [start, Registry.empty] at h, fun _ _ => ⟨rfl, rfl⟩⟩

theorem balanced_start : Balanced (start capacity) := by
  intro position motor h
  simp [start, Registry.empty] at h

/-- What an event does at one position: the motor found there afterwards is a new one, or the
motor found there before, untouched or moved by the event, with its accounts. -/
inductive Moved (defs : FLUDefs) (ledger : Ledger capacity) (position : Nat) (motor : Motor) :
    MotorEvent → Nat → Nat → Prop where
  | fresh (bitPosition : Nat) (hfresh : ledger.registry.motors.length ≤ position)
      (hmotor : motor = Motor.normal defs bitPosition) :
      Moved defs ledger position motor (.call (.createNewMotor bitPosition))
        (ledger.emitted position) (ledger.ordered position)
  | same (event : MotorEvent) (hevent : event ≠ .call .stopMotors ∧ event ≠ .call .resumeMotors)
      (hmotor : ledger.registry.motors[position]? = some motor) :
      Moved defs ledger position motor event (ledger.emitted position) (ledger.ordered position)
  | stepped (numberOfSteps : Nat) (direction : Int) (cyclesToWait : Nat) (before : Motor)
      (hbefore : ledger.registry.motors[position]? = some before)
      (hmotor : motor = (motorStep numberOfSteps direction cyclesToWait before).2) :
      Moved defs ledger position motor
        (.call (.motorStep numberOfSteps direction cyclesToWait position))
        (ledger.emitted position)
        (ledger.ordered position + accepted numberOfSteps direction cyclesToWait before)
  | stopped (before : Motor) (hbefore : ledger.registry.motors[position]? = some before)
      (hmotor : motor = stopMotor before) :
      Moved defs ledger position motor (.call .stopMotors)
        (ledger.emitted position) (ledger.ordered position)
  | resumed (before : Motor) (hbefore : ledger.registry.motors[position]? = some before)
      (hmotor : motor = resumeMotor before) :
      Moved defs ledger position motor (.call .resumeMotors)
        (ledger.emitted position) (ledger.ordered position)
  | ticked (edges cyclesToWait : Nat) (before : Motor)
      (hbefore : ledger.registry.motors[position]? = some before)
      (hmotor : motor = (Motors.tick edges cyclesToWait before).2) :
      Moved defs ledger position motor (.tick edges cyclesToWait position)
        (ledger.emitted position + (Motors.tick edges cyclesToWait before).1)
        (ledger.ordered position)

/-- An entry of a list after one of them was modified: it is that one, or it was there before. -/
theorem get_elem_modify_cases {f : Motor → Motor} {motors : List Motor} {target position : Nat}
    {before motor : Motor} (htarget : motors[target]? = some before)
    (h : (motors.modify target f)[position]? = some motor) :
    target = position ∧ motor = f before ∨ target ≠ position ∧ motors[position]? = some motor := by
  by_cases hposition : target = position
  · subst hposition
    rw [List.getElem?_modify_eq, htarget] at h
    exact .inl ⟨rfl, (Option.some.inj h).symm⟩
  · rw [List.getElem?_modify_ne _ _ hposition] at h
    exact .inr ⟨hposition, h⟩

/-- The inversion of a step: how the motor at a position and its accounts came about. -/
theorem step_moved (event : MotorEvent) {position : Nat} {motor : Motor}
    (h : (step defs ledger event).registry.motors[position]? = some motor) :
    Moved defs ledger position motor event ((step defs ledger event).emitted position)
      ((step defs ledger event).ordered position) := by
  cases event with
  | call call =>
      cases call with
      | createNewMotor bitPosition =>
          simp only [step, MotorCall.run, create_new_motor_motors] at h ⊢
          split at h
          · rw [List.getElem?_append] at h
            split at h
            · exact .same _ (by simp) h
            · rename_i hlt
              rw [List.getElem?_singleton] at h
              split at h
              · exact .fresh bitPosition (Nat.le_of_not_lt hlt) (Option.some.inj h).symm
              · cases h
          · exact .same _ (by simp) h
      | motorStep numberOfSteps direction cyclesToWait target =>
          cases htarget : ledger.registry.motors[target]? with
          | none =>
              simp only [step, htarget] at h ⊢
              exact .same _ (by simp) h
          | some before =>
              simp only [step, htarget, registry_motor_step_motors] at h ⊢
              rcases get_elem_modify_cases htarget h with ⟨rfl, hmotor⟩ | ⟨hposition, hmotor⟩
              · rw [Function.update_self]
                exact .stepped _ _ _ before htarget hmotor
              · rw [Function.update_of_ne hposition.symm]
                exact .same _ (by simp) hmotor
      | stopMotors =>
          simp only [step, MotorCall.run, stop_motors_motors, List.getElem?_map,
            Option.map_eq_some_iff] at h ⊢
          obtain ⟨before, hbefore, hmotor⟩ := h
          exact .stopped before hbefore hmotor.symm
      | resumeMotors =>
          simp only [step, MotorCall.run, resume_motors_motors, List.getElem?_map,
            Option.map_eq_some_iff] at h ⊢
          obtain ⟨before, hbefore, hmotor⟩ := h
          exact .resumed before hbefore hmotor.symm
  | tick edges cyclesToWait target =>
      cases htarget : ledger.registry.motors[target]? with
      | none =>
          simp only [step, htarget] at h ⊢
          exact .same _ (by simp) h
      | some before =>
          simp only [step, htarget] at h ⊢
          rcases get_elem_modify_cases htarget h with ⟨rfl, hmotor⟩ | ⟨hposition, hmotor⟩
          · rw [Function.update_self]
            exact .ticked _ _ before htarget hmotor
          · rw [Function.update_of_ne hposition.symm]
            exact .same _ (by simp) hmotor

/-- No motor leaves the registry. -/
theorem length_le_step (defs : FLUDefs) (event : MotorEvent) :
    ledger.registry.motors.length ≤ (step defs ledger event).registry.motors.length := by
  cases event with
  | call call =>
      cases call with
      | createNewMotor bitPosition =>
          simp only [step, MotorCall.run, create_new_motor_motors]
          split <;> simp
      | motorStep _ _ _ target =>
          cases htarget : ledger.registry.motors[target]? <;> simp [step, htarget]
      | stopMotors | resumeMotors => simp [step, MotorCall.run]
  | tick _ _ target =>
      cases htarget : ledger.registry.motors[target]? <;> simp [step, htarget]

/-- The accounts of a position without a motor do not move. -/
theorem step_accounts_fresh (defs : FLUDefs) (event : MotorEvent) {position : Nat}
    (hfresh : ledger.registry.motors.length ≤ position) :
    (step defs ledger event).emitted position = ledger.emitted position ∧
      (step defs ledger event).ordered position = ledger.ordered position := by
  have hother : ∀ target motor, ledger.registry.motors[target]? = some motor →
      position ≠ target := by
    intro target motor htarget
    obtain ⟨hlt, _⟩ := List.getElem?_eq_some_iff.mp htarget
    omega
  cases event with
  | call call =>
      cases call with
      | motorStep _ _ _ target =>
          cases htarget : ledger.registry.motors[target]? with
          | none => simp [step, htarget]
          | some motor => simp [step, htarget, Function.update_of_ne (hother target motor htarget)]
      | createNewMotor _ | stopMotors | resumeMotors => exact ⟨rfl, rfl⟩
  | tick _ _ target =>
      cases htarget : ledger.registry.motors[target]? with
      | none => simp [step, htarget]
      | some motor => simp [step, htarget, Function.update_of_ne (hother target motor htarget)]

/-- A motor's slot stays sound whatever is done to it. -/
theorem Moved.slot_sound {position : Nat} {motor : Motor} {event : MotorEvent}
    {emitted ordered : Nat} (h : Moved defs ledger position motor event emitted ordered)
    (hslots : ∀ motor ∈ ledger.registry.motors, motor.SlotSound) : motor.SlotSound := by
  have hbefore : ∀ before, ledger.registry.motors[position]? = some before → before.SlotSound :=
    fun before h => hslots before (List.mem_of_getElem? h)
  cases h with
  | fresh bitPosition _ hmotor =>
      subst hmotor
      exact fun h => by cases h
  | same _ _ hmotor => exact hbefore motor hmotor
  | stepped numberOfSteps _ _ before hsome hmotor =>
      -- only a complete motor is stepped, and the slot of such a motor does not hold `stop`
      subst hmotor
      have hslot := hbefore before hsome
      by_cases hstate : before.state = .complete
      · intro hstop
        unfold motorStep at hstop
        have hstopped : before.state = .stop := by
          by_cases hpos : numberOfSteps > 0 <;> simp only [hstate, if_true, hpos, if_false] at hstop
            <;> exact hslot hstop
        rw [hstate] at hstopped
        cases hstopped
      · rw [motor_step_rejected hstate]
        exact hslot
  | stopped before hsome hmotor =>
      subst hmotor
      exact fun _ => rfl
  | resumed before hsome hmotor =>
      subst hmotor
      exact fun hstop => hstop
  | ticked _ _ before hsome hmotor =>
      subst hmotor
      have hslot := hbefore before hsome
      unfold tick
      split
      · rename_i hbusy
        intro hstop
        have := hslot hstop
        rw [hbusy.1] at this
        cases this
      · exact hslot

/-- Every step keeps the ledger sound. -/
theorem sound_step (h : Sound ledger) (event : MotorEvent) :
    Sound (step defs ledger event) := by
  refine ⟨?_, ?_⟩
  · intro motor hmotor
    obtain ⟨position, hposition⟩ := List.mem_iff_getElem?.mp hmotor
    exact (step_moved event hposition).slot_sound h.slots
  · intro position hposition
    have hfresh := (length_le_step defs event).trans hposition
    obtain ⟨hemitted, hordered⟩ := step_accounts_fresh defs event hfresh
    rw [hemitted, hordered]
    exact h.fresh position hfresh

/-- A step keeps the motors accounted for unless it is a resume that is not guarded. -/
theorem Moved.accounted {position : Nat} {motor : Motor} {event : MotorEvent}
    {emitted ordered : Nat} (h : Moved defs ledger position motor event emitted ordered)
    (hfits : event.Fits) (hsound : Sound ledger) (hbalanced : Balanced ledger)
    (hguard : ResumesFrozen ledger event) : Accounted motor emitted ordered := by
  cases h with
  | fresh bitPosition hfresh hmotor =>
      obtain ⟨hemitted, hordered⟩ := hsound.fresh position hfresh
      rw [hemitted, hordered, hmotor]
      exact accounted_normal defs bitPosition
  | same _ _ hmotor => exact hbalanced position motor hmotor
  | stepped _ direction cyclesToWait before hbefore hmotor =>
      subst hmotor
      exact (hbalanced position before hbefore).motor_step hfits direction cyclesToWait
  | stopped before hbefore hmotor =>
      subst hmotor
      exact (hbalanced position before hbefore).stop
  | resumed before hbefore hmotor =>
      subst hmotor
      have hmem := List.mem_of_getElem? hbefore
      exact ((hbalanced position before hbefore).resume_iff (hsound.slots before hmem)).mpr
        (hguard rfl before hmem)
  | ticked edges cyclesToWait before hbefore hmotor =>
      subst hmotor
      exact (hbalanced position before hbefore).tick edges cyclesToWait

/-- A step of a balanced ledger keeps it balanced exactly when it is not a resume of a motor
whose slot is stale. -/
theorem balanced_step_iff {event : MotorEvent} (hfits : event.Fits) (hsound : Sound ledger)
    (hbalanced : Balanced ledger) :
    Balanced (step defs ledger event) ↔ ResumesFrozen ledger event := by
  constructor
  · rintro hnext rfl before hmem
    obtain ⟨position, hbefore⟩ := List.mem_iff_getElem?.mp hmem
    have hresumed : Accounted (resumeMotor before) (ledger.emitted position)
        (ledger.ordered position) :=
      hnext position _ (by simp [step, MotorCall.run, hbefore])
    exact ((hbalanced position before hbefore).resume_iff (hsound.slots before hmem)).mp hresumed
  · intro hguard position motor hmotor
    exact (step_moved event hmotor).accounted hfits hsound hbalanced hguard

/-- The motions commanded are conserved throughout exactly the runs in which every resume finds
each motor stopped, or with its current state in the slot. -/
theorem motion_conserved_iff (defs : FLUDefs) (events : List MotorEvent)
    (hfits : ∀ event ∈ events, event.Fits) :
    Throughout (step defs) Balanced (start defs.numberOfMotors) events ↔
      Along (step defs) ResumesFrozen (start defs.numberOfMotors) events := by
  refine throughout_iff_along ?_ ?_ sound_start balanced_start hfits
  · exact fun ledger event h _ _ => sound_step h event
  · exact fun ledger event hfit hsound hbalanced => balanced_step_iff hfit hsound hbalanced

/-- A motor is ordered five steps, and the start pipe resumes it without a pause before. -/
def staleResume : List MotorEvent :=
  [.call (.createNewMotor 0), .call (.motorStep 5 0 1 0), .call .resumeMotors]

/-- The stale slot makes the motor complete while all its edges are left to send. -/
theorem stale_resume_loses_motion :
    (∀ event ∈ staleResume, event.Fits) ∧
      ((staleResume.foldl (step FLUDefs.small) (start 4)).registry.motors.map fun motor =>
        (motor.state, motor.edgeToSend)) = [(.complete, 10)] ∧
      ¬ Throughout (step FLUDefs.small) Balanced (start 4) staleResume := by
  decide

/-- An order, two ticks and a pause with its resume, which keep the motion. -/
theorem motion_conserved_paused :
    Throughout (step FLUDefs.small) Balanced (start FLUDefs.small.numberOfMotors)
      [.call (.createNewMotor 0), .call (.motorStep 5 0 1 0), .tick 3 0 0, .call .stopMotors,
        .tick 1 0 0, .call .resumeMotors, .tick 9 0 0] :=
  (motion_conserved_iff FLUDefs.small _ (by decide)).mpr (by decide)

end Ledger

end FoosballTable.Motors
