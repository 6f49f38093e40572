import FoosballTable.Library.Heap
import FoosballTable.Library.Runs
import FoosballTable.Motors.Registry

/-!
# The memory behind the registry

`_motors` holds pointers to motors that `createNewMotor` allocates and `freeAllMotorMem` releases.
While nothing is released the pointers are the positions of their motors, and the memory represents
a `Registry`: `Represents.run` is the simulation. `freeAllMotorMem` leaves `_motors` and
`_motorIndex` as they are, so that the registry keeps the motors it has released.
`registry_sound_iff` says that it is sound in exactly the runs that release no motor.
-/

namespace FoosballTable.Motors

open Library

/-- The pointers `_motors[0 .. _motorIndex)`, and the memory that `kmalloc` returned. -/
structure Memory where
  motors : List Nat
  heap : Heap Motor
  deriving DecidableEq, Repr

/-- A call of one of the functions of `Motor.c`, with the pointer that `motorStep` is given as the
position. -/
inductive MemoryCall where
  | call (call : MotorCall)
  | freeAllMotorMem
  deriving DecidableEq, Repr

namespace Memory

/-- The memory before any motor is created. -/
def empty : Memory :=
  ⟨[], Heap.empty⟩

/-- `createNewMotor`: the pointer to the new motor, or nothing for the null pointer. -/
def createNewMotor (defs : FLUDefs) (bitPosition : Nat) (memory : Memory) : Option Nat × Memory :=
  if memory.motors.length < defs.numberOfMotors then
    let (mptr, heap) := memory.heap.alloc (Motor.normal defs bitPosition)
    (some mptr, ⟨memory.motors ++ [mptr], heap⟩)
  else (none, memory)

/-- `motorStep` on the motor that a pointer leads to. -/
def motorStep (numberOfSteps : Nat) (direction : Int) (cyclesToWait : Nat) (motor : Nat)
    (memory : Memory) : Memory :=
  { memory with
    heap := memory.heap.update
      (fun motor => (Motors.motorStep numberOfSteps direction cyclesToWait motor).2) motor }

/-- `stopMotors`. -/
def stopMotors (memory : Memory) : Status × Memory :=
  (.success, { memory with heap := memory.motors.foldl (Heap.update stopMotor) memory.heap })

/-- `resumeMotors`. -/
def resumeMotors (memory : Memory) : Status × Memory :=
  (.success, { memory with heap := memory.motors.foldl (Heap.update resumeMotor) memory.heap })

/-- `freeAllMotorMem`. -/
def freeAllMotorMem (memory : Memory) : Memory :=
  { memory with heap := memory.motors.foldl Heap.free memory.heap }

/-- The memory after a call. -/
def run (defs : FLUDefs) (memory : Memory) : MemoryCall → Memory
  | .call (.createNewMotor bitPosition) => (createNewMotor defs bitPosition memory).2
  | .call (.motorStep numberOfSteps direction cyclesToWait position) =>
      memory.motorStep numberOfSteps direction cyclesToWait position
  | .call .stopMotors => memory.stopMotors.2
  | .call .resumeMotors => memory.resumeMotors.2
  | .freeAllMotorMem => memory.freeAllMotorMem

/-- What is claimed of a state. The registry has room for its entries, which are distinct motors
that have not been released; `createNewMotor` returns null exactly when `NUMBER_OF_MOTORS` motors
are live; no motor was released twice, and none was touched after its release. -/
structure Sound (defs : FLUDefs) (memory : Memory) : Prop where
  bounded : memory.motors.length ≤ defs.numberOfMotors
  distinct : memory.motors.Nodup
  live : ∀ mptr ∈ memory.motors, memory.heap.Live mptr
  null : ∀ bitPosition, (createNewMotor defs bitPosition memory).1 = none ↔
    memory.heap.liveCount = defs.numberOfMotors
  once : ∀ cell ∈ memory.heap.cells, cell.releases ≤ 1
  untouched : memory.heap.late = []

/-- The condition on a call: the motors are released only while there are none. -/
def Spares (memory : Memory) : MemoryCall → Prop
  | .call _ => True
  | .freeAllMotorMem => memory.motors = []

instance (memory : Memory) : DecidablePred memory.Spares
  | .call _ => .isTrue trivial
  | .freeAllMotorMem => inferInstanceAs (Decidable (_ = _))

/-! ## The memory represents a registry -/

/-- Each pointer of the registry is the position of its motor, and no motor was released. -/
structure Represents {capacity : Nat} (memory : Memory) (registry : Registry capacity) : Prop where
  motors : memory.motors = List.range registry.motors.length
  heap : memory.heap.Holds registry.motors

variable {defs : FLUDefs} {memory : Memory} {registry : Registry defs.numberOfMotors}

theorem represents_empty (capacity : Nat) : empty.Represents (Registry.empty capacity) :=
  ⟨rfl, Heap.holds_empty⟩

/-- The registry has as many entries as it has motors. -/
theorem Represents.length (h : memory.Represents registry) :
    memory.motors.length = registry.motors.length := by
  rw [h.motors, List.length_range]

/-- A new motor gets the next position in both. -/
theorem Represents.create_new_motor (h : memory.Represents registry) (bitPosition : Nat) :
    (createNewMotor defs bitPosition memory).1 =
        (Motors.createNewMotor defs bitPosition registry).1 ∧
      (createNewMotor defs bitPosition memory).2.Represents
        (Motors.createNewMotor defs bitPosition registry).2 := by
  obtain ⟨hfresh, hheap⟩ := h.heap.alloc (Motor.normal defs bitPosition)
  unfold createNewMotor Motors.createNewMotor
  rw [h.length]
  split
  · refine ⟨congrArg some hfresh, ?_, hheap⟩
    show memory.motors ++ [_] = List.range (registry.motors ++ [_]).length
    rw [h.motors, hfresh, List.length_append, List.length_singleton, List.range_succ]
  · exact ⟨rfl, h⟩

/-- A loop over all motors rewrites each of them. -/
theorem Represents.update_all (h : memory.Represents registry) (f : Motor → Motor) :
    (memory.motors.foldl (Heap.update f) memory.heap).Holds (registry.motors.map f) := by
  rw [h.motors]
  exact h.heap.update_all f

/-- The simulation: a call does to the memory what it does to the registry. -/
theorem Represents.run (h : memory.Represents registry) (call : MotorCall) :
    (memory.run defs (.call call)).Represents (call.run defs registry) := by
  cases call with
  | createNewMotor bitPosition => exact (h.create_new_motor bitPosition).2
  | motorStep numberOfSteps direction cyclesToWait position =>
      have hmotors : memory.motors = List.range
          (registry.motorStep numberOfSteps direction cyclesToWait position).motors.length := by
        rw [registry_motor_step_motors, List.length_modify]
        exact h.motors
      exact ⟨hmotors, h.heap.update
        (fun motor => (Motors.motorStep numberOfSteps direction cyclesToWait motor).2) position⟩
  | stopMotors =>
      refine ⟨?_, h.update_all stopMotor⟩
      show memory.motors = List.range (registry.motors.map stopMotor).length
      rw [List.length_map]
      exact h.motors
  | resumeMotors =>
      refine ⟨?_, h.update_all resumeMotor⟩
      show memory.motors = List.range (registry.motors.map resumeMotor).length
      rw [List.length_map]
      exact h.motors

/-- A run of calls that release nothing is a run of the registry. -/
theorem represents_run (defs : FLUDefs) (calls : List MotorCall) :
    ((calls.map MemoryCall.call).foldl (run defs) empty).Represents
      (calls.foldl (MotorCall.run defs) (Registry.empty defs.numberOfMotors)) := by
  have hstep : ∀ (memory : Memory) (registry : Registry defs.numberOfMotors),
      memory.Represents registry →
      ((calls.map MemoryCall.call).foldl (Memory.run defs) memory).Represents
        (calls.foldl (MotorCall.run defs) registry) := by
    induction calls with
    | nil => exact fun _ _ h => h
    | cons call calls ih => exact fun _ _ h => ih _ _ (h.run call)
  exact hstep _ _ (represents_empty defs.numberOfMotors)

/-- A memory that represents a registry is sound. -/
theorem Represents.sound (h : memory.Represents registry) : memory.Sound defs where
  bounded := by
    rw [h.length]
    exact registry.bound
  distinct := by
    rw [h.motors]
    exact List.nodup_range
  live := by
    intro mptr hmem
    rw [h.motors, List.mem_range] at hmem
    exact (h.heap.live_iff mptr).mpr hmem
  null := by
    intro bitPosition
    have hbound := registry.bound
    rw [h.heap.live_count]
    unfold createNewMotor
    rw [h.length]
    split
    · exact iff_of_false (Option.some_ne_none _) (by omega)
    · exact iff_of_true rfl (by omega)
  once := fun cell hcell => (h.heap.releases hcell).le.trans (Nat.zero_le 1)
  untouched := h.heap.late

/-! ## The motors that are released -/

/-- After `freeAllMotorMem` the registry still has the motors it has released. -/
theorem not_sound_free (hmotors : memory.motors ≠ []) : ¬ memory.freeAllMotorMem.Sound defs := by
  intro hsound
  obtain ⟨mptr, hmem⟩ := List.exists_mem_of_ne_nil _ hmotors
  exact Heap.not_live_foldl_free hmem (hsound.live mptr hmem)

/-- While there are no motors, `freeAllMotorMem` changes nothing. -/
theorem free_all_of_empty (hmotors : memory.motors = []) :
    memory.run defs .freeAllMotorMem = memory := by
  obtain ⟨motors, heap⟩ := memory
  obtain rfl : motors = [] := hmotors
  rfl

/-- A call that releases no motor leaves a memory that represents a registry. -/
theorem Represents.spared (h : memory.Represents registry) {call : MemoryCall}
    (hspares : memory.Spares call) :
    ∃ after : Registry defs.numberOfMotors, (memory.run defs call).Represents after := by
  cases call with
  | call call => exact ⟨_, h.run call⟩
  | freeAllMotorMem =>
      rw [free_all_of_empty hspares]
      exact ⟨registry, h⟩

/-- A call leaves the registry sound exactly when it releases no motor. -/
theorem Represents.sound_run_iff (h : memory.Represents registry) (call : MemoryCall) :
    (memory.run defs call).Sound defs ↔ memory.Spares call := by
  constructor
  · intro hsound
    cases call with
    | call call => exact trivial
    | freeAllMotorMem =>
        by_contra hmotors
        exact not_sound_free hmotors hsound
  · intro hspares
    obtain ⟨after, hafter⟩ := h.spared hspares
    exact hafter.sound

/-- The registry is sound in every state of exactly the runs that call `freeAllMotorMem` only while
no motor was created. -/
theorem registry_sound_iff (defs : FLUDefs) (calls : List MemoryCall) :
    Throughout (run defs) (Sound defs) empty calls ↔ Along (run defs) Spares empty calls := by
  have hkeep : ∀ (memory : Memory) (call : MemoryCall),
      (∃ registry : Registry defs.numberOfMotors, memory.Represents registry) →
      memory.Sound defs → memory.Spares call →
      ∃ registry : Registry defs.numberOfMotors, (memory.run defs call).Represents registry :=
    fun _ _ ⟨_, h⟩ _ hspares => h.spared hspares
  have hexact : ∀ (memory : Memory) (call : MemoryCall), True →
      (∃ registry : Registry defs.numberOfMotors, memory.Represents registry) →
      memory.Sound defs → ((memory.run defs call).Sound defs ↔ memory.Spares call) :=
    fun _ call _ ⟨_, h⟩ _ => h.sound_run_iff call
  have hstart := represents_empty defs.numberOfMotors
  exact throughout_iff_along hkeep hexact ⟨_, hstart⟩ hstart.sound fun _ _ => trivial

/-- `cleanup_module` releases the motors before it destroys the pipes. A `pause_handler` that runs
in between touches every motor that was released. -/
theorem released_motors_stopped (h : memory.Represents registry) :
    (memory.freeAllMotorMem.stopMotors.2).heap.late =
      (List.range registry.motors.length).reverse := by
  have hreleased : ∀ mptr ∈ memory.motors, memory.freeAllMotorMem.heap.Released mptr := by
    intro mptr hmem
    refine ⟨?_, Heap.not_live_foldl_free hmem⟩
    show mptr < (memory.motors.foldl Heap.free memory.heap).cells.length
    rw [h.motors, List.mem_range] at hmem
    rwa [Heap.length_foldl_free, h.heap.cells, List.length_map]
  have hlate : memory.freeAllMotorMem.heap.late = [] :=
    (Heap.late_foldl_free memory.motors memory.heap).trans h.heap.late
  show (memory.motors.foldl (Heap.update stopMotor) memory.freeAllMotorMem.heap).late = _
  rw [Heap.late_foldl_update stopMotor hreleased, hlate, List.append_nil, h.motors]

/-- A motor is created and released, a `pause_handler` stops it, and a second `freeAllMotorMem`
releases it again. -/
theorem motor_released_twice :
    (([.call (.createNewMotor 0), .freeAllMotorMem, .call .stopMotors, .freeAllMotorMem] :
        List MemoryCall).foldl (run FLUDefs.small) empty).heap =
      ⟨[⟨stopMotor (Motor.normal FLUDefs.small 0), 2⟩], [0]⟩ ∧
      ¬ Throughout (run FLUDefs.small) (Sound FLUDefs.small) empty
        [.call (.createNewMotor 0), .freeAllMotorMem, .call .stopMotors, .freeAllMotorMem] := by
  have hheap : (([.call (.createNewMotor 0), .freeAllMotorMem, .call .stopMotors,
      .freeAllMotorMem] : List MemoryCall).foldl (run FLUDefs.small) empty).heap =
        ⟨[⟨stopMotor (Motor.normal FLUDefs.small 0), 2⟩], [0]⟩ := by decide
  refine ⟨hheap, ?_⟩
  intro hsound
  have huntouched := hsound.last.untouched
  rw [hheap] at huntouched
  cases huntouched

end Memory

end FoosballTable.Motors
