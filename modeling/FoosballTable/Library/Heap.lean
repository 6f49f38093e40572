import Mathlib.Data.List.Basic

/-!
# Heaps whose cells may have been released

A heap is the list of all cells allocated so far, and a pointer is the position of a cell in it, so
that an allocation always returns a fresh one. A release counts in its cell and leaves it where it
is, because a program may keep its pointers and follow them later: `late` lists the pointers that
were followed to a released cell. `Holds` says that nothing was ever released; the heap is then as
good as the list of its values, and the rules below compute that list.
-/

namespace FoosballTable.Library

variable {α : Type*}

/-! ## Loops over all positions of a list -/

/-- A loop that modifies the entries before a position. -/
theorem get_elem_foldl_modify (f : α → α) (values : List α) (n k : Nat) :
    ((List.range n).foldl (fun values t => values.modify t f) values)[k]? =
      if k < n then values[k]?.map f else values[k]? := by
  induction n with
  | zero => simp
  | succ n ih =>
      rw [List.range_succ, List.foldl_append, List.foldl_cons, List.foldl_nil,
        List.getElem?_modify, ih]
      by_cases hk : n = k
      · subst hk
        simp
      · have hlt : k < n + 1 ↔ k < n := by omega
        simp [hk, hlt]

/-- A loop that modifies every entry maps the list. -/
theorem foldl_modify_range (f : α → α) (values : List α) :
    (List.range values.length).foldl (fun values t => values.modify t f) values =
      values.map f := by
  refine List.ext_getElem? ?_
  intro k
  rw [get_elem_foldl_modify, List.getElem?_map]
  split
  · rfl
  · rename_i hk
    rw [List.getElem?_eq_none (Nat.le_of_not_lt hk)]
    rfl

/-! ## The heap -/

/-- A cell: its value, and how often it has been released. -/
structure Cell (α : Type*) where
  value : α
  releases : Nat
  deriving DecidableEq, Repr

/-- The cells in order of allocation, and the pointers followed to a released cell, the last one
first. -/
structure Heap (α : Type*) where
  cells : List (Cell α)
  late : List Nat
  deriving DecidableEq, Repr

namespace Heap

/-- The heap before any allocation. -/
def empty : Heap α :=
  ⟨[], []⟩

/-- The pointer leads to a cell that has not been released. -/
def Live (heap : Heap α) (pointer : Nat) : Prop :=
  (heap.cells[pointer]?.map Cell.releases) = some 0

instance (heap : Heap α) : DecidablePred heap.Live :=
  fun _ => inferInstanceAs (Decidable (_ = _))

/-- The pointer leads to a cell that has been released. -/
def Released (heap : Heap α) (pointer : Nat) : Prop :=
  pointer < heap.cells.length ∧ ¬ heap.Live pointer

instance (heap : Heap α) : DecidablePred heap.Released :=
  fun _ => inferInstanceAs (Decidable (_ ∧ _))

/-- The number of cells that have not been released. -/
def liveCount (heap : Heap α) : Nat :=
  heap.cells.countP (·.releases = 0)

/-- Allocation: the pointer to the fresh cell, and the heap with it. -/
def alloc (value : α) (heap : Heap α) : Nat × Heap α :=
  (heap.cells.length, { heap with cells := heap.cells ++ [⟨value, 0⟩] })

/-- The cell that a pointer leads to is rewritten. -/
def update (f : α → α) (heap : Heap α) (pointer : Nat) : Heap α where
  cells := heap.cells.modify pointer fun cell => { cell with value := f cell.value }
  late := if heap.Released pointer then pointer :: heap.late else heap.late

/-- The cell that a pointer leads to is released. -/
def free (heap : Heap α) (pointer : Nat) : Heap α :=
  { heap with
    cells := heap.cells.modify pointer fun cell => { cell with releases := cell.releases + 1 } }

/-! ## Heaps without a release -/

/-- Nothing has been released, and the values are in the cells. -/
structure Holds (heap : Heap α) (values : List α) : Prop where
  cells : heap.cells = values.map fun value => ⟨value, 0⟩
  late : heap.late = []

variable {heap : Heap α} {values : List α}

theorem holds_empty : (empty : Heap α).Holds [] :=
  ⟨rfl, rfl⟩

/-- A pointer is live when it was allocated. -/
theorem Holds.live_iff (h : heap.Holds values) (pointer : Nat) :
    heap.Live pointer ↔ pointer < values.length := by
  unfold Live
  rw [h.cells, List.getElem?_map]
  by_cases hlt : pointer < values.length
  · simp [hlt]
  · simp [hlt]

/-- Every cell is live. -/
theorem Holds.live_count (h : heap.Holds values) : heap.liveCount = values.length := by
  unfold liveCount
  rw [h.cells, List.countP_map]
  exact List.countP_eq_length.mpr fun _ _ => rfl

/-- No cell has been released. -/
theorem Holds.releases (h : heap.Holds values) {cell : Cell α} (hcell : cell ∈ heap.cells) :
    cell.releases = 0 := by
  rw [h.cells] at hcell
  obtain ⟨value, -, rfl⟩ := List.mem_map.mp hcell
  rfl

/-- An allocation adds its value at the end. -/
theorem Holds.alloc (h : heap.Holds values) (value : α) :
    (heap.alloc value).1 = values.length ∧ (heap.alloc value).2.Holds (values ++ [value]) := by
  refine ⟨?_, ?_, h.late⟩
  · show heap.cells.length = values.length
    rw [h.cells, List.length_map]
  · show heap.cells ++ [⟨value, 0⟩] = _
    rw [h.cells, List.map_append]
    rfl

/-- An update modifies one value. -/
theorem Holds.update (h : heap.Holds values) (f : α → α) (pointer : Nat) :
    (heap.update f pointer).Holds (values.modify pointer f) := by
  have hnot : ¬ heap.Released pointer := by
    intro hreleased
    obtain ⟨hlt, hlive⟩ := hreleased
    rw [h.cells, List.length_map] at hlt
    exact hlive ((h.live_iff pointer).mpr hlt)
  refine ⟨?_, ?_⟩
  · show heap.cells.modify pointer _ = _
    rw [h.cells]
    refine List.ext_getElem? fun k => ?_
    simp only [List.getElem?_modify, List.getElem?_map]
    cases values[k]? with
    | none => rfl
    | some value =>
        simp only [Option.map_some, Option.map_eq_map]
        split <;> rfl
  · show (if heap.Released pointer then pointer :: heap.late else heap.late) = []
    rw [if_neg hnot]
    exact h.late

/-- A loop of updates modifies the values in turn. -/
theorem Holds.foldl_update (h : heap.Holds values) (f : α → α) (pointers : List Nat) :
    (pointers.foldl (Heap.update f) heap).Holds
      (pointers.foldl (fun values pointer => values.modify pointer f) values) := by
  induction pointers generalizing heap values with
  | nil => exact h
  | cons pointer pointers ih => exact ih (h.update f pointer)

/-- A loop of updates over all pointers maps the values. -/
theorem Holds.update_all (h : heap.Holds values) (f : α → α) :
    ((List.range values.length).foldl (Heap.update f) heap).Holds (values.map f) := by
  rw [← foldl_modify_range]
  exact h.foldl_update f _

/-! ## Releases -/

/-- A release leaves its pointer dead. -/
theorem not_live_free_self (heap : Heap α) (pointer : Nat) :
    ¬ (heap.free pointer).Live pointer := by
  unfold Live free
  rw [List.getElem?_modify]
  cases heap.cells[pointer]? with
  | none => simp
  | some cell => simp

/-- A release makes no pointer live. -/
theorem not_live_free {pointer : Nat} (h : ¬ heap.Live pointer) (released : Nat) :
    ¬ (heap.free released).Live pointer := by
  unfold Live free at *
  rw [List.getElem?_modify]
  cases hcell : heap.cells[pointer]? with
  | none => simp
  | some cell =>
      rw [hcell] at h
      by_cases hsame : released = pointer
      · simp [hsame]
      · simpa [hsame] using h

/-- A loop of releases leaves each of its pointers dead. -/
theorem not_live_foldl_free {pointer : Nat} {pointers : List Nat} (hmem : pointer ∈ pointers) :
    ¬ (pointers.foldl Heap.free heap).Live pointer := by
  have hkeep : ∀ (pointers : List Nat) (heap : Heap α), ¬ heap.Live pointer →
      ¬ (pointers.foldl Heap.free heap).Live pointer := by
    intro pointers
    induction pointers with
    | nil => exact fun _ h => h
    | cons released pointers ih => exact fun _ h => ih _ (not_live_free h released)
  induction pointers generalizing heap with
  | nil => cases hmem
  | cons released pointers ih =>
      rcases List.mem_cons.mp hmem with rfl | hrest
      · exact hkeep pointers _ (not_live_free_self heap pointer)
      · exact ih hrest

/-- A loop of releases keeps all cells. -/
theorem length_foldl_free (pointers : List Nat) (heap : Heap α) :
    (pointers.foldl Heap.free heap).cells.length = heap.cells.length := by
  induction pointers generalizing heap with
  | nil => rfl
  | cons released pointers ih =>
      rw [List.foldl_cons, ih]
      exact List.length_modify _ _ _

/-- A loop of releases follows no pointer. -/
theorem late_foldl_free (pointers : List Nat) (heap : Heap α) :
    (pointers.foldl Heap.free heap).late = heap.late := by
  induction pointers generalizing heap with
  | nil => rfl
  | cons released pointers ih => exact ih (heap.free released)

/-- An update releases nothing. -/
theorem released_update (f : α → α) (heap : Heap α) (updated pointer : Nat) :
    (heap.update f updated).Released pointer ↔ heap.Released pointer := by
  unfold Released Live update
  rw [List.length_modify, List.getElem?_modify]
  cases heap.cells[pointer]? with
  | none => rfl
  | some cell =>
      simp only [Option.map_some, Option.map_eq_map]
      split <;> exact Iff.rfl

/-- A loop of updates to released cells is recorded pointer by pointer. -/
theorem late_foldl_update (f : α → α) {pointers : List Nat}
    (hreleased : ∀ pointer ∈ pointers, heap.Released pointer) :
    (pointers.foldl (Heap.update f) heap).late = pointers.reverse ++ heap.late := by
  induction pointers generalizing heap with
  | nil => rfl
  | cons pointer pointers ih =>
      have hrest : ∀ later ∈ pointers, (heap.update f pointer).Released later := by
        intro later hmem
        exact (released_update f heap pointer later).mpr
          (hreleased later (List.mem_cons_of_mem pointer hmem))
      have hlate : (heap.update f pointer).late = pointer :: heap.late :=
        if_pos (hreleased pointer List.mem_cons_self)
      rw [List.foldl_cons, ih hrest, hlate, List.reverse_cons, List.append_assoc]
      rfl

end Heap

end FoosballTable.Library
