import Mathlib.Data.List.FinRange
import Mathlib.Data.List.Infix
import Mathlib.Data.List.Nodup

/-!
# Loops over arrays

The loops of C programs over arrays of a fixed size. A `Cursor` is an array that is filled from
its start through a moving pointer; `Cursor.Written` says which list it holds so far, and a write
past the end would break it. `Terminated` is the layout that such a loop leaves: a list and a
sentinel after it. The loops run over all indices of an array, rewriting its cells in place and
writing some indices through a cursor.
-/

namespace FoosballTable.Library

variable {α β : Type*} {n capacity : Nat}

/-! ## Lists at the start of an array -/

/-- Writing the cell after a list at the start of an array makes the list one item longer. -/
theorem append_singleton_prefix_set {cells items : List α} (h : items <+: cells)
    (hroom : items.length < cells.length) (value : α) :
    items ++ [value] <+: cells.set items.length value := by
  rw [List.set_eq_take_append_cons_drop, if_pos hroom, ← List.prefix_iff_eq_take.mp h]
  exact ⟨cells.drop (items.length + 1), by simp⟩

/-- The array holds the items at its start and the sentinel `stop` right after them. -/
def Terminated (stop : α) (cells : Vector α capacity) (items : List α) : Prop :=
  items ++ [stop] <+: cells.toList

instance [DecidableEq α] (stop : α) (cells : Vector α capacity) (items : List α) :
    Decidable (Terminated stop cells items) :=
  inferInstanceAs (Decidable (_ <+: _))

/-- The items of a terminated array leave room for the sentinel. -/
theorem Terminated.length_lt {stop : α} {cells : Vector α capacity} {items : List α}
    (h : Terminated stop cells items) : items.length < capacity := by
  have hle := h.length_le
  simp only [List.length_append, List.length_singleton, Vector.length_toList] at hle
  omega

/-- A terminated array reads as its items and the sentinel. -/
theorem Terminated.get {stop : α} {cells : Vector α capacity} {items : List α}
    (h : Terminated stop cells items) {k : Nat} (hk : k ≤ items.length) :
    cells[k]? = (items ++ [stop])[k]? := by
  have hlt : k < (items ++ [stop]).length := by
    rw [List.length_append, List.length_singleton]
    omega
  rw [← Vector.getElem?_toList, List.getElem?_eq_getElem hlt]
  exact List.prefix_iff_getElem?.mp h k hlt

/-- An array filled through a pointer: its cells and the index the pointer is at. -/
structure Cursor (α : Type*) (capacity : Nat) where
  cells : Vector α capacity
  offset : Nat

namespace Cursor

/-- The pointer at the start of an array. -/
def begin (cells : Vector α capacity) : Cursor α capacity :=
  ⟨cells, 0⟩

/-- `*p = value`. -/
def store (value : α) (cursor : Cursor α capacity) : Cursor α capacity :=
  { cursor with cells := cursor.cells.setIfInBounds cursor.offset value }

/-- `++p`. -/
def advance (cursor : Cursor α capacity) : Cursor α capacity :=
  { cursor with offset := cursor.offset + 1 }

/-- The cells before the pointer hold the items. -/
def Written (cursor : Cursor α capacity) (items : List α) : Prop :=
  cursor.offset = items.length ∧ items <+: cursor.cells.toList

theorem written_begin (cells : Vector α capacity) : (begin cells).Written [] :=
  ⟨rfl, List.nil_prefix⟩

/-- A store within the array terminates what is written. -/
theorem Written.store {cursor : Cursor α capacity} {items : List α} (h : cursor.Written items)
    (hroom : items.length < capacity) (value : α) :
    Terminated value (cursor.store value).cells items := by
  obtain ⟨hoffset, hitems⟩ := h
  show items ++ [value] <+: (cursor.cells.setIfInBounds cursor.offset value).toList
  rw [Vector.toList_setIfInBounds, hoffset]
  exact append_singleton_prefix_set hitems (by rwa [Vector.length_toList]) value

/-- A store and an advance write one more item. -/
theorem Written.push {cursor : Cursor α capacity} {items : List α} (h : cursor.Written items)
    (hroom : items.length < capacity) (value : α) :
    (cursor.store value).advance.Written (items ++ [value]) := by
  refine ⟨?_, h.store hroom value⟩
  show cursor.offset + 1 = (items ++ [value]).length
  rw [h.1, List.length_append, List.length_singleton]

/-- A loop over a list that writes the items it keeps. -/
theorem Written.foldl_push {γ : Type*} (keep : γ → Prop) [DecidablePred keep] (item : γ → α)
    (entries : List γ) {cursor : Cursor α capacity} {items : List α} (h : cursor.Written items)
    (hroom : items.length + entries.length ≤ capacity) :
    (entries.foldl (fun cursor entry =>
        if keep entry then (cursor.store (item entry)).advance else cursor) cursor).Written
      (items ++ (entries.filter keep).map item) := by
  induction entries generalizing cursor items with
  | nil => simpa using h
  | cons entry entries ih =>
      rw [List.length_cons] at hroom
      rw [List.foldl_cons]
      by_cases hkeep : keep entry
      · rw [if_pos hkeep]
        have hrest := ih (h.push (by omega) (item entry)) (by simp; omega)
        simpa [hkeep] using hrest
      · rw [if_neg hkeep]
        have hrest := ih h (by omega)
        simpa [hkeep] using hrest

end Cursor

/-! ## Loops over all indices -/

/-- A cell that was written holds what was written there. -/
theorem get_set_self (cells : Vector α n) (t : Fin n) (value : α) :
    (cells.set t value t.isLt).get t = value :=
  Vector.getElem_set_self t.isLt

/-- Every other cell is unchanged. -/
theorem get_set_of_ne (cells : Vector α n) {index t : Fin n} (h : index ≠ t) (value : α) :
    (cells.set index value index.isLt).get t = cells.get t :=
  Vector.getElem_set_ne index.isLt t.isLt (Fin.val_ne_of_ne h)

/-- A loop over indices that rewrites the cell of each index visits a cell at most once. -/
theorem get_elem_foldl_set (next : Fin n → α → α) (indices : List (Fin n)) (hnodup : indices.Nodup)
    (cells : Vector α n) (t : Fin n) :
    (indices.foldl (fun cells t => cells.set t (next t (cells.get t)) t.isLt) cells).get t =
      if t ∈ indices then next t (cells.get t) else cells.get t := by
  induction indices generalizing cells with
  | nil => simp
  | cons index indices ih =>
      obtain ⟨hnot, hnodup⟩ := List.nodup_cons.mp hnodup
      rw [List.foldl_cons, ih hnodup]
      by_cases hindex : index = t
      · subst hindex
        simp [hnot, get_set_self]
      · simp [Ne.symm hindex, get_set_of_ne cells hindex]

/-- A loop over indices that produces an output from the cells it visits and rewrites these cells
is two loops: the output is decided by the cells as they were before. -/
theorem foldl_set_split (emit : Fin n → β → α → α) (next : Fin n → β → β)
    {body : α × Vector β n → Fin n → α × Vector β n}
    (hbody : ∀ out cells t, body (out, cells) t =
      (emit t (cells.get t) out, cells.set t (next t (cells.get t)) t.isLt))
    (indices : List (Fin n)) (hnodup : indices.Nodup) (out : α) (cells : Vector β n) :
    indices.foldl body (out, cells) =
      (indices.foldl (fun out t => emit t (cells.get t) out) out,
        indices.foldl (fun cells t => cells.set t (next t (cells.get t)) t.isLt) cells) := by
  induction indices generalizing out cells with
  | nil => rfl
  | cons index indices ih =>
      obtain ⟨hnot, hnodup⟩ := List.nodup_cons.mp hnodup
      rw [List.foldl_cons, List.foldl_cons, List.foldl_cons, hbody, ih hnodup]
      congr 1
      -- the cell that was rewritten is not visited again
      refine List.foldl_ext _ _ _ ?_
      intro out t ht
      have hne : index ≠ t := fun heq => hnot (heq ▸ ht)
      rw [get_set_of_ne cells hne]

end FoosballTable.Library
