import Mathlib.Data.List.Basic
import Mathlib.Data.List.TakeDrop

/-!
# Ring buffers

A ring buffer keeps the items of a queue in the cells of an array from a start index on, and goes
on at the first cell after the last one. `Ring.Holds` relates the cells and the start index to the
queue. The bytes of a chunk are copied in and out as blocks of adjacent cells (`blit`, `slice`),
which fail where a block would leave the array: `Holds.blit` and `Holds.slice` say that a block up
to the end of the array never does, and what it does to the queue.
-/

namespace FoosballTable.Library

variable {α : Type*} {size : Nat}

/-- The cells with a chunk copied over the ones from a position on, if it ends within the array. -/
def blit (cells : Vector α size) (pos : Nat) (chunk : List α) : Option (Vector α size) :=
  if pos + chunk.length ≤ size then
    some (Vector.ofFn fun i => if pos ≤ i then (chunk[i - pos]?).getD (cells.get i)
      else cells.get i)
  else none

/-- The cells from a position on, if that many are within the array. -/
def slice (cells : Vector α size) (pos count : Nat) : Option (List α) :=
  if pos + count ≤ size then some ((cells.toList.drop pos).take count) else none

namespace Ring

/-- The index of a cell, for a position that may be up to one array length past the end. -/
def wrap (size pos : Nat) : Nat :=
  if pos < size then pos else pos - size

theorem wrap_lt {pos : Nat} (h : pos < 2 * size) : wrap size pos < size := by
  unfold wrap
  split <;> omega

theorem wrap_of_lt {pos : Nat} (h : pos < size) : wrap size pos = pos :=
  if_pos h

/-- The cells hold the items of a queue from a start index on. -/
structure Holds (cells : Vector α size) (start : Nat) (items : List α) : Prop where
  start_lt : start < size
  fits : items.length ≤ size
  cell : ∀ k, k < items.length → cells[wrap size (start + k)]? = items[k]?

variable {cells : Vector α size} {start : Nat} {items : List α}

/-- An array without items. -/
theorem holds_nil (h : start < size) : Holds cells start [] :=
  ⟨h, Nat.zero_le _, fun _ hk => absurd hk (Nat.not_lt_zero _)⟩

/-- What a cell holds after a chunk was copied in. -/
theorem get_blit {cells' : Vector α size} {pos : Nat} {chunk : List α}
    (h : blit cells pos chunk = some cells') {i : Nat} (hi : i < size) :
    cells'[i]? = if pos ≤ i ∧ i < pos + chunk.length then chunk[i - pos]? else cells[i]? := by
  unfold blit at h
  split at h
  · obtain rfl := Option.some.inj h
    rw [Vector.getElem?_eq_getElem hi, Vector.getElem_ofFn]
    dsimp only
    by_cases hpos : pos ≤ i
    · by_cases hin : i < pos + chunk.length
      · rw [if_pos hpos, if_pos ⟨hpos, hin⟩, List.getElem?_eq_getElem (by omega), Option.getD_some]
      · rw [if_pos hpos, if_neg (by omega), List.getElem?_eq_none (by omega), Option.getD_none,
          Vector.getElem?_eq_getElem hi]
        rfl
    · rw [if_neg hpos, if_neg (by omega), Vector.getElem?_eq_getElem hi]
      rfl
  · cases h

/-- A chunk that fits both up to the end of the array and into the free cells is put at the end of
the queue. -/
theorem Holds.blit (h : Holds cells start items) {chunk : List α}
    (hend : wrap size (start + items.length) + chunk.length ≤ size)
    (hfree : items.length + chunk.length ≤ size) :
    ∃ cells', blit cells (wrap size (start + items.length)) chunk = some cells' ∧
      Holds cells' start (items ++ chunk) := by
  have hstart := h.start_lt
  obtain ⟨cells', hcells⟩ : ∃ cells',
      Library.blit cells (wrap size (start + items.length)) chunk = some cells' :=
    ⟨_, if_pos hend⟩
  refine ⟨cells', hcells, hstart, by rwa [List.length_append], fun k hk => ?_⟩
  rw [List.length_append] at hk
  rw [get_blit hcells (wrap_lt (by omega))]
  by_cases hold : k < items.length
  · -- a cell of the queue is not among those written
    rw [if_neg (by unfold wrap at hend ⊢; split <;> split <;> split at hend <;> omega),
      h.cell k hold, List.getElem?_append_left hold]
  · have hindex :
        wrap size (start + k) = wrap size (start + items.length) + (k - items.length) := by
      unfold wrap at hend ⊢
      split <;> split <;> split at hend <;> omega
    rw [hindex, if_pos ⟨by omega, by omega⟩, List.getElem?_append_right (by omega),
      Nat.add_sub_cancel_left]

/-- A block that is no longer than the queue and ends within the array holds the first items. -/
theorem Holds.slice (h : Holds cells start items) {count : Nat} (hcount : count ≤ items.length)
    (hend : start + count ≤ size) : slice cells start count = some (items.take count) := by
  rw [Library.slice, if_pos hend]
  refine congrArg some (List.ext_getElem? fun k => ?_)
  by_cases hk : k < count
  · have hcell := h.cell k (by omega)
    rw [wrap_of_lt (by omega), ← Vector.getElem?_toList] at hcell
    rw [List.getElem?_take_of_lt hk, List.getElem?_take_of_lt hk, List.getElem?_drop, hcell]
  · rw [List.getElem?_take_eq_none (by omega), List.getElem?_take_eq_none (by omega)]

/-- Moving the start index takes items off the front of the queue. -/
theorem Holds.advance (h : Holds cells start items) {count : Nat} (hcount : count ≤ items.length)
    (hend : start + count ≤ size) :
    Holds cells (wrap size (start + count)) (items.drop count) := by
  have hfits := h.fits
  have hstart := h.start_lt
  refine ⟨wrap_lt (by omega), by rw [List.length_drop]; omega, fun k hk => ?_⟩
  rw [List.length_drop] at hk
  have hindex : wrap size (wrap size (start + count) + k) = wrap size (start + (count + k)) := by
    unfold wrap
    split <;> split <;> split <;> omega
  rw [hindex, h.cell (count + k) (by omega), List.getElem?_drop]

end Ring

end FoosballTable.Library
