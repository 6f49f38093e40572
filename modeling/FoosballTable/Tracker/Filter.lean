import FoosballTable.Library.RunLength
import FoosballTable.Tracker.Model
import Mathlib.Data.Fintype.Card

/-!
# What the loops of the tracker compute

Each loop of `BallTracker.c` over the lasers of an axis is described by what it leaves: the breaks
read, the counts of the sample added, and the list of the lasers a filter lets through. The long
count of a laser is a flagged counter of limit 500.
-/

namespace FoosballTable.Tracker

open Library

variable {lasers : Nat}

/-- Lasers as the `int`s that the arrays hold. -/
def laserIds (ids : List (Fin lasers)) : List Int :=
  ids.map fun t : Fin lasers => (t : Int)

/-- The lasers with a property, in ascending order, as the arrays hold them. -/
def ascending (picked : Fin lasers → Prop) [DecidablePred picked] : List Int :=
  laserIds ((List.finRange lasers).filter picked)

/-- The list depends on the property only. -/
theorem ascending_congr {picked picked' : Fin lasers → Prop} [DecidablePred picked]
    [DecidablePred picked'] (h : ∀ t, picked t ↔ picked' t) :
    ascending picked = ascending picked' := by
  unfold ascending
  congr 1
  exact List.filter_congr fun t _ => decide_eq_decide.mpr (h t)

/-- An axis has room for the ids of distinct lasers. -/
theorem length_le_lasers {ids : List (Fin lasers)} (hnodup : ids.Nodup) : ids.length ≤ lasers := by
  simpa using hnodup.length_le_card

/-! ## Reading and counting a sample -/

@[simp] theorem zero_int_array_get (array : Vector Int lasers) (t : Fin lasers) :
    (zeroIntArray array).get t = 0 := by
  unfold zeroIntArray
  rw [get_elem_foldl_set (fun _ _ => 0) _ (List.nodup_finRange lasers),
    if_pos (List.mem_finRange t)]

/-- The array of breaks holds the sample. -/
theorem get_breaks_terminated (sample : Sample lasers) (breaks : Vector Int (lasers + 1)) :
    Terminated (-1) (getBreaks sample breaks) (laserIds sample.ids) := by
  have hlength := length_le_lasers sample.nodup
  have hwritten := (Cursor.written_begin breaks).foldl_push (fun _ => True)
    (fun t : Fin lasers => (t : Int)) sample.ids (by simpa using Nat.le_succ_of_le hlength)
  simp only [if_true, decide_true, List.filter_true, List.nil_append] at hwritten
  exact hwritten.store (by rw [List.length_map]; omega) (-1)

/-- The counting loop adds one for each laser of the list, whatever follows the terminator. -/
theorem count_breaks_get (ids : List (Fin lasers)) (hnodup : ids.Nodup) (rest : List Int)
    (breakCount : Vector Int lasers) (t : Fin lasers) :
    (countBreaks breakCount (laserIds ids ++ -1 :: rest)).get t =
      breakCount.get t + if t ∈ ids then 1 else 0 := by
  induction ids generalizing breakCount with
  | nil => simp [laserIds, countBreaks]
  | cons laser ids ih =>
      obtain ⟨hnot, hnodup⟩ := List.nodup_cons.mp hnodup
      have hlaser : (laser : Int) ≠ -1 := by omega
      rw [laserIds, List.map_cons, List.cons_append, countBreaks, if_pos hlaser, ← laserIds,
        ih hnodup]
      have hstore : (breakCount.setIfInBounds laser (breakCount.get laser + 1)).get t =
          if (laser : Nat) = t then breakCount.get laser + 1 else breakCount.get t :=
        Vector.getElem_setIfInBounds t.isLt
      rw [Int.toNat_natCast, Vector.getElem?_eq_getElem laser.isLt, Option.getD_some]
      refine (congrArg (· + _) hstore).trans ?_
      by_cases hsame : laser = t
      · subst hsame
        simp [hnot]
      · have hval : (laser : Nat) ≠ t := fun h => hsame (Fin.ext h)
        simp [hval, Ne.symm hsame]

/-- A cycle of the jitter filter adds its sample to the counts. -/
theorem count_read_get (axis : Axis lasers) (sample : Sample lasers) (t : Fin lasers) :
    (axis.read sample).count.breakCount.get t =
      axis.breakCount.get t + if t ∈ sample.ids then 1 else 0 := by
  obtain ⟨rest, hrest⟩ := get_breaks_terminated sample axis.breaks
  show (countBreaks axis.breakCount (getBreaks sample axis.breaks).toList).get t = _
  rw [← hrest, List.append_assoc, List.singleton_append]
  exact count_breaks_get sample.ids sample.nodup rest axis.breakCount t

/-! ## The filters -/

/-- A laser passes the jitter filter: its count exceeds `testCount`. -/
def Axis.Passes (defs : FLUDefs) (axis : Axis lasers) (t : Fin lasers) : Prop :=
  axis.breakCount.get t > ((defs.filterCount / 2 : Nat) : Int)

instance (defs : FLUDefs) (axis : Axis lasers) : DecidablePred (axis.Passes defs) :=
  fun _ => inferInstanceAs (Decidable (_ > _))

/-- Half of the filter, rounded down, is exceeded exactly by more than half of the samples. -/
theorem gt_test_count (filterCount count : Nat) :
    (count : Int) > ((filterCount / 2 : Nat) : Int) ↔ 2 * count > filterCount := by
  omega

/-- In `BTMODE_NORMAL` the lasers that pass are listed. -/
theorem calc_normal_terminated (defs : FLUDefs) (axis : Axis lasers) :
    Terminated (-1) (calcBallPosition defs .normal axis).calcBreaks
      (ascending (axis.Passes defs)) := by
  have hwritten := (Cursor.written_begin axis.calcBreaks).foldl_push (axis.Passes defs)
    (fun t : Fin lasers => (t : Int)) (List.finRange lasers) (by simp)
  rw [List.nil_append] at hwritten
  refine hwritten.store ?_ (-1)
  have hfilter := List.length_filter_le (axis.Passes defs) (List.finRange lasers)
  rw [List.length_finRange] at hfilter
  rw [List.length_map]
  omega

/-- The loop body of `BTMODE_LONGCOUNT` is a flagged counter that lets its hits through. -/
theorem long_count_filter_eq (testCount : Int) (breakCount : Vector Int lasers)
    (calcBreaksPtr : Cursor Int (lasers + 1)) (longCount : Vector Int lasers) (t : Fin lasers) :
    longCountFilter testCount breakCount (calcBreaksPtr, longCount) t =
      (if breakCount.get t > testCount ∧ FlagOpen 500 (longCount.get t) then
          (calcBreaksPtr.store (t : Int)).advance else calcBreaksPtr,
        longCount.set t (flaggedNext 500 (breakCount.get t > testCount) (longCount.get t))
          t.isLt) := by
  show (if breakCount.get t > testCount then
      if FlagOpen 500 (longCount.get t) then
        ((calcBreaksPtr.store (t : Int)).advance, longCount.set t (longCount.get t + 1) t.isLt)
      else (calcBreaksPtr, longCount.set t (-1) t.isLt)
    else (calcBreaksPtr, longCount.set t 0 t.isLt)) = _
  by_cases hcount : breakCount.get t > testCount
  · by_cases hopen : FlagOpen 500 (longCount.get t)
    · rw [flagged_next_open hcount hopen, if_pos hcount, if_pos hopen, if_pos ⟨hcount, hopen⟩]
    · rw [flagged_next_closed hcount hopen, if_pos hcount, if_neg hopen, if_neg fun h => hopen h.2]
  · rw [flagged_next_miss hcount, if_neg hcount, if_neg fun h => hcount h.1]

/-- The two results of the loop of `BTMODE_LONGCOUNT`. -/
theorem long_count_loop (testCount : Int) (axis : Axis lasers) :
    (List.finRange lasers).foldl (longCountFilter testCount axis.breakCount)
        (Cursor.begin axis.calcBreaks, axis.longCount) =
      ((List.finRange lasers).foldl (fun cursor t =>
          if axis.breakCount.get t > testCount ∧ FlagOpen 500 (axis.longCount.get t) then
            (cursor.store (t : Int)).advance else cursor) (Cursor.begin axis.calcBreaks),
        (List.finRange lasers).foldl (fun longCount t =>
          longCount.set t (flaggedNext 500 (axis.breakCount.get t > testCount) (longCount.get t))
            t.isLt) axis.longCount) :=
  foldl_set_split
    (fun t cell (cursor : Cursor Int (lasers + 1)) =>
      if axis.breakCount.get t > testCount ∧ FlagOpen 500 cell then
        (cursor.store (t : Int)).advance else cursor)
    (fun t cell => flaggedNext 500 (axis.breakCount.get t > testCount) cell)
    (long_count_filter_eq testCount axis.breakCount) _ (List.nodup_finRange lasers) _ _

/-- In `BTMODE_LONGCOUNT` the lasers that pass and whose counter is open are listed. -/
theorem calc_long_count_terminated (defs : FLUDefs) (axis : Axis lasers) :
    Terminated (-1) (calcBallPosition defs .longCount axis).calcBreaks
      (ascending fun t => axis.Passes defs t ∧ FlagOpen 500 (axis.longCount.get t)) := by
  have hwritten := (Cursor.written_begin axis.calcBreaks).foldl_push
    (fun t => axis.Passes defs t ∧ FlagOpen 500 (axis.longCount.get t))
    (fun t : Fin lasers => (t : Int)) (List.finRange lasers) (by simp)
  rw [List.nil_append] at hwritten
  simp only [calcBallPosition, long_count_loop]
  refine hwritten.store ?_ (-1)
  have hfilter := List.length_filter_le
    (fun t => axis.Passes defs t ∧ FlagOpen 500 (axis.longCount.get t)) (List.finRange lasers)
  rw [List.length_finRange] at hfilter
  rw [List.length_map]
  omega

/-- In `BTMODE_LONGCOUNT` every long count makes a step of its flagged counter. -/
theorem calc_long_count_get (defs : FLUDefs) (axis : Axis lasers) (t : Fin lasers) :
    (calcBallPosition defs .longCount axis).longCount.get t =
      flaggedNext 500 (axis.Passes defs t) (axis.longCount.get t) := by
  simp only [calcBallPosition, long_count_loop]
  rw [get_elem_foldl_set (fun t cell => flaggedNext 500 _ cell) _ (List.nodup_finRange lasers),
    if_pos (List.mem_finRange t)]
  rfl

end FoosballTable.Tracker
