import Mathlib.Data.Int.Basic
import Mathlib.Order.Basic

/-!
# Run lengths and flagged counters

A history is a list with its newest entry first. `runLength` is the number of its newest entries
that are all hits. A flagged counter is an integer that counts such a run up to a limit and then
turns into the flag `-1`, which only the next miss clears: `flagged` says which value it has after
a run, and `flagged_next_flagged` that it keeps this value up.
-/

namespace FoosballTable.Library

variable {α : Type*}

/-- The number of entries at the newest end of the history that are all hits. -/
def runLength (hit : α → Prop) [DecidablePred hit] : List α → Nat
  | [] => 0
  | entry :: older => if hit entry then runLength hit older + 1 else 0

/-- The run lengths of two conditions on entries and on their images agree where the conditions
do. -/
theorem run_length_map {β : Type*} {hit : α → Prop} [DecidablePred hit] {hit' : β → Prop}
    [DecidablePred hit'] (image : α → β) (h : ∀ entry, hit' (image entry) ↔ hit entry)
    (entries : List α) : runLength hit' (entries.map image) = runLength hit entries := by
  induction entries with
  | nil => rfl
  | cons entry older ih => simp only [List.map_cons, runLength, h, ih]

/-- The counter takes one more hit: it is neither flagged nor at its limit. -/
def FlagOpen (limit value : Int) : Prop :=
  value < limit ∧ value ≥ 0

instance (limit value : Int) : Decidable (FlagOpen limit value) :=
  inferInstanceAs (Decidable (_ ∧ _))

/-- The counter after a hit or a miss. -/
def flaggedNext (limit : Int) (hit : Prop) [Decidable hit] (value : Int) : Int :=
  if hit then (if FlagOpen limit value then value + 1 else -1) else 0

theorem flagged_next_open {limit value : Int} {hit : Prop} [Decidable hit] (hhit : hit)
    (hopen : FlagOpen limit value) : flaggedNext limit hit value = value + 1 := by
  rw [flaggedNext, if_pos hhit, if_pos hopen]

theorem flagged_next_closed {limit value : Int} {hit : Prop} [Decidable hit] (hhit : hit)
    (hclosed : ¬ FlagOpen limit value) : flaggedNext limit hit value = -1 := by
  rw [flaggedNext, if_pos hhit, if_neg hclosed]

theorem flagged_next_miss {limit value : Int} {hit : Prop} [Decidable hit] (hmiss : ¬ hit) :
    flaggedNext limit hit value = 0 := by
  rw [flaggedNext, if_neg hmiss]

/-- The value of the counter after a run of hits. -/
def flagged (limit run : Nat) : Int :=
  if run ≤ limit then run else -1

/-- A counter stays between its flag and its limit. -/
theorem flagged_bounds (limit run : Nat) : -1 ≤ flagged limit run ∧ flagged limit run ≤ limit := by
  unfold flagged
  split <;> omega

/-- The counter takes one more hit exactly while the longer run is within the limit. -/
theorem flag_open_flagged (limit run : Nat) :
    FlagOpen limit (flagged limit run) ↔ run + 1 ≤ limit := by
  unfold FlagOpen flagged
  split <;> omega

/-- The counter of a run becomes the counter of the run after one more entry. -/
theorem flagged_next_flagged (limit run : Nat) (hit : Prop) [Decidable hit] :
    flaggedNext limit hit (flagged limit run) = flagged limit (if hit then run + 1 else 0) := by
  unfold flaggedNext
  split
  · simp only [flag_open_flagged]
    unfold flagged
    split
    · rw [if_pos (by omega)]
      rfl
    · rfl
  · rfl

/-- The counter follows the run length when an entry enters the history. -/
theorem flagged_next_run_length (limit : Nat) (hit : α → Prop) [DecidablePred hit] (entry : α)
    (older : List α) :
    flaggedNext limit (hit entry) (flagged limit (runLength hit older)) =
      flagged limit (runLength hit (entry :: older)) :=
  flagged_next_flagged limit (runLength hit older) (hit entry)

end FoosballTable.Library
