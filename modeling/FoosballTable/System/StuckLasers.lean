import FoosballTable.Library.Simulation
import FoosballTable.System.SharedPosition

/-!
# Lasers that are broken for good

`BTMODE_LONGCOUNT` turns off lasers that stay broken. Two trackers run on the same events, with
the same pauses and mode commands, but the samples of the second one never show the lasers of a
given set. `stuck_lasers_masked_iff` says that both publish the same list exactly when the first
one lists no laser of the set, as is so in `BTMODE_LONGCOUNT` once each of them has been in the
majority for more than 500 publications in a row; and then both have the ball at the same place.
-/

namespace FoosballTable.Tracker

open Library

variable {defs : FLUDefs} {lasers : Nat}

/-- The sample without the lasers of a set. -/
def Sample.without (stuck : Fin lasers → Prop) [DecidablePred stuck] (sample : Sample lasers) :
    Sample lasers :=
  ⟨sample.ids.filter fun t => ¬ stuck t, sample.nodup.filter _⟩

/-- The history as it would be if the lasers of a set were never broken. -/
def History.without (stuck : Fin lasers → Prop) [DecidablePred stuck] (history : History lasers) :
    History lasers where
  window := history.window.map (Sample.without stuck)
  published := history.published.map (List.map (Sample.without stuck))

/-- The event with samples that do not show the lasers of two sets. -/
def Event.without (xStuck : Fin defs.numberXRx → Prop) (yStuck : Fin defs.numberYRx → Prop)
    [DecidablePred xStuck] [DecidablePred yStuck] : Event defs → Event defs
  | .period xSample ySample => .period (xSample.without xStuck) (ySample.without yStuck)
  | event => event

/-- A laser that passes the filters: it is in the majority of the window, and in
`BTMODE_LONGCOUNT` it has been so for at most 500 publications in a row. -/
def Listed (defs : FLUDefs) (btMode : BallTrackingMode) (history : History lasers)
    (t : Fin lasers) : Prop :=
  Majority defs history.window t ∧
    (btMode = .longCount → breakRun defs (history.window :: history.published) t ≤ 500)

instance (defs : FLUDefs) (btMode : BallTrackingMode) (history : History lasers) :
    DecidablePred (Listed defs btMode history) :=
  fun _ => inferInstanceAs (Decidable (_ ∧ _))

/-- The specified list is that of the listed lasers. -/
theorem specified_eq (defs : FLUDefs) (btMode : BallTrackingMode) (history : History lasers) :
    specified defs btMode history.window history.published =
      ascending (Listed defs btMode history) := by
  cases btMode with
  | normal => exact ascending_congr fun t => by simp [Listed]
  | longCount => exact ascending_congr fun t => by simp [Listed]

/-- The list holds the numbers of the lasers with the property. -/
theorem mem_ascending (picked : Fin lasers → Prop) [DecidablePred picked] (t : Fin lasers) :
    (t : Int) ∈ ascending picked ↔ picked t := by
  simp [ascending, laserIds, Fin.val_inj]

/-- Two lists of lasers in ascending order agree exactly when they hold the same lasers. -/
theorem ascending_eq_iff {picked picked' : Fin lasers → Prop} [DecidablePred picked]
    [DecidablePred picked'] :
    ascending picked = ascending picked' ↔ ∀ t, picked t ↔ picked' t := by
  refine ⟨fun heq t => ?_, ascending_congr⟩
  rw [← mem_ascending picked, heq, mem_ascending picked']

section Window

variable (stuck : Fin lasers → Prop) [DecidablePred stuck]

/-- The samples without a set of lasers still show the other lasers, and only these. -/
theorem majority_without (window : List (Sample lasers)) (t : Fin lasers) :
    Majority defs (window.map (Sample.without stuck)) t ↔ ¬ stuck t ∧ Majority defs window t := by
  unfold Majority
  rw [List.countP_map]
  by_cases hstuck : stuck t
  · have hnone : window.countP ((fun sample => decide (t ∈ sample.ids)) ∘ Sample.without stuck) =
        0 := by
      refine List.countP_eq_zero.mpr fun sample _ => ?_
      simp [Sample.without, hstuck]
    rw [hnone]
    simp [hstuck]
  · have hsame : ((fun sample : Sample lasers => decide (t ∈ sample.ids)) ∘
        Sample.without stuck) = fun sample => decide (t ∈ sample.ids) := by
      funext sample
      simp [Sample.without, hstuck]
    rw [hsame]
    simp [hstuck]

/-- The run of a laser that is left in does not change. -/
theorem break_run_without {t : Fin lasers} (ht : ¬ stuck t)
    (windows : List (List (Sample lasers))) :
    breakRun defs (windows.map (List.map (Sample.without stuck))) t = breakRun defs windows t :=
  run_length_map _ (fun window => by rw [majority_without]; simp [ht]) windows

/-- Without a set of lasers, the other lasers are listed as before, and only these. -/
theorem listed_without (btMode : BallTrackingMode) (history : History lasers) (t : Fin lasers) :
    Listed defs btMode (history.without stuck) t ↔ ¬ stuck t ∧ Listed defs btMode history t := by
  unfold Listed
  by_cases hstuck : stuck t
  · have hnot : ¬ Majority defs (history.without stuck).window t := fun h =>
      ((majority_without stuck history.window t).mp h).1 hstuck
    simp [hnot, hstuck]
  · have hrun : breakRun defs ((history.without stuck).window ::
        (history.without stuck).published) t =
          breakRun defs (history.window :: history.published) t :=
      break_run_without stuck hstuck (history.window :: history.published)
    have hmajority : Majority defs (history.without stuck).window t ↔
        Majority defs history.window t :=
      (majority_without stuck history.window t).trans (and_iff_right hstuck)
    rw [hrun, hmajority]
    exact (and_iff_right hstuck).symm

end Window

/-- Two trackers in step, the second of which never sees the lasers of two sets. -/
structure Alike (xStuck : Fin defs.numberXRx → Prop) (yStuck : Fin defs.numberYRx → Prop)
    [DecidablePred xStuck] [DecidablePred yStuck] (log clean : Log defs) : Prop where
  sound : log.Sound
  cleanSound : clean.Sound
  start : clean.state.start = log.state.start
  btMode : clean.state.btMode = log.state.btMode
  filterCount : clean.state.filterCount = log.state.filterCount
  pc : clean.state.pc = log.state.pc
  x : clean.x = log.x.without xStuck
  y : clean.y = log.y.without yStuck

namespace Alike

variable {xStuck : Fin defs.numberXRx → Prop} {yStuck : Fin defs.numberYRx → Prop}
  [DecidablePred xStuck] [DecidablePred yStuck] {log clean : Log defs}

theorem start_log (x : Axis defs.numberXRx) (y : Axis defs.numberYRx) :
    Alike xStuck yStuck (Log.start x y) (Log.start x y) :=
  ⟨Log.sound_start x y, Log.sound_start x y, rfl, rfl, rfl, rfl, rfl, rfl⟩

/-- Both trackers publish in the same periods. -/
theorem publishing_iff (h : Alike xStuck yStuck log clean) :
    clean.state.Publishing ↔ log.state.Publishing := by
  unfold State.Publishing
  rw [h.pc, h.filterCount]

/-- The trackers stay in step. -/
theorem step (h : Alike xStuck yStuck log clean) (event : Event defs) :
    Alike xStuck yStuck (log.step event) (clean.step (event.without xStuck yStuck)) := by
  have hsound := h.sound.step event
  have hcleanSound := h.cleanSound.step (event.without xStuck yStuck)
  cases event with
  | startPlay => exact ⟨hsound, hcleanSound, rfl, h.btMode, h.filterCount, h.pc, h.x, h.y⟩
  | pause => exact ⟨hsound, hcleanSound, rfl, h.btMode, h.filterCount, h.pc, h.x, h.y⟩
  | setBallTrackingMode mode =>
      have hx : ({ clean.x with published := [] } : History _) =
          ({ log.x with published := [] } : History _).without xStuck := by
        rw [h.x]
        rfl
      have hy : ({ clean.y with published := [] } : History _) =
          ({ log.y with published := [] } : History _).without yStuck := by
        rw [h.y]
        rfl
      cases mode <;> exact ⟨hsound, hcleanSound, h.start, rfl, h.filterCount, h.pc, hx, hy⟩
  | period xSample ySample =>
      have hstart := h.start
      have hx := h.x
      have hy := h.y
      have hpcClean : clean.state.pc = log.state.pc := h.pc
      show Alike xStuck yStuck _
        (clean.step (.period (xSample.without xStuck) (ySample.without yStuck)))
      change (clean.step (.period (xSample.without xStuck) (ySample.without yStuck))).Sound
        at hcleanSound
      cases hpc : log.state.pc with
      | outerWait =>
          rw [hpc] at hpcClean
          rw [Log.step_outer hpc] at hsound ⊢
          rw [Log.step_outer hpcClean] at hcleanSound ⊢
          refine ⟨hsound, hcleanSound, hstart, h.btMode, h.filterCount, ?_, hx, hy⟩
          simp only [loopTest, hstart]
      | innerWait =>
          rw [hpc] at hpcClean
          by_cases hcount : log.state.filterCount < defs.filterCount
          · have hcountClean : clean.state.filterCount < defs.filterCount := h.filterCount ▸ hcount
            rw [Log.step_count hpc hcount] at hsound ⊢
            rw [Log.step_count hpcClean hcountClean] at hcleanSound ⊢
            refine ⟨hsound, hcleanSound, hstart, h.btMode, congrArg (· + 1) h.filterCount, ?_, ?_,
              ?_⟩
            · simp only [loopTest, hstart]
            · simp only [hx, History.without, List.map_cons]
            · simp only [hy, History.without, List.map_cons]
          · have hpublishing : log.state.Publishing := ⟨hpc, hcount⟩
            obtain ⟨curPos, hnext⟩ := Log.step_publish hpublishing xSample ySample
            obtain ⟨curPosClean, hnextClean⟩ := Log.step_publish (h.publishing_iff.mpr hpublishing)
              (xSample.without xStuck) (ySample.without yStuck)
            rw [hnext] at hsound ⊢
            rw [hnextClean] at hcleanSound ⊢
            refine ⟨hsound, hcleanSound, hstart, h.btMode, rfl, ?_, ?_, ?_⟩
            · simp only [loopTest, hstart]
            · simp only [hx, History.without, List.map_cons, List.map_nil]
            · simp only [hy, History.without, List.map_cons, List.map_nil]

/-- So they are after every run. -/
theorem run (x : Axis defs.numberXRx) (y : Axis defs.numberYRx) (events : List (Event defs)) :
    Alike xStuck yStuck (events.foldl Log.step (Log.start x y))
      ((events.map (Event.without xStuck yStuck)).foldl Log.step (Log.start x y)) :=
  related_run (fun _ _ event h => h.step event) (start_log x y) events

end Alike

/-- Leaving out a set of lasers changes nothing exactly when none of them is listed. -/
theorem listed_without_iff (stuck : Fin lasers → Prop) [DecidablePred stuck]
    (btMode : BallTrackingMode) (history : History lasers) :
    ascending (Listed defs btMode history) =
        ascending (Listed defs btMode (history.without stuck)) ↔
      ∀ t, stuck t → ¬ Listed defs btMode history t := by
  rw [ascending_eq_iff]
  refine forall_congr' fun t => ?_
  rw [listed_without]
  constructor
  · intro hiff hstuck hlisted
    exact (hiff.mp hlisted).1 hstuck
  · intro hnot
    exact ⟨fun hlisted => ⟨fun hstuck => hnot hstuck hlisted, hlisted⟩, fun h => h.2⟩

end FoosballTable.Tracker

namespace FoosballTable.System

open Library

variable {defs : FLUDefs} {log : Tracker.Log defs}

/-- A publication leaves the listed lasers of both axes in shared memory. -/
theorem published_listed (h : log.Sound) (hpublishing : log.state.Publishing)
    (xSample : Tracker.Sample defs.numberXRx) (ySample : Tracker.Sample defs.numberYRx) :
    publishedList (log.step (.period xSample ySample)).state.x.shareMem =
        Tracker.ascending (Tracker.Listed defs log.state.btMode log.x) ∧
      publishedList (log.step (.period xSample ySample)).state.y.shareMem =
        Tracker.ascending (Tracker.Listed defs log.state.btMode log.y) := by
  obtain ⟨-, -, hx, hy⟩ := h.faithful (.period xSample ySample) hpublishing
  rw [Tracker.specified_eq] at hx hy
  exact ⟨Published.published_list_of_terminated hx, Published.published_list_of_terminated hy⟩

/-- A publication of a list with a break places the ball by this list alone. -/
theorem ball_position_of_published (h : log.Sound) (hpublishing : log.state.Publishing)
    (xSample : Tracker.Sample defs.numberXRx) (ySample : Tracker.Sample defs.numberYRx) :
    let next := (log.step (.period xSample ySample)).state
    (Tracker.getBallPosition next).x =
        ((place (publishedList next.x.shareMem)).map laserCoordinate).getD
          (Tracker.getBallPosition log.state).x ∧
      (Tracker.getBallPosition next).y =
        ((place (publishedList next.y.shareMem)).map laserCoordinate).getD
          (Tracker.getBallPosition log.state).y := by
  obtain ⟨-, -, hxList, hyList⟩ := h.faithful (.period xSample ySample) hpublishing
  obtain ⟨hx, hy⟩ := publication_cur_pos hpublishing xSample ySample
  obtain ⟨hxPublished, hyPublished⟩ := published_listed h hpublishing xSample ySample
  rw [Tracker.specified_eq] at hxList hyList
  intro next
  rw [hxPublished, hyPublished]
  exact ⟨hx.trans (coordinate_of_terminated hxList (laser_ids_nonneg _) _),
    hy.trans (coordinate_of_terminated hyList (laser_ids_nonneg _) _)⟩

/-- A list with a break has a place. -/
theorem place_isSome {breaks : List Int} (h : breaks ≠ []) : (place breaks).isSome := by
  cases breaks with
  | nil => exact absurd rfl h
  | cons first rest => cases rest <;> rfl

/-- In every run, a publication lists the same lasers of an axis as it would if the lasers of a
set had never been broken, exactly when it lists none of the set. Where the list has a break, the
ball is then in the same place as well. -/
theorem stuck_lasers_masked_iff (x : Tracker.Axis defs.numberXRx) (y : Tracker.Axis defs.numberYRx)
    (xStuck : Fin defs.numberXRx → Prop) (yStuck : Fin defs.numberYRx → Prop)
    [DecidablePred xStuck] [DecidablePred yStuck] (events : List (Tracker.Event defs))
    (xSample : Tracker.Sample defs.numberXRx) (ySample : Tracker.Sample defs.numberYRx)
    (hpublishing : (events.foldl Tracker.Log.step (Tracker.Log.start x y)).state.Publishing) :
    let log := events.foldl Tracker.Log.step (Tracker.Log.start x y)
    let clean := (events.map (Tracker.Event.without xStuck yStuck)).foldl Tracker.Log.step
      (Tracker.Log.start x y)
    let next := (log.step (.period xSample ySample)).state
    let nextClean :=
      (clean.step (.period (xSample.without xStuck) (ySample.without yStuck))).state
    (publishedList next.x.shareMem = publishedList nextClean.x.shareMem ↔
        ∀ t, xStuck t → ¬ Tracker.Listed defs log.state.btMode log.x t) ∧
      (publishedList next.y.shareMem = publishedList nextClean.y.shareMem ↔
        ∀ t, yStuck t → ¬ Tracker.Listed defs log.state.btMode log.y t) ∧
      (publishedList next.x.shareMem = publishedList nextClean.x.shareMem →
        publishedList next.x.shareMem ≠ [] →
          (Tracker.getBallPosition next).x = (Tracker.getBallPosition nextClean).x) ∧
      (publishedList next.y.shareMem = publishedList nextClean.y.shareMem →
        publishedList next.y.shareMem ≠ [] →
          (Tracker.getBallPosition next).y = (Tracker.getBallPosition nextClean).y) := by
  intro log clean next nextClean
  have halike : Tracker.Alike xStuck yStuck log clean := Tracker.Alike.run x y events
  have hpublishingClean : clean.state.Publishing := halike.publishing_iff.mpr hpublishing
  obtain ⟨hx, hy⟩ := published_listed halike.sound hpublishing xSample ySample
  obtain ⟨hxClean, hyClean⟩ := published_listed halike.cleanSound hpublishingClean
    (xSample.without xStuck) (ySample.without yStuck)
  rw [halike.btMode, halike.x] at hxClean
  rw [halike.btMode, halike.y] at hyClean
  obtain ⟨hxPlace, hyPlace⟩ := ball_position_of_published halike.sound hpublishing xSample ySample
  obtain ⟨hxPlaceClean, hyPlaceClean⟩ := ball_position_of_published halike.cleanSound
    hpublishingClean (xSample.without xStuck) (ySample.without yStuck)
  refine ⟨?_, ?_, fun hsame hbreak => ?_, fun hsame hbreak => ?_⟩
  · rw [hx, hxClean]
    exact Tracker.listed_without_iff xStuck _ _
  · rw [hy, hyClean]
    exact Tracker.listed_without_iff yStuck _ _
  · obtain ⟨seen, hseen⟩ := Option.isSome_iff_exists.mp (place_isSome hbreak)
    rw [hxPlace, hxPlaceClean, ← hsame, hseen]
    rfl
  · obtain ⟨seen, hseen⟩ := Option.isSome_iff_exists.mp (place_isSome hbreak)
    rw [hyPlace, hyPlaceClean, ← hsame, hseen]
    rfl

/-- A period of the small table with one x laser broken. -/
def brokenPeriod : Tracker.Event FLUDefs.small :=
  .period (.single (Fin.last 2)) (.clear _)

/-- The laser that is broken there. -/
def LastLaser (t : Fin FLUDefs.small.numberXRx) : Prop :=
  (t : Nat) = 2

instance : DecidablePred LastLaser :=
  fun t => inferInstanceAs (Decidable ((t : Nat) = 2))

/-- No y laser is left out. -/
def NoLaser (_ : Fin FLUDefs.small.numberYRx) : Prop :=
  False

instance : DecidablePred NoLaser :=
  fun _ => .isFalse id

/-- A run of the small table up to its first publication. -/
def brokenRun : List (Tracker.Event FLUDefs.small) :=
  [.startPlay, brokenPeriod, brokenPeriod, brokenPeriod]

/-- The tracker of the small table before the run. -/
def smallLog : Tracker.Log FLUDefs.small :=
  Tracker.Log.start (Tracker.Axis.zero FLUDefs.small.numberXRx)
    (Tracker.Axis.zero FLUDefs.small.numberYRx)

/-- A laser that has not been broken for long is still listed. -/
theorem fresh_break_not_masked :
    publishedList
        ((brokenRun.foldl Tracker.Log.step smallLog).step brokenPeriod).state.x.shareMem ≠
      publishedList
        (((brokenRun.map (Tracker.Event.without LastLaser NoLaser)).foldl Tracker.Log.step
          smallLog).step (brokenPeriod.without LastLaser NoLaser)).state.x.shareMem := by
  intro hsame
  have hmasked := stuck_lasers_masked_iff (Tracker.Axis.zero FLUDefs.small.numberXRx)
    (Tracker.Axis.zero FLUDefs.small.numberYRx) LastLaser NoLaser brokenRun
    (.single (Fin.last 2)) (.clear _) (by decide)
  exact hmasked.1.mp hsame ⟨2, by decide⟩ rfl (by decide)

end FoosballTable.System
