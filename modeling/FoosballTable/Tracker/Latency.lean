import FoosballTable.Library.Ranking
import FoosballTable.Tracker.Publication

/-!
# How fast the tracker follows the ball

While the ball rests, the samples of an axis show the same lasers in every cycle. The window that
is being counted when it comes to rest still holds older samples, so that the next list published
may be another one. `steady_picture_published` says how long this can last: after the cycles of
one and a half windows and the publications in them, a list published is the one of the lasers
that are broken.
-/

namespace FoosballTable.Tracker

open Library

variable {defs : FLUDefs} {lasers : Nat}

/-- Both samples show the same lasers. -/
def Sample.Agrees (sample other : Sample lasers) : Prop :=
  ∀ t : Fin lasers, t ∈ sample.ids ↔ t ∈ other.ids

instance (sample other : Sample lasers) : Decidable (sample.Agrees other) :=
  inferInstanceAs (Decidable (∀ _, _))

/-- The samples of a window that show the given lasers. -/
def agreeing (steady : Sample lasers) (window : List (Sample lasers)) : Nat :=
  window.countP fun sample => sample.Agrees steady

/-- More than half of the samples that a window will hold show the given lasers, if the ones to
come do. -/
def Settled (defs : FLUDefs) (steady : Sample lasers) (window : List (Sample lasers)) : Prop :=
  defs.filterCount < 2 * (agreeing steady window + (defs.filterCount - window.length))

/-- The laser is broken in the sample. -/
def Sample.Breaks (sample : Sample lasers) (t : Fin lasers) : Prop :=
  t ∈ sample.ids

instance (sample : Sample lasers) : DecidablePred sample.Breaks :=
  fun t => decidable_of_iff (sample.ids.contains t = true) List.contains_iff_mem

/-- The list of the lasers that are broken, without those hidden in `BTMODE_LONGCOUNT`. -/
def steadyList (defs : FLUDefs) (btMode : BallTrackingMode) (steady : Sample lasers)
    (history : History lasers) : List Int :=
  ascending fun t => steady.Breaks t ∧
    (btMode = .longCount → breakRun defs (history.window :: history.published) t ≤ 500)

/-- Two conditions that exclude each other are met by no more entries than there are. -/
theorem count_add_count_le_length {α : Type} (p q : α → Bool) (entries : List α)
    (h : ∀ entry ∈ entries, p entry = true → ¬ q entry = true) :
    entries.countP p + entries.countP q ≤ entries.length := by
  have hle : entries.countP p ≤ entries.countP (fun entry => ¬ q entry = true) := by
    refine List.countP_mono_left ?_
    intro entry hmem hp
    exact decide_eq_true (h entry hmem hp)
  have hlength := List.length_eq_countP_add_countP q (l := entries)
  omega

/-- The majority of a full window is that of the lasers that more than half of its samples show. -/
theorem Settled.majority_iff {steady : Sample lasers} {window : List (Sample lasers)}
    (h : Settled defs steady window) (hfull : window.length = defs.filterCount) (t : Fin lasers) :
    Majority defs window t ↔ steady.Breaks t := by
  unfold Settled at h
  rw [hfull, Nat.sub_self, Nat.add_zero] at h
  unfold Majority
  constructor
  · intro hmajority
    by_contra hnot
    have hle := count_add_count_le_length (fun sample : Sample lasers => t ∈ sample.ids)
      (fun sample => sample.Agrees steady) window (by
        intro sample _ hmem hagrees
        exact hnot (((of_decide_eq_true hagrees) t).mp (of_decide_eq_true hmem)))
    unfold agreeing at h
    omega
  · intro hmem
    have hle : agreeing steady window ≤ window.countP fun sample => t ∈ sample.ids := by
      refine List.countP_mono_left ?_
      intro sample _ hagrees
      exact decide_eq_true (((of_decide_eq_true hagrees) t).mpr hmem)
    omega

/-- The list specified for a settled window is the one of the lasers that are broken. -/
theorem Settled.specified_eq {steady : Sample lasers} {history : History lasers}
    (h : Settled defs steady history.window) (hfull : history.window.length = defs.filterCount)
    (btMode : BallTrackingMode) :
    specified defs btMode history.window history.published =
      steadyList defs btMode steady history := by
  cases btMode with
  | normal =>
      refine ascending_congr fun t => ?_
      rw [h.majority_iff hfull]
      simp
  | longCount =>
      refine ascending_congr fun t => ?_
      rw [h.majority_iff hfull]
      simp

/-- A sample that shows the given lasers does not change what a window is settled for. -/
theorem settled_cons {steady sample : Sample lasers} {window : List (Sample lasers)}
    (hagrees : sample.Agrees steady) (hroom : window.length < defs.filterCount) :
    Settled defs steady (sample :: window) ↔ Settled defs steady window := by
  have hcount : agreeing steady (sample :: window) = agreeing steady window + 1 :=
    List.countP_cons_of_pos (decide_eq_true hagrees)
  unfold Settled
  rw [hcount, List.length_cons]
  omega

/-- An empty window is settled for whatever it will hold. -/
theorem settled_nil (hfilter : 0 < defs.filterCount) (steady : Sample lasers) :
    Settled defs steady [] := by
  unfold Settled agreeing
  rw [List.countP_nil, List.length_nil]
  omega

/-! ## Runs over a steady picture -/

/-- One for a period of the thread. -/
def Event.periods : Event defs → Nat
  | .period _ _ => 1
  | .startPlay | .pause | .setBallTrackingMode _ => 0

/-- The event is no pause, and its samples show the given lasers. -/
def Event.Steady (xSteady : Sample defs.numberXRx) (ySteady : Sample defs.numberYRx) :
    Event defs → Prop
  | .period xSample ySample => xSample.Agrees xSteady ∧ ySample.Agrees ySteady
  | .startPlay | .setBallTrackingMode _ => True
  | .pause => False

/-- The event publishes the lists of the given lasers. -/
def Log.Shows (xSteady : Sample defs.numberXRx) (ySteady : Sample defs.numberYRx)
    (log : Log defs) (event : Event defs) : Prop :=
  event.periods = 1 ∧ log.state.Publishing ∧
    Terminated (-1) (log.step event).state.x.shareMem
      (steadyList defs log.state.btMode xSteady log.x) ∧
    Terminated (-1) (log.step event).state.y.shareMem
      (steadyList defs log.state.btMode ySteady log.y)

namespace Log

variable {xSteady : Sample defs.numberXRx} {ySteady : Sample defs.numberYRx} {log : Log defs}

/-- The windows of both axes are settled. -/
def BothSettled (xSteady : Sample defs.numberXRx) (ySteady : Sample defs.numberYRx)
    (log : Log defs) : Prop :=
  Settled defs xSteady log.x.window ∧ Settled defs ySteady log.y.window

instance (log : Log defs) : Decidable (log.BothSettled xSteady ySteady) :=
  inferInstanceAs (Decidable (_ < _ ∧ _ < _))

/-- The cycles left before the publication of a settled window, and one period if the thread is
still in its outer loop. -/
def delay (xSteady : Sample defs.numberXRx) (ySteady : Sample defs.numberYRx) (log : Log defs) :
    Nat :=
  (if log.state.pc = .outerWait then 1 else 0) + (defs.filterCount - log.state.filterCount) +
    if log.BothSettled xSteady ySteady then 0 else 1 + defs.filterCount

/-- The delay in the inner loop. -/
theorem delay_of_inner (hpc : log.state.pc = .innerWait) :
    log.delay xSteady ySteady = defs.filterCount - log.state.filterCount +
      if log.BothSettled xSteady ySteady then 0 else 1 + defs.filterCount := by
  rw [delay, hpc, if_neg (by decide), Nat.zero_add]

/-- A started thread is in its inner loop after the tests of its loops. -/
theorem loop_test_pc {state : State defs} (hstart : state.start = true) :
    (loopTest state).pc = .innerWait := by
  rw [loopTest, hstart]
  rfl

/-- A window that is not settled is at least half full. -/
theorem delay_le (h : log.Sound) :
    log.delay xSteady ySteady ≤ defs.filterCount + defs.filterCount / 2 + 2 := by
  have hfull := h.full
  unfold delay
  by_cases hsettled : log.BothSettled xSteady ySteady
  · rw [if_pos hsettled]
    split <;> omega
  · rw [if_neg hsettled]
    have hhalf : 2 * (defs.filterCount - log.state.filterCount) ≤ defs.filterCount := by
      by_contra hmore
      refine hsettled ⟨?_, ?_⟩
      · unfold Settled
        rw [h.xWindow]
        omega
      · unfold Settled
        rw [h.yWindow]
        omega
    split <;> omega

/-- A publication of settled windows shows the lasers that are broken. -/
theorem Sound.shows (h : log.Sound) (hpublishing : log.state.Publishing)
    (hsettled : log.BothSettled xSteady ySteady) (xSample : Sample defs.numberXRx)
    (ySample : Sample defs.numberYRx) :
    log.Shows xSteady ySteady (.period xSample ySample) := by
  obtain ⟨hxFull, hyFull, hx, hy⟩ := h.faithful (.period xSample ySample) hpublishing
  rw [hsettled.1.specified_eq hxFull] at hx
  rw [hsettled.2.specified_eq hyFull] at hy
  exact ⟨rfl, hpublishing, hx, hy⟩

/-- A tracker that is started, with a sound log. -/
structure Running (log : Log defs) : Prop where
  sound : log.Sound
  start : log.state.start = true

/-- An event over a steady picture shows it, or a period takes one off the delay. -/
theorem Running.step (hfilter : 0 < defs.filterCount) (h : log.Running) {event : Event defs}
    (hsteady : event.Steady xSteady ySteady) (hnot : ¬ log.Shows xSteady ySteady event) :
    (log.step event).Running ∧
      event.periods + (log.step event).delay xSteady ySteady ≤ log.delay xSteady ySteady := by
  have hsound := h.sound.step event
  cases event with
  | startPlay => exact ⟨⟨hsound, rfl⟩, (Nat.zero_add _).le⟩
  | pause => exact hsteady.elim
  | setBallTrackingMode mode =>
      cases mode <;> exact ⟨⟨hsound, h.start⟩, (Nat.zero_add _).le⟩
  | period xSample ySample =>
      have hstart : (log.step (.period xSample ySample)).state.start = true :=
        (wake_start xSample ySample log.state).trans h.start
      refine ⟨⟨hsound, hstart⟩, ?_⟩
      show 1 + _ ≤ _
      cases hpc : log.state.pc with
      | outerWait =>
          rw [step_outer hpc, delay_of_inner (loop_test_pc h.start), delay, if_pos hpc]
          exact (Nat.add_assoc _ _ _).ge
      | innerWait =>
          rw [delay_of_inner hpc]
          by_cases hcount : log.state.filterCount < defs.filterCount
          · have hsame : (log.step (.period xSample ySample)).BothSettled xSteady ySteady ↔
                log.BothSettled xSteady ySteady := by
              rw [step_count hpc hcount]
              exact and_congr (settled_cons hsteady.1 (h.sound.xWindow ▸ hcount))
                (settled_cons hsteady.2 (h.sound.yWindow ▸ hcount))
            have hnext : (log.step (.period xSample ySample)).delay xSteady ySteady =
                defs.filterCount - (log.state.filterCount + 1) +
                  if log.BothSettled xSteady ySteady then 0 else 1 + defs.filterCount := by
              simp only [← hsame]
              rw [step_count hpc hcount]
              exact delay_of_inner (loop_test_pc h.start)
            rw [hnext]
            omega
          · -- a publication that does not show the picture is one of a window not settled
            have hunsettled : ¬ log.BothSettled xSteady ySteady := fun hsettled =>
              hnot (h.sound.shows ⟨hpc, hcount⟩ hsettled xSample ySample)
            obtain ⟨curPos, hstep⟩ := step_publish ⟨hpc, hcount⟩ xSample ySample
            have hsettled : (log.step (.period xSample ySample)).BothSettled xSteady ySteady := by
              rw [hstep]
              exact ⟨settled_nil hfilter xSteady, settled_nil hfilter ySteady⟩
            have hinner : (log.step (.period xSample ySample)).state.pc = .innerWait := by
              rw [hstep]
              exact loop_test_pc h.start
            have hempty : (log.step (.period xSample ySample)).state.filterCount = 0 := by
              rw [hstep]
              rfl
            rw [delay_of_inner hinner, if_pos hsettled, hempty, if_neg hunsettled]
            omega

/-- A running tracker shows a steady picture in a run with more periods than its delay. -/
theorem Running.shows (hfilter : 0 < defs.filterCount) (h : log.Running)
    {later : List (Event defs)} (hlater : ∀ event ∈ later, event.Steady xSteady ySteady)
    (hlong : log.delay xSteady ySteady < (later.map Event.periods).sum) :
    Somewhere Log.step (Shows xSteady ySteady) log later := by
  have hguard : Along Log.step (fun _ event => event.Steady xSteady ySteady) log later :=
    along_of_forall hlater log
  have hkeep : ∀ (log : Log defs) (event : Event defs), log.Running →
      event.Steady xSteady ySteady → ¬ log.Shows xSteady ySteady event →
        (log.step event).Running :=
    fun _ _ h hsteady hnot => (h.step hfilter hsteady hnot).1
  have hpay : ∀ (log : Log defs) (event : Event defs), log.Running →
      event.Steady xSteady ySteady → ¬ log.Shows xSteady ySteady event →
        event.periods + (log.step event).delay xSteady ySteady ≤ log.delay xSteady ySteady :=
    fun _ _ h hsteady hnot => (h.step hfilter hsteady hnot).2
  have hmeets := somewhere_of_rank_lt (fun _ event => event.periods)
    (delay xSteady ySteady) hkeep hpay h hguard (by rwa [total_of_event])
  exact hmeets.mono fun _ _ h => h.2

/-- While the samples of both axes show the same lasers, a tracker that is started publishes the
lists of these lasers after at most one and a half windows and three more periods, wherever in a
window it was and whatever the earlier samples of the window showed. -/
theorem steady_picture_published (hfilter : 0 < defs.filterCount) (x : Axis defs.numberXRx)
    (y : Axis defs.numberYRx) (events : List (Event defs))
    (hstart : (events.foldl Log.step (start x y)).state.start = true)
    (xSteady : Sample defs.numberXRx) (ySteady : Sample defs.numberYRx)
    {later : List (Event defs)} (hlater : ∀ event ∈ later, event.Steady xSteady ySteady)
    (hlong : defs.filterCount + defs.filterCount / 2 + 3 ≤ (later.map Event.periods).sum) :
    Somewhere Log.step (Shows xSteady ySteady) (events.foldl Log.step (start x y)) later := by
  have hstep : ∀ (log : Log defs) (event : Event defs), log.Sound → (log.step event).Sound :=
    fun _ event h => h.step event
  have hsound : (events.foldl Log.step (start x y)).Sound :=
    (throughout_of_invariant hstep (sound_start x y) events).last
  have hrunning : (events.foldl Log.step (start x y)).Running := ⟨hsound, hstart⟩
  have hle : (events.foldl Log.step (start x y)).delay xSteady ySteady ≤
      defs.filterCount + defs.filterCount / 2 + 2 := delay_le hsound
  exact hrunning.shows hfilter hlater (by omega)

/-- A period of the small table with a laser broken on each axis, or none. -/
def smallPeriod (broken : Bool) : Event FLUDefs.small :=
  if broken then .period (.single (Fin.last 2)) (.single (Fin.last 1))
  else .period (.clear _) (.clear _)

/-- The ball comes to rest while a window that began without it is being counted. -/
theorem ball_at_rest_published :
    Somewhere Log.step (Shows (.single (Fin.last 2)) (.single (Fin.last 1)))
      ([.startPlay, smallPeriod false, smallPeriod false].foldl Log.step
        (start (Axis.zero FLUDefs.small.numberXRx) (Axis.zero FLUDefs.small.numberYRx)))
      (List.replicate 6 (smallPeriod true)) :=
  steady_picture_published (by decide) _ _ _ rfl _ _
    (by
      intro event hmem
      rw [List.eq_of_mem_replicate hmem]
      exact ⟨fun _ => Iff.rfl, fun _ => Iff.rfl⟩)
    (by decide)

end Log

end FoosballTable.Tracker
