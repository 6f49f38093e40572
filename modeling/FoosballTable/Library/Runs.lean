import Mathlib.Data.List.Infix

/-!
# Runs of machines driven by events

A machine is a step function `step : σ → ε → σ`, whose events carry every choice its
environment makes, so a run from a state is the left fold of `step` over a list of events.
`Along` says that every step of a run meets a condition on the state before it, and
`Throughout` that every state the run passes through has a property. The rules below derive
one from the other: `throughout_of_along` is the invariant rule for guarded runs, and
`throughout_iff_along` the rule for a guard that is exactly what a property needs. `Somewhere` says
that some step meets a condition, and `last_iff_somewhere` is the rule for a property that one step
brings about for good.
-/

namespace FoosballTable.Library

variable {σ ε : Type*} {step : σ → ε → σ}

/-- Every step of the run of `events` from `state` meets `guard`, a condition on the state
before the step and on the event taken there. -/
def Along (step : σ → ε → σ) (guard : σ → ε → Prop) : σ → List ε → Prop
  | _, [] => True
  | state, event :: events =>
      guard state event ∧ Along step guard (step state event) events

/-- Every state the run of `events` from `state` passes through, its first and its last
included, has the property `post`. -/
def Throughout (step : σ → ε → σ) (post : σ → Prop) : σ → List ε → Prop
  | state, [] => post state
  | state, event :: events =>
      post state ∧ Throughout step post (step state event) events

/-- Some step of the run of `events` from `state` meets `cond`. -/
def Somewhere (step : σ → ε → σ) (cond : σ → ε → Prop) : σ → List ε → Prop
  | _, [] => False
  | state, event :: events =>
      cond state event ∨ Somewhere step cond (step state event) events

/-- `Along` is decidable for a decidable guard: the run is evaluated. -/
instance Along.decidable {guard : σ → ε → Prop} [∀ state event, Decidable (guard state event)] :
    (state : σ) → (events : List ε) → Decidable (Along step guard state events)
  | _, [] => .isTrue trivial
  | state, event :: events =>
      @instDecidableAnd _ _ _ (Along.decidable (step state event) events)

/-- `Throughout` is decidable for a decidable property: the run is evaluated. -/
instance Throughout.decidable {post : σ → Prop} [DecidablePred post] :
    (state : σ) → (events : List ε) → Decidable (Throughout step post state events)
  | state, [] => inferInstanceAs (Decidable (post state))
  | state, event :: events =>
      @instDecidableAnd _ _ _ (Throughout.decidable (step state event) events)

@[simp] theorem along_nil {guard : σ → ε → Prop} (state : σ) :
    Along step guard state [] ↔ True := Iff.rfl

@[simp] theorem along_cons {guard : σ → ε → Prop} (state : σ) (event : ε) (events : List ε) :
    Along step guard state (event :: events) ↔
      guard state event ∧ Along step guard (step state event) events := Iff.rfl

@[simp] theorem throughout_nil {post : σ → Prop} (state : σ) :
    Throughout step post state ([] : List ε) ↔ post state := Iff.rfl

@[simp] theorem throughout_cons {post : σ → Prop} (state : σ) (event : ε) (events : List ε) :
    Throughout step post state (event :: events) ↔
      post state ∧ Throughout step post (step state event) events := Iff.rfl

/-- `Throughout` speaks about the states after every prefix of the run. -/
theorem throughout_iff_reached {post : σ → Prop} {state : σ} {events : List ε} :
    Throughout step post state events ↔
      ∀ first, first <+: events → post (first.foldl step state) := by
  induction events generalizing state with
  | nil => simp
  | cons event events ih =>
      rw [throughout_cons, ih]
      constructor
      · intro hrun first hfirst
        obtain ⟨hstate, hrest⟩ := hrun
        cases first with
        | nil => exact hstate
        | cons head tail =>
            obtain ⟨rfl, htail⟩ := List.cons_prefix_cons.mp hfirst
            exact hrest tail htail
      · intro h
        refine ⟨h [] (List.nil_prefix), ?_⟩
        intro first hfirst
        exact h (event :: first) (List.cons_prefix_cons.mpr ⟨rfl, hfirst⟩)

/-- The last state of a run has a property that holds throughout it. -/
theorem Throughout.last {post : σ → Prop} {state : σ} {events : List ε}
    (h : Throughout step post state events) : post (events.foldl step state) :=
  throughout_iff_reached.mp h events List.prefix_rfl

/-- A property that holds throughout a run holds where it starts. -/
theorem Throughout.first {post : σ → Prop} {state : σ} {events : List ε}
    (h : Throughout step post state events) : post state :=
  throughout_iff_reached.mp h [] List.nil_prefix

/-- A run of two parts is guarded exactly when both parts are. -/
theorem along_append {guard : σ → ε → Prop} {state : σ} {first second : List ε} :
    Along step guard state (first ++ second) ↔
      Along step guard state first ∧ Along step guard (first.foldl step state) second := by
  induction first generalizing state with
  | nil => simp
  | cons event first ih => simp [ih, and_assoc]

/-- A condition on the events alone guards every run of such events. -/
theorem along_of_forall {guard : ε → Prop} {events : List ε} (h : ∀ event ∈ events, guard event)
    (state : σ) : Along step (fun _ event => guard event) state events := by
  induction events generalizing state with
  | nil => trivial
  | cons event events ih =>
      exact ⟨h event List.mem_cons_self,
        ih (fun later hlater => h later (List.mem_cons_of_mem event hlater)) _⟩

/-- A weaker property holds throughout as well. -/
theorem Throughout.mono {post post' : σ → Prop} {state : σ} {events : List ε}
    (h : Throughout step post state events) (himp : ∀ state, post state → post' state) :
    Throughout step post' state events :=
  throughout_iff_reached.mpr fun first hfirst =>
    himp _ (throughout_iff_reached.mp h first hfirst)

/-- The invariant rule for guarded runs: what guarded steps preserve holds throughout. -/
theorem throughout_of_along {guard : σ → ε → Prop} {inv : σ → Prop}
    (hstep : ∀ state event, inv state → guard state event → inv (step state event))
    {state : σ} {events : List ε} (hstart : inv state)
    (hguard : Along step guard state events) : Throughout step inv state events := by
  induction events generalizing state with
  | nil => exact hstart
  | cons event events ih =>
      exact ⟨hstart, ih (hstep state event hstart hguard.1) hguard.2⟩

/-- What guarded steps keep, and what it implies of them, holds along every guarded run. -/
theorem along_of_along {guard post : σ → ε → Prop} {inv : σ → Prop}
    (hstep : ∀ state event, inv state → guard state event → inv (step state event))
    (hpost : ∀ state event, inv state → guard state event → post state event)
    {state : σ} {events : List ε} (hstart : inv state)
    (hguard : Along step guard state events) : Along step post state events := by
  induction events generalizing state with
  | nil => trivial
  | cons event events ih =>
      exact ⟨hpost state event hstart hguard.1, ih (hstep state event hstart hguard.1) hguard.2⟩

/-- The invariant rule: what every step preserves holds throughout every run. -/
theorem throughout_of_invariant {inv : σ → Prop}
    (hstep : ∀ state event, inv state → inv (step state event))
    {state : σ} (hstart : inv state) (events : List ε) :
    Throughout step inv state events := by
  induction events generalizing state with
  | nil => exact hstart
  | cons event events ih => exact ⟨hstart, ih (hstep state event hstart)⟩

/-- What every event of a kind preserves holds after a run of events of that kind. -/
theorem last_of_forall {guard : ε → Prop} {inv : σ → Prop}
    (hstep : ∀ state event, inv state → guard event → inv (step state event))
    {state : σ} (hstart : inv state) {events : List ε} (hevents : ∀ event ∈ events, guard event) :
    inv (events.foldl step state) :=
  (throughout_of_along hstep hstart (along_of_forall hevents state)).last

/-- What an invariant of the machine implies at a step holds along every run. -/
theorem along_of_invariant {inv : σ → Prop} {guard : σ → ε → Prop}
    (hstep : ∀ state event, inv state → inv (step state event))
    (hguard : ∀ state event, inv state → guard state event)
    {state : σ} (hstart : inv state) (events : List ε) : Along step guard state events := by
  induction events generalizing state with
  | nil => trivial
  | cons event events ih => exact ⟨hguard state event hstart, ih (hstep state event hstart)⟩

/-- Two conditions that agree wherever an invariant holds guard the same runs. -/
theorem along_congr {inv : σ → Prop} {guard guard' : σ → ε → Prop}
    (hstep : ∀ state event, inv state → inv (step state event))
    (hiff : ∀ state event, inv state → (guard state event ↔ guard' state event))
    {state : σ} (hstart : inv state) (events : List ε) :
    Along step guard state events ↔ Along step guard' state events := by
  induction events generalizing state with
  | nil => exact Iff.rfl
  | cons event events ih =>
      exact and_congr (hiff state event hstart) (ih (hstep state event hstart))

/-- The rule for an exact guard: when, under an invariant of the guarded runs, an allowed event
taken in a state with the property keeps the property exactly when it meets the guard, the
property holds throughout exactly the guarded runs of allowed events. -/
theorem throughout_iff_along {inv post : σ → Prop} {guard : σ → ε → Prop} {allowed : ε → Prop}
    (hinv : ∀ state event, inv state → post state → guard state event → inv (step state event))
    (hexact : ∀ state event, allowed event → inv state → post state →
      (post (step state event) ↔ guard state event))
    {state : σ} (hstart : inv state) (hpost : post state) {events : List ε}
    (hallowed : ∀ event ∈ events, allowed event) :
    Throughout step post state events ↔ Along step guard state events := by
  induction events generalizing state with
  | nil => exact ⟨fun _ => trivial, fun _ => hpost⟩
  | cons event events ih =>
      have hiff := hexact state event (hallowed event List.mem_cons_self) hstart hpost
      have hrec := fun hguard => ih (hinv state event hstart hpost hguard) (hiff.mpr hguard)
        (fun later hlater => hallowed later (List.mem_cons_of_mem event hlater))
      constructor
      · intro hrun
        obtain ⟨_, hrest⟩ := hrun
        have hguard := hiff.mp hrest.first
        exact ⟨hguard, (hrec hguard).mp hrest⟩
      · intro hrun
        obtain ⟨hguard, hrest⟩ := hrun
        exact ⟨hpost, (hrec hguard).mpr hrest⟩

/-- The latch rule: when, under an invariant, a step leads to a property exactly from a state that
has it or by meeting a condition, a run ends with the property exactly when it began with it or
some step met the condition. -/
theorem last_iff_somewhere {inv post : σ → Prop} {cond : σ → ε → Prop}
    (hinv : ∀ state event, inv state → inv (step state event))
    (hlatch : ∀ state event, inv state →
      (post (step state event) ↔ post state ∨ cond state event))
    {state : σ} (hstart : inv state) (events : List ε) :
    post (events.foldl step state) ↔ post state ∨ Somewhere step cond state events := by
  induction events generalizing state with
  | nil => exact (or_iff_left id).symm
  | cons event events ih =>
      rw [List.foldl_cons, ih (hinv state event hstart), hlatch state event hstart, or_assoc]
      exact Iff.rfl

/-- A run in which no step meets a condition is a run guarded by its negation. -/
theorem along_not_of_not_somewhere {cond : σ → ε → Prop} {state : σ} {events : List ε}
    (h : ¬ Somewhere step cond state events) :
    Along step (fun state event => ¬ cond state event) state events := by
  induction events generalizing state with
  | nil => trivial
  | cons event events ih =>
      obtain ⟨hfirst, hrest⟩ := not_or.mp h
      exact ⟨hfirst, ih hrest⟩

/-- Two conditions that hold along a run guard it together. -/
theorem along_and {guard guard' : σ → ε → Prop} {state : σ} {events : List ε} :
    Along step (fun state event => guard state event ∧ guard' state event) state events ↔
      Along step guard state events ∧ Along step guard' state events := by
  induction events generalizing state with
  | nil => simp
  | cons event events ih =>
      simp only [along_cons, ih]
      exact and_and_and_comm

/-- A step that meets a condition meets a weaker one. -/
theorem Somewhere.mono {cond cond' : σ → ε → Prop} {state : σ} {events : List ε}
    (h : Somewhere step cond state events)
    (himp : ∀ state event, cond state event → cond' state event) :
    Somewhere step cond' state events := by
  induction events generalizing state with
  | nil => exact h
  | cons event events ih => exact h.imp (himp state event) ih

/-- The step of a run that meets a condition splits the run. -/
theorem somewhere_iff_split {cond : σ → ε → Prop} {state : σ} {events : List ε} :
    Somewhere step cond state events ↔
      ∃ first event last, events = first ++ event :: last ∧
        cond (first.foldl step state) event := by
  induction events generalizing state with
  | nil =>
      constructor
      · exact False.elim
      · intro h
        obtain ⟨first, event, last, hsplit, -⟩ := h
        simp at hsplit
  | cons event events ih =>
      constructor
      · intro h
        rcases h with hcond | hlater
        · exact ⟨[], event, events, rfl, hcond⟩
        · obtain ⟨first, later, last, rfl, hcond⟩ := ih.mp hlater
          exact ⟨event :: first, later, last, rfl, hcond⟩
      · intro h
        obtain ⟨first, later, last, hsplit, hcond⟩ := h
        cases first with
        | nil =>
            obtain ⟨rfl, -⟩ := List.cons.inj hsplit
            exact Or.inl hcond
        | cons head first =>
            obtain ⟨rfl, rfl⟩ := List.cons.inj hsplit
            exact Or.inr (ih.mpr ⟨first, later, last, rfl, hcond⟩)

end FoosballTable.Library
