import FoosballTable.Library.Runs

/-!
# Simulation by a machine that takes fewer steps

A machine simulates another one through a map `abs` of their states, when each of its steps
changes the image of its state as a list of steps of the other machine does: `shown` says which
ones, and the empty list stands for a step that the other machine does not see. `Simulates.abs_run`
lifts this from steps to runs, and `Simulates.outputs_run` says that both machines then put out the
same. For machines whose steps may fail, `rel_foldlM` lifts a relation between the states from steps
to runs: one run fails exactly when the other one does. `throughout_some_iff_along` is the rule for
an exact guard of such a machine.
-/

namespace FoosballTable.Library

variable {σ ε α η ω : Type*}

/-- What the steps of the run of `events` from `state` put out, one after the other. -/
def outputs (step : σ → ε → σ) (out : σ → ε → List ω) : σ → List ε → List ω
  | _, [] => []
  | state, event :: events => out state event ++ outputs step out (step state event) events

variable {step : σ → ε → σ}

@[simp] theorem outputs_nil (out : σ → ε → List ω) (state : σ) :
    outputs step out state [] = [] := rfl

@[simp] theorem outputs_cons (out : σ → ε → List ω) (state : σ) (event : ε) (events : List ε) :
    outputs step out state (event :: events) =
      out state event ++ outputs step out (step state event) events := rfl

/-- The outputs of a run of two parts. -/
theorem outputs_append (out : σ → ε → List ω) (state : σ) (first second : List ε) :
    outputs step out state (first ++ second) =
      outputs step out state first ++ outputs step out (first.foldl step state) second := by
  induction first generalizing state with
  | nil => rfl
  | cons event first ih => simp [ih]

/-- Two runs whose steps keep a relation between the states, where the events of the second one are
the images of those of the first, end in related states. -/
theorem related_run {rel : σ → σ → Prop} {image : ε → ε}
    (hstep : ∀ state state' event, rel state state' → rel (step state event)
      (step state' (image event)))
    {state state' : σ} (hstart : rel state state') (events : List ε) :
    rel (events.foldl step state) ((events.map image).foldl step state') := by
  induction events generalizing state state' with
  | nil => exact hstart
  | cons event events ih => exact ih (hstep state state' event hstart)

/-- Two machines that take the same events of a kind, fail at the same ones and keep a relation
between their states otherwise, have runs that both fail or both end in related states. -/
theorem rel_foldlM {first : σ → ε → Option σ} {second : α → ε → Option α} {rel : σ → α → Prop}
    {allowed : ε → Prop}
    (hstep : ∀ state image event, allowed event → rel state image →
      Option.Rel rel (first state event) (second image event))
    {state : σ} {image : α} (hstart : rel state image) {events : List ε}
    (hevents : ∀ event ∈ events, allowed event) :
    Option.Rel rel (events.foldlM first state) (events.foldlM second image) := by
  induction events generalizing state image with
  | nil => exact .some hstart
  | cons event events ih =>
      have hlater := fun later hmem => hevents later (List.mem_cons_of_mem event hmem)
      have hfirst := hstep state image event (hevents event List.mem_cons_self) hstart
      rw [List.foldlM_cons, List.foldlM_cons]
      cases hstate : first state event with
      | none =>
          rw [hstate] at hfirst
          cases himage : second image event with
          | none => exact .none
          | some next =>
              rw [himage] at hfirst
              cases hfirst
      | some next =>
          rw [hstate] at hfirst
          cases himage : second image event with
          | none =>
              rw [himage] at hfirst
              cases hfirst
          | some next' =>
              rw [himage] at hfirst
              cases hfirst with
              | some hrel => exact ih hrel hlater

/-- What every step on an allowed event that does not fail keeps holds where a run of such events
that does not fail ends. -/
theorem foldlM_invariant {first : σ → ε → Option σ} {inv : σ → Prop} {allowed : ε → Prop}
    (hstep : ∀ state event next, allowed event → inv state → first state event = some next →
      inv next)
    {state last : σ} (hstart : inv state) {events : List ε}
    (hevents : ∀ event ∈ events, allowed event)
    (hrun : events.foldlM first state = some last) : inv last := by
  induction events generalizing state with
  | nil =>
      obtain rfl := Option.some.inj hrun
      exact hstart
  | cons event events ih =>
      obtain ⟨hevent, hlater⟩ := List.forall_mem_cons.mp hevents
      rw [List.foldlM_cons] at hrun
      obtain ⟨next, hnext, hrest⟩ := Option.bind_eq_some_iff.mp hrun
      exact ih (hstep state event next hevent hstart hnext) hlater hrest

/-- A machine whose steps on allowed events have a result in every state with an invariant, which
they keep, has runs of such events that do not fail. -/
theorem foldlM_total {first : σ → ε → Option σ} {inv : σ → Prop} {allowed : ε → Prop}
    (hstep : ∀ state event, allowed event → inv state →
      ∃ next, first state event = some next ∧ inv next)
    {state : σ} (hstart : inv state) {events : List ε} (hevents : ∀ event ∈ events, allowed event) :
    ∃ last, events.foldlM first state = some last ∧ inv last := by
  induction events generalizing state with
  | nil => exact ⟨state, rfl, hstart⟩
  | cons event events ih =>
      obtain ⟨hevent, hlater⟩ := List.forall_mem_cons.mp hevents
      obtain ⟨next, hnext, hinv⟩ := hstep state event hevent hstart
      obtain ⟨last, hlast, hlastInv⟩ := ih hinv hlater
      refine ⟨last, ?_, hlastInv⟩
      rw [List.foldlM_cons, hnext]
      exact hlast

/-- A machine whose steps may fail, as one that is failed from then on. -/
def failing (first : σ → ε → Option σ) (state : Option σ) (event : ε) : Option σ :=
  state.bind fun state => first state event

/-- The rule for an exact guard, for a machine whose steps may fail: when, under an invariant, an
allowed event leads from a state with a property to another one exactly unless a condition holds,
the machine does not fail and the property holds throughout exactly the runs without it. -/
theorem throughout_some_iff_along {first : σ → ε → Option σ} {inv post : σ → Prop}
    {allowed : ε → Prop} {bad : ε → σ → Bool}
    (hinv : ∀ state event next, allowed event → inv state → first state event = some next →
      inv next)
    (hexact : ∀ state event, allowed event → inv state → post state →
      ((∃ next, first state event = some next ∧ post next) ↔ bad event state = false))
    {state : σ} (hstart : inv state) (hpost : post state) {events : List ε}
    (hevents : ∀ event ∈ events, allowed event) :
    Throughout (failing first) (fun state => ∃ here, state = some here ∧ post here) (some state)
        events ↔
      Along (failing first) (fun state event => state.any (bad event) = false) (some state)
        events := by
  have hkeeps : ∀ (state : Option σ) (event : ε),
      (∀ here, state = some here → inv here) → (∃ here, state = some here ∧ post here) →
      allowed event ∧ state.any (bad event) = false →
      ∀ next, failing first state event = some next → inv next := by
    intro state event hhere _ hguard next hnext
    obtain ⟨here, hstate, hstep⟩ := Option.bind_eq_some_iff.mp hnext
    exact hinv here event next hguard.1 (hhere here hstate) hstep
  have hguarded : ∀ (state : Option σ) (event : ε), allowed event →
      (∀ here, state = some here → inv here) → (∃ here, state = some here ∧ post here) →
      ((∃ next, failing first state event = some next ∧ post next) ↔
        allowed event ∧ state.any (bad event) = false) := by
    rintro _ event hevent hhere ⟨here, rfl, hpostHere⟩
    rw [and_iff_right hevent]
    exact hexact here event hevent (hhere here rfl) hpostHere
  have hstartInv : ∀ here, some state = some here → inv here := by
    intro here hhere
    obtain rfl := Option.some.inj hhere
    exact hstart
  rw [throughout_iff_along hkeeps hguarded hstartInv ⟨state, rfl, hpost⟩ hevents, along_and]
  exact and_iff_right (along_of_forall hevents _)

/-- Steps of the first machine that meet a guard, taken in states with an invariant, change the
image of the state as what they show does in the second machine, and keep the invariant. -/
structure Simulates (step : σ → ε → σ) (astep : α → η → α) (abs : σ → α)
    (shown : σ → ε → List η) (inv : σ → Prop) (guard : σ → ε → Prop) : Prop where
  keeps : ∀ state event, inv state → guard state event → inv (step state event)
  shows : ∀ state event, inv state → guard state event →
    abs (step state event) = (shown state event).foldl astep (abs state)

namespace Simulates

variable {astep : α → η → α} {abs : σ → α} {shown : σ → ε → List η} {inv : σ → Prop}
  {guard : σ → ε → Prop} {state : σ} {events : List ε}

/-- The image of a guarded run is the run of what its steps show. -/
theorem abs_run (h : Simulates step astep abs shown inv guard) (hstart : inv state)
    (hguard : Along step guard state events) :
    abs (events.foldl step state) = (outputs step shown state events).foldl astep (abs state) := by
  induction events generalizing state with
  | nil => rfl
  | cons event events ih =>
      rw [List.foldl_cons, ih (h.keeps state event hstart hguard.1) hguard.2, outputs_cons,
        List.foldl_append, h.shows state event hstart hguard.1]

/-- A guarded run puts out what the run of what its steps show puts out. -/
theorem outputs_run (h : Simulates step astep abs shown inv guard) {out : σ → ε → List ω}
    {aout : α → η → List ω}
    (hout : ∀ state event, inv state → guard state event →
      out state event = outputs astep aout (abs state) (shown state event))
    (hstart : inv state) (hguard : Along step guard state events) :
    outputs step out state events =
      outputs astep aout (abs state) (outputs step shown state events) := by
  induction events generalizing state with
  | nil => rfl
  | cons event events ih =>
      rw [outputs_cons, outputs_cons, outputs_append, hout state event hstart hguard.1,
        ih (h.keeps state event hstart hguard.1) hguard.2, h.shows state event hstart hguard.1]

end Simulates

end FoosballTable.Library
