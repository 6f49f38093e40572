import FoosballTable.Library.Runs
import Mathlib.Algebra.GroupWithZero.Nat

/-!
# Ranks of runs

A rank is a number that the steps of a run live on: where every step costs no more than it takes
off the rank, a run costs no more than the rank of the state it starts from (`total_add_rank_le`).
The rule bounds how often something happens in a run of any length. Read the other way round it is
a progress rule: a run that costs more than the rank meets a step that the accounting leaves out
(`somewhere_of_rank_lt`). `settled_or_ranked` is the rule for machines that come to rest.
-/

namespace FoosballTable.Library

variable {σ ε : Type*} {step : σ → ε → σ}

/-- What the steps of the run of `events` from `state` cost together. -/
def total (step : σ → ε → σ) (cost : σ → ε → Nat) : σ → List ε → Nat
  | _, [] => 0
  | state, event :: events => cost state event + total step cost (step state event) events

/-- Where the cost depends on the event alone, a run costs the sum over its events. -/
theorem total_of_event (cost : ε → Nat) (state : σ) (events : List ε) :
    total step (fun _ event => cost event) state events = (events.map cost).sum := by
  induction events generalizing state with
  | nil => rfl
  | cons event events ih =>
      rw [List.map_cons, List.sum_cons, ← ih (step state event)]
      rfl

variable {inv goal : σ → Prop} {guard : σ → ε → Prop}
  {state : σ} {events : List ε}

@[simp] theorem total_nil (cost : σ → ε → Nat) (state : σ) : total step cost state [] = 0 := rfl

@[simp] theorem total_cons (cost : σ → ε → Nat) (state : σ) (event : ε) (events : List ε) :
    total step cost state (event :: events) =
      cost state event + total step cost (step state event) events := rfl

/-- The budget rule: where a guarded step costs no more than it takes off the rank, a guarded run
costs no more than the rank loses in it. -/
theorem total_add_rank_le (cost : σ → ε → Nat) (rank : σ → Nat)
    (hinv : ∀ state event, inv state → guard state event → inv (step state event))
    (hcost : ∀ state event, inv state → guard state event →
      cost state event + rank (step state event) ≤ rank state)
    (hstart : inv state) (hguard : Along step guard state events) :
    total step cost state events + rank (events.foldl step state) ≤ rank state := by
  induction events generalizing state with
  | nil => simp
  | cons event events ih =>
      have hrest := ih (hinv state event hstart hguard.1) hguard.2
      have hfirst := hcost state event hstart hguard.1
      rw [total_cons, List.foldl_cons]
      omega

/-- The progress rule: where every guarded step that does not meet a condition pays its cost from
the rank, a guarded run that costs more than the rank has a step that meets it. -/
theorem somewhere_of_rank_lt (cost : σ → ε → Nat) (rank : σ → Nat) {cond : σ → ε → Prop}
    (hinv : ∀ state event, inv state → guard state event → ¬ cond state event →
      inv (step state event))
    (hcost : ∀ state event, inv state → guard state event → ¬ cond state event →
      cost state event + rank (step state event) ≤ rank state)
    (hstart : inv state) (hguard : Along step guard state events)
    (hlong : rank state < total step cost state events) :
    Somewhere step (fun state event => inv state ∧ cond state event) state events := by
  by_contra hnever
  have hboth := along_and.mpr ⟨hguard, along_not_of_not_somewhere hnever⟩
  have hle := total_add_rank_le cost rank
    (fun state event hstate h => hinv state event hstate h.1 fun hcond => h.2 ⟨hstate, hcond⟩)
    (fun state event hstate h => hcost state event hstate h.1 fun hcond => h.2 ⟨hstate, hcond⟩)
    hstart hboth
  omega

/-- The rest rule: where guarded steps keep a goal once it is reached, and before that reach it or
pay their cost from the rank, a guarded run has reached the goal or has cost no more than the rank
lost. -/
theorem settled_or_ranked (cost : σ → ε → Nat) (rank : σ → Nat)
    (hinv : ∀ state event, inv state → guard state event → inv (step state event))
    (hkeep : ∀ state event, inv state → guard state event → goal state → goal (step state event))
    (hcost : ∀ state event, inv state → guard state event → ¬ goal state →
      goal (step state event) ∨ cost state event + rank (step state event) ≤ rank state)
    (hstart : inv state) (hguard : Along step guard state events) :
    goal (events.foldl step state) ∨
      total step cost state events + rank (events.foldl step state) ≤ rank state := by
  induction events generalizing state with
  | nil => simp
  | cons event events ih =>
      have hrest := ih (hinv state event hstart hguard.1) hguard.2
      by_cases hgoal : goal (step state event)
      · left
        have hrun : Throughout step (fun state => inv state ∧ goal state) (step state event)
            events :=
          throughout_of_along
            (fun state event h hguard =>
              ⟨hinv state event h.1 hguard, hkeep state event h.1 hguard h.2⟩)
            ⟨hinv state event hstart hguard.1, hgoal⟩ hguard.2
        exact hrun.last.2
      · have hbefore : ¬ goal state := fun h => hgoal (hkeep state event hstart hguard.1 h)
        rcases hcost state event hstart hguard.1 hbefore with h | hfirst
        · exact absurd h hgoal
        · rcases hrest with hend | hrest
          · exact Or.inl hend
          · right
            rw [total_cons, List.foldl_cons]
            omega

end FoosballTable.Library
