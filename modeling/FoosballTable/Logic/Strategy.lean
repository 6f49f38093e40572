import FoosballTable.Logic.Thread

/-!
# What the strategy can do

A period in `_basicStrategy` orders a kick, waits for one, takes one back, or does none of these:
`kick_case` is the inversion of a period as far as the kicks are concerned.
-/

namespace FoosballTable.Logic

/-- The thread is parked at one of the waits of `_basicStrategy`. -/
def Pc.InStrategy : Pc → Prop
  | .goalieKick _ | .goalieClear _ | .fullbackKick _ | .fullbackClear _ => True
  | .outerWait | .innerWait | .homing => False

instance : DecidablePred Pc.InStrategy
  | .goalieKick _ | .goalieClear _ | .fullbackKick _ | .fullbackClear _ => .isTrue trivial
  | .outerWait | .innerWait | .homing => .isFalse id

/-- The next period belongs to an iteration of `FL_NORMAL`. -/
def State.InNormal (state : State) : Prop :=
  state.pc.InStrategy ∨ state.pc = .innerWait ∧ state.mode = .normal

instance (state : State) : Decidable state.InNormal := inferInstanceAs (Decidable (_ ∨ _))

/-- A call that rotates a rod. -/
def Call.Rotates : Call → Prop
  | .rodRotate .. => True
  | .rodHome _ | .rodHomeResumes | .motorStep .. | .playerMove .. => False

/-- A call that moves a player. -/
def Call.Moves : Call → Prop
  | .playerMove .. => True
  | .rodHome _ | .rodHomeResumes | .motorStep .. | .rodRotate .. => False

variable (defs : FLUDefs)

/-- The rod whose kick the thread waits for, with the round of the wait. -/
def kickRound : Pc → Option (Int × Nat)
  | .goalieKick t => some (defs.goalie, t)
  | .fullbackKick t => some (defs.fullback, t)
  | .outerWait | .innerWait | .homing | .goalieClear _ | .fullbackClear _ => none

/-- The fullback's part of the strategy keeps the ball position. -/
theorem fullback_strategy_ball_pos (period : Period) (state : State) :
    (fullbackStrategy defs period state).1.ballPos = state.ballPos := by
  unfold fullbackStrategy
  split
  · rfl
  · split
    · rfl
    · split <;> rfl

/-- The strategy keeps the ball position. -/
theorem basic_strategy_ball_pos (period : Period) (state : State) :
    (basicStrategy defs period state).1.ballPos = state.ballPos := by
  unfold basicStrategy
  split
  · dsimp only
    split
    · rfl
    · exact fullback_strategy_ball_pos defs period state
  · rfl

/-- The blocking moves are moves. -/
theorem blocking_moves_move (period : Period) (ballPos : Point) :
    ∀ call ∈ blockingMoves defs period ballPos, call.Moves := by
  unfold blockingMoves
  intro call hmem
  rcases List.mem_append.mp hmem with hmem | hmem
  all_goals
    split at hmem
    · rw [List.mem_singleton.mp hmem]
      trivial
    · cases hmem

end FoosballTable.Logic
