import FoosballTable.Library.Ranking
import FoosballTable.Logic.Mailbox
import FoosballTable.Logic.Strategy

/-!
# How long an iteration takes

An iteration of the inner loop waits in `_basicStrategy` for a fixed number of periods at a time,
and tests `_start` only when it is over. `ProgressCase` is the inversion of a period as far as
the waits and the calls of an iteration are concerned. The ball position is read once in an
iteration, so that one that waited for the goalie's kick does not kick with the fullback as well,
and its waits add up to 510 periods at most. From this follow what a `pause` still lets happen
(`pause_settles`), how often the thread looks at `_mode` (`thread_responds`) and how long an
accepted command waits (`command_carried_out`).
-/

namespace FoosballTable.Logic

open Library

/-- The periods the thread stays in the waits of `_basicStrategy`. -/
def Pc.rounds : Pc → Nat
  | .outerWait | .innerWait | .homing => 0
  | .goalieKick t | .fullbackKick t => 9 - t + 1 + 500
  | .goalieClear t | .fullbackClear t => 499 - t + 1

/-- The calls the thread makes at most before it is back at the tests of its loops. -/
def Pc.budget : Pc → Nat
  | .outerWait | .homing | .fullbackClear _ => 0
  | .goalieClear _ | .fullbackKick _ => 1
  | .goalieKick _ => 2
  | .innerWait => 5

/-- The calls of a period, without the parts of a running `rodHome`. -/
def orders (calls : List Call) : Nat :=
  calls.countP (· ≠ .rodHomeResumes)

/-- The thread waits for the goalie's kick. -/
def Pc.AtGoalie : Pc → Prop
  | .goalieKick _ | .goalieClear _ => True
  | .outerWait | .innerWait | .homing | .fullbackKick _ | .fullbackClear _ => False

/-- While the thread waits for the goalie's kick, the ball it has read is near the goalie. -/
def State.NearGoalie (state : State) : Prop :=
  state.pc.AtGoalie → 95 < state.ballPos.x ∧ state.ballPos.x < 115

theorem Pc.rounds_le (pc : Pc) : pc.rounds ≤ 510 := by
  cases pc <;> simp only [Pc.rounds] <;> omega

theorem orders_le_length (calls : List Call) : orders calls ≤ calls.length :=
  List.countP_le_length

theorem orders_append (first second : List Call) :
    orders (first ++ second) = orders first + orders second :=
  List.countP_append

/-- There is a blocking move for each of the two rods at most. -/
theorem orders_blocking_moves (defs : FLUDefs) (period : Period) (ballPos : Point) :
    orders (blockingMoves defs period ballPos) ≤ 2 := by
  refine (orders_le_length _).trans ?_
  unfold blockingMoves
  split <;> split <;> simp

theorem loop_test_pc (state : State) :
    (loopTest state).pc = if state.start then .innerWait else .outerWait := rfl

theorem loop_test_not_at_goalie (state : State) : ¬ (loopTest state).pc.AtGoalie := by
  unfold loopTest
  cases state.start <;> exact id

/-- The ways a period can go, as far as the length of an iteration is concerned. -/
inductive ProgressCase (state next : State) (calls : List Call) : Prop where
  /-- The thread is back at the tests of its loops. -/
  | returns (hnext : next.pc = (loopTest state).pc) (hcalls : orders calls ≤ state.pc.budget)
  /-- The thread waits inside `rodHome`. -/
  | homes (hpc : state.pc = .innerWait ∨ state.pc = .homing) (hnext : next.pc = .homing)
      (hcalls : orders calls ≤ state.pc.budget)
  /-- An iteration gets to the first of its waits. -/
  | enters (hpc : state.pc = .innerWait) (hnext : next.pc.InStrategy)
      (hcalls : orders calls + next.pc.budget ≤ 5)
  /-- An iteration gets on with its waits. -/
  | waits (hpc : state.pc.InStrategy) (hnext : next.pc.InStrategy)
      (hrounds : next.pc.rounds + 1 ≤ state.pc.rounds)
      (hcalls : orders calls + next.pc.budget ≤ state.pc.budget)

/-- The fullback's part of the strategy orders a kick and waits, or turns the rod at most once. -/
theorem fullback_strategy_progress (defs : FLUDefs) (period : Period) (state : State) :
    ((fullbackStrategy defs period state).1.pc = .fullbackKick 0 ∧ 250 < state.ballPos.x ∧
        orders (fullbackStrategy defs period state).2 = 1) ∨
      (fullbackStrategy defs period state).1.pc = (loopTest state).pc ∧
        orders (fullbackStrategy defs period state).2 ≤ 1 := by
  unfold fullbackStrategy
  split
  case isTrue hkick => exact Or.inl ⟨rfl, hkick.1, rfl⟩
  case isFalse =>
    right
    split
    · exact ⟨rfl, le_rfl⟩
    · split
      · exact ⟨rfl, le_rfl⟩
      · exact ⟨rfl, Nat.zero_le 1⟩

/-- The strategy returns with at most three calls, or waits with at most five in the end. -/
theorem basic_strategy_progress (defs : FLUDefs) (period : Period) (state : State) :
    ((basicStrategy defs period state).1.pc = (loopTest state).pc ∧
        orders (basicStrategy defs period state).2 ≤ 5) ∨
      (basicStrategy defs period state).1.pc.InStrategy ∧
        orders (basicStrategy defs period state).2 +
          (basicStrategy defs period state).1.pc.budget ≤ 5 := by
  have hmoves := orders_blocking_moves defs period state.ballPos
  unfold basicStrategy
  split
  · dsimp only
    split
    · right
      refine ⟨trivial, ?_⟩
      rw [orders_append]
      show _ + 1 + 2 ≤ 5
      omega
    · rw [orders_append]
      rcases fullback_strategy_progress defs period state with
        ⟨hpc, -, hcalls⟩ | ⟨hpc, hcalls⟩
      · right
        rw [hpc, hcalls]
        refine ⟨trivial, ?_⟩
        show _ + 1 + 1 ≤ 5
        omega
      · exact Or.inl ⟨hpc, by omega⟩
  · exact Or.inl ⟨rfl, Nat.zero_le 5⟩

/-- The inversion of an iteration up to its first wait. -/
theorem iteration_progress (defs : FLUDefs) (period : Period) {state : State}
    (hpc : state.pc = .innerWait) :
    ProgressCase state (iteration defs period state).1 (iteration defs period state).2 := by
  have hone : ∀ call : Call, orders [call] ≤ state.pc.budget := by
    intro call
    rw [hpc]
    exact (orders_le_length [call]).trans (by decide : 1 ≤ 5)
  unfold iteration
  split
  · dsimp only
    split
    · exact .returns rfl (hone _)
    · exact .homes (Or.inl hpc) rfl (hone _)
  · rcases basic_strategy_progress defs period _ with ⟨hnext, hcalls⟩ | ⟨hnext, hcalls⟩
    · exact .returns hnext (by rw [hpc]; exact hcalls)
    · exact .enters hpc hnext hcalls
  · exact .returns rfl (hone _)
  · exact .returns rfl (hone _)
  · exact .returns rfl (Nat.zero_le _)

/-- The inversion of a period. -/
theorem wake_progress (defs : FLUDefs) (period : Period) {state : State}
    (hnear : state.NearGoalie) :
    ProgressCase state (wake defs period state).1 (wake defs period state).2 := by
  unfold wake
  split
  case h_1 hpc => exact .returns rfl (Nat.zero_le _)
  case h_2 hpc => exact iteration_progress defs period hpc
  case h_3 hpc =>
    dsimp only
    split
    · exact .returns rfl (Nat.zero_le _)
    · exact .homes (Or.inr hpc) hpc (Nat.zero_le _)
  case h_4 t hpc =>
    have hin : state.pc.InStrategy := by rw [hpc]; trivial
    split
    · exact .waits hin trivial (by simp only [hpc, Pc.rounds]; omega) (by rw [hpc]; exact le_rfl)
    · exact .waits hin trivial (by simp only [hpc, Pc.rounds]; omega) (by rw [hpc]; exact le_rfl)
  case h_5 t hpc =>
    have hin : state.pc.InStrategy := by rw [hpc]; trivial
    split
    · exact .waits hin trivial (by simp only [hpc, Pc.rounds]; omega) (by rw [hpc]; exact le_rfl)
    · -- the ball position is still the one that made the goalie kick
      have hball := hnear (by rw [hpc]; trivial)
      rcases fullback_strategy_progress defs period state with
        ⟨-, hfar, -⟩ | ⟨hnext, hcalls⟩
      · omega
      · exact .returns hnext (by rw [hpc]; exact hcalls)
  case h_6 t hpc =>
    have hin : state.pc.InStrategy := by rw [hpc]; trivial
    split
    · exact .waits hin trivial (by simp only [hpc, Pc.rounds]; omega) (by rw [hpc]; exact le_rfl)
    · exact .waits hin trivial (by simp only [hpc, Pc.rounds]; omega) (by rw [hpc]; exact le_rfl)
  case h_7 t hpc =>
    have hin : state.pc.InStrategy := by rw [hpc]; trivial
    split
    · exact .waits hin trivial (by simp only [hpc, Pc.rounds]; omega) (by rw [hpc]; exact le_rfl)
    · exact .returns rfl (Nat.zero_le _)

/-! ## Runs -/

variable {defs : FLUDefs} {rodIds : List Int} {state : State}

/-- The state after a handler call or a period. -/
def State.after (defs : FLUDefs) (rodIds : List Int) (state : State) : Event → State
  | .call call => (call.handler rodIds).run state
  | .period period => (wake defs period state).1

/-- The state after a run that starts with what `setup` and `run` leave. -/
def reached (defs : FLUDefs) (rodIds : List Int) (events : List Event) : State :=
  events.foldl (State.after defs rodIds) State.setup

theorem reached_append (first second : List Event) :
    reached defs rodIds (first ++ second) =
      second.foldl (State.after defs rodIds) (reached defs rodIds first) :=
  List.foldl_append

/-- The calls of an event that are orders of the thread. -/
def ordersOf (defs : FLUDefs) (state : State) : Event → Nat
  | .call _ => 0
  | .period period => orders (wake defs period state).2

/-- One for a period of the thread. -/
def Event.periods : Event → Nat
  | .call _ => 0
  | .period _ => 1

theorem sum_periods (periods : List Period) :
    ((periods.map Event.period).map Event.periods).sum = periods.length := by
  induction periods with
  | nil => rfl
  | cons period periods ih =>
      rw [List.map_cons, List.map_cons, List.sum_cons, ih, List.length_cons]
      exact Nat.add_comm 1 _

/-- A run of periods makes no handler call. -/
theorem forall_period {property : Event → Prop} (h : ∀ period, property (.period period))
    (periods : List Period) : ∀ event ∈ periods.map Event.period, property event := by
  intro event hmem
  obtain ⟨period, -, rfl⟩ := List.mem_map.mp hmem
  exact h period

/-- A handler call that sets `_start`. -/
def Event.Starts (rodIds : List Int) : Event → Prop
  | .call made => .start true ∈ (made.handler rodIds).body
  | .period _ => False

/-- A handler call that clears `_start`. -/
def Event.Stops : Event → Prop
  | .call made => made = .pause
  | .period _ => False

/-- The thread is in its outer loop or inside `rodHome`. -/
def Pc.Resting (pc : Pc) : Prop :=
  pc = .outerWait ∨ pc = .homing

/-- A handler call does not write the ball position. -/
theorem ball_pos_run (rodIds : List Int) (call : HandlerCall) (state : State) :
    ((call.handler rodIds).run state).ballPos = state.ballPos := by
  cases call with
  | home id =>
      simp only [HandlerCall.handler, home]
      cases findRod rodIds id <;> rfl
  | startPlay | pause | userCommandMotor | userRotateRod => rfl

/-- A handler call that does not set `_start` leaves it cleared. -/
theorem start_run_of_cleared {call : HandlerCall}
    (hcall : .start true ∉ (call.handler rodIds).body) (hstart : state.start = false) :
    ((call.handler rodIds).run state).start = false := by
  cases call with
  | startPlay => exact absurd List.mem_cons_self hcall
  | pause => rfl
  | home id =>
      simp only [HandlerCall.handler, home] at hcall ⊢
      split at hcall
      · simp at hcall
      · exact hstart
  | userCommandMotor | userRotateRod => exact hstart

/-- A handler call other than `pause` leaves `_start` set. -/
theorem start_run_of_set {call : HandlerCall} (hcall : call ≠ .pause)
    (hstart : state.start = true) : ((call.handler rodIds).run state).start = true := by
  cases call with
  | startPlay => rfl
  | pause => exact absurd rfl hcall
  | home id =>
      simp only [HandlerCall.handler, home]
      split
      · rfl
      · exact hstart
  | userCommandMotor | userRotateRod => exact hstart

/-- A period does not write `_start`. -/
theorem wake_start (defs : FLUDefs) (period : Period) (state : State) :
    (wake defs period state).1.start = state.start :=
  congrArg Prod.fst (wake_written defs period state)

/-- The fullback's part of the strategy does not wait for the goalie. -/
theorem fullback_strategy_not_at_goalie (period : Period) (state : State) :
    ¬ (fullbackStrategy defs period state).1.pc.AtGoalie := by
  rcases fullback_strategy_progress defs period state with ⟨hpc, -⟩ | ⟨hpc, -⟩
  · rw [hpc]
    exact id
  · rw [hpc]
    exact loop_test_not_at_goalie state

/-- The strategy waits for the goalie only when the ball is near it. -/
theorem basic_strategy_near_goalie (period : Period) (state : State) :
    (basicStrategy defs period state).1.NearGoalie := by
  unfold basicStrategy
  split
  · dsimp only
    split
    case isTrue hball => exact fun _ => hball
    case isFalse => exact fun hat => absurd hat (fullback_strategy_not_at_goalie period state)
  · exact fun hat => absurd hat (loop_test_not_at_goalie state)

/-- An iteration waits for the goalie only when the ball it has read is near it. -/
theorem iteration_near_goalie (period : Period) (state : State) :
    (iteration defs period state).1.NearGoalie := by
  unfold iteration
  split
  · dsimp only
    split
    · exact fun hat => absurd hat (loop_test_not_at_goalie _)
    · exact False.elim
  · exact basic_strategy_near_goalie period _
  · exact fun hat => absurd hat (loop_test_not_at_goalie _)
  · exact fun hat => absurd hat (loop_test_not_at_goalie _)
  · exact fun hat => absurd hat (loop_test_not_at_goalie _)

/-- While the thread waits for the goalie's kick the ball position is not read again. -/
theorem near_goalie_wake (hnear : state.NearGoalie) (period : Period) :
    (wake defs period state).1.NearGoalie := by
  unfold wake
  split
  case h_1 => exact fun hat => absurd hat (loop_test_not_at_goalie _)
  case h_2 => exact iteration_near_goalie period state
  case h_3 hpc =>
    dsimp only
    split
    · exact fun hat => absurd hat (loop_test_not_at_goalie _)
    · exact hnear
  case h_4 t hpc =>
    have hball := hnear (by rw [hpc]; trivial)
    split <;> exact fun _ => hball
  case h_5 t hpc =>
    have hball := hnear (by rw [hpc]; trivial)
    split
    · exact fun _ => hball
    · exact fun hat => absurd hat (fullback_strategy_not_at_goalie period state)
  case h_6 => split <;> exact False.elim
  case h_7 =>
    split
    · exact False.elim
    · exact fun hat => absurd hat (loop_test_not_at_goalie _)

/-- So does every event. -/
theorem near_goalie_after (hnear : state.NearGoalie) (event : Event) :
    (state.after defs rodIds event).NearGoalie := by
  cases event with
  | call call =>
      show ((call.handler rodIds).run state).NearGoalie
      unfold State.NearGoalie
      rw [pc_run, ball_pos_run]
      exact hnear
  | period period => exact near_goalie_wake hnear period

/-- So does every run from `setup`. -/
theorem near_goalie_reached (defs : FLUDefs) (rodIds : List Int) (events : List Event) :
    (reached defs rodIds events).NearGoalie := by
  have hstart : State.setup.NearGoalie := False.elim
  have hstep : ∀ (state : State) (event : Event), state.NearGoalie →
      (state.after defs rodIds event).NearGoalie :=
    fun _ event hnear => near_goalie_after hnear event
  exact (throughout_of_invariant hstep hstart events).last

/-! ## What a pause still lets happen -/

/-- The periods left until a stopped thread rests. -/
def Pc.left (pc : Pc) : Nat :=
  if pc = .innerWait then 511 else pc.rounds

theorem Pc.left_le (pc : Pc) : pc.left ≤ 511 := by
  have hle := pc.rounds_le
  unfold Pc.left
  split <;> omega

theorem Pc.InStrategy.left {pc : Pc} (h : pc.InStrategy) : pc.left = pc.rounds := by
  rw [Pc.left, if_neg]
  intro heq
  rw [heq] at h
  exact h

/-- A thread with nothing left rests. -/
theorem Pc.resting_of_left {pc : Pc} (h : pc.left = 0) : pc.Resting := by
  cases pc with
  | outerWait => exact Or.inl rfl
  | homing => exact Or.inr rfl
  | innerWait => cases h
  | goalieKick t | goalieClear t | fullbackKick t | fullbackClear t =>
      exact absurd h (Nat.succ_ne_zero _)

theorem Pc.budget_le (pc : Pc) : pc.budget ≤ 5 := by
  cases pc <;> simp only [Pc.budget] <;> omega

/-- A stopped thread is in the outer loop after the tests of its loops. -/
theorem loop_test_pc_of_cleared (hstart : state.start = false) :
    (loopTest state).pc = .outerWait := by
  rw [loop_test_pc, hstart]
  rfl

/-- An event that does not set `_start` leaves it cleared. -/
theorem start_after_of_cleared {event : Event} (hevent : ¬ event.Starts rodIds)
    (hstart : state.start = false) : (state.after defs rodIds event).start = false := by
  cases event with
  | call call => exact start_run_of_cleared hevent hstart
  | period period => exact (wake_start defs period state).trans hstart

/-- The orders of a stopped thread come out of its budget. -/
theorem orders_of_budget (hnear : state.NearGoalie) (hstart : state.start = false)
    (event : Event) :
    ordersOf defs state event + (state.after defs rodIds event).pc.budget ≤ state.pc.budget := by
  cases event with
  | call call =>
      show 0 + ((call.handler rodIds).run state).pc.budget ≤ state.pc.budget
      rw [pc_run, Nat.zero_add]
  | period period =>
      show orders (wake defs period state).2 + (wake defs period state).1.pc.budget ≤ _
      cases wake_progress defs period hnear with
      | returns hnext hcalls =>
          rw [hnext, loop_test_pc_of_cleared hstart]
          exact hcalls
      | homes hpc hnext hcalls =>
          rw [hnext]
          exact hcalls
      | enters hpc hnext hcalls =>
          rw [hpc]
          exact hcalls
      | waits hpc hnext hrounds hcalls => exact hcalls

/-- A stopped thread that rests goes on resting. -/
theorem resting_after (hnear : state.NearGoalie) (hstart : state.start = false) {event : Event}
    (hrest : state.pc.Resting) : (state.after defs rodIds event).pc.Resting := by
  cases event with
  | call call =>
      show ((call.handler rodIds).run state).pc.Resting
      rwa [pc_run]
  | period period =>
      show (wake defs period state).1.pc.Resting
      cases wake_progress defs period hnear with
      | returns hnext => exact Or.inl (hnext.trans (loop_test_pc_of_cleared hstart))
      | homes hpc hnext => exact Or.inr hnext
      | enters hpc =>
          rcases hrest with hrest | hrest <;> rw [hpc] at hrest <;> cases hrest
      | waits hpc =>
          rcases hrest with hrest | hrest <;> rw [hrest] at hpc <;> exact hpc.elim

/-- A stopped thread comes to rest, or a period of it takes one off what is left. -/
theorem rest_or_left (hnear : state.NearGoalie) (hstart : state.start = false) (event : Event) :
    (state.after defs rodIds event).pc.Resting ∨
      event.periods + (state.after defs rodIds event).pc.left ≤ state.pc.left := by
  cases event with
  | call call =>
      right
      show 0 + ((call.handler rodIds).run state).pc.left ≤ state.pc.left
      rw [pc_run, Nat.zero_add]
  | period period =>
      show (wake defs period state).1.pc.Resting ∨
        1 + (wake defs period state).1.pc.left ≤ state.pc.left
      cases wake_progress defs period hnear with
      | returns hnext => exact Or.inl (Or.inl (hnext.trans (loop_test_pc_of_cleared hstart)))
      | homes hpc hnext => exact Or.inl (Or.inr hnext)
      | enters hpc hnext =>
          right
          have hle := (wake defs period state).1.pc.rounds_le
          rw [hnext.left, hpc]
          show 1 + _ ≤ 511
          omega
      | waits hpc hnext hrounds =>
          right
          rw [hnext.left, hpc.left]
          omega

/-- After a `pause`, and until a handler call sets `_start` again, the thread makes at most five
more calls, and it is in its outer loop or inside `rodHome` after 511 periods, whatever other
handler calls are made. -/
theorem pause_settles (defs : FLUDefs) (rodIds : List Int) (events later : List Event)
    (hlater : ∀ event ∈ later, ¬ event.Starts rodIds) :
    let paused := (reached defs rodIds events).after defs rodIds (.call .pause)
    total (State.after defs rodIds) (ordersOf defs) paused later ≤ 5 ∧
      (511 ≤ (later.map Event.periods).sum →
        (later.foldl (State.after defs rodIds) paused).pc.Resting) := by
  intro paused
  have hnear : paused.NearGoalie := near_goalie_after (near_goalie_reached defs rodIds events) _
  have hstart : paused.start = false := rfl
  have hinv : ∀ (state : State) (event : Event), state.NearGoalie ∧ state.start = false →
      ¬ event.Starts rodIds → (state.after defs rodIds event).NearGoalie ∧
        (state.after defs rodIds event).start = false :=
    fun _ event h hevent => ⟨near_goalie_after h.1 event, start_after_of_cleared hevent h.2⟩
  have hguard : Along (State.after defs rodIds) (fun _ event => ¬ event.Starts rodIds) paused
      later :=
    along_of_forall hlater paused
  constructor
  · have hcost := total_add_rank_le (ordersOf defs) (fun state => state.pc.budget) hinv
      (fun _ event h _ => orders_of_budget h.1 h.2 event) ⟨hnear, hstart⟩ hguard
    have hle := paused.pc.budget_le
    omega
  · intro hperiods
    have hrest := settled_or_ranked (fun _ event => event.periods) (fun state => state.pc.left)
      hinv (fun _ _ h _ => resting_after h.1 h.2)
      (fun _ event h _ _ => rest_or_left h.1 h.2 event) ⟨hnear, hstart⟩ hguard
    rcases hrest with hrest | hleft
    · exact hrest
    · rw [total_of_event] at hleft
      have hle := paused.pc.left_le
      exact Pc.resting_of_left (by omega)

/-- A period that finds the ball in front of the goalie. -/
def shotPeriod : Period :=
  { Period.quiet false with position := ⟨8, 20, 0⟩ }

/-- A game that is paused right before the goalie kicks. -/
def pausedBeforeShot : State :=
  (reached FLUDefs.small [0, 1] [.call .startPlay, .period shotPeriod]).after FLUDefs.small [0, 1]
    (.call .pause)

/-- The kick is made and taken back all the same, and then the thread rests. -/
theorem paused_shot_settles :
    let later := (List.replicate 511 shotPeriod).map Event.period
    total (State.after FLUDefs.small [0, 1]) (ordersOf FLUDefs.small) pausedBeforeShot later ≤ 5 ∧
      (later.foldl (State.after FLUDefs.small [0, 1]) pausedBeforeShot).pc.Resting := by
  have hsettles := pause_settles FLUDefs.small [0, 1] [.call .startPlay, .period shotPeriod]
    ((List.replicate 511 shotPeriod).map .period) (forall_period (fun _ => id) _)
  exact ⟨hsettles.1, hsettles.2 (by rw [sum_periods, List.length_replicate])⟩

/-- Neither of the two bounds can be lowered. -/
example :
    total (State.after FLUDefs.small [0, 1]) (ordersOf FLUDefs.small) pausedBeforeShot
        ((List.replicate 510 shotPeriod).map .period) = 4 ∧
      (((List.replicate 510 shotPeriod).map Event.period).foldl
        (State.after FLUDefs.small [0, 1]) pausedBeforeShot).pc = .goalieClear 499 := by
  decide +kernel

/-! ## How often the thread looks at the mode -/

/-- The periods left until a started thread is back at the `switch` of its inner loop. -/
def Pc.away (pc : Pc) : Nat :=
  if pc = .outerWait then 1 else pc.rounds

theorem Pc.InStrategy.away {pc : Pc} (h : pc.InStrategy) : pc.away = pc.rounds := by
  rw [Pc.away, if_neg]
  intro heq
  rw [heq] at h
  exact h

theorem Pc.away_le (pc : Pc) : pc.away ≤ 510 := by
  have hle := pc.rounds_le
  unfold Pc.away
  split <;> omega

theorem Pc.away_pos {pc : Pc} (hinner : pc ≠ .innerWait) (hhoming : pc ≠ .homing) :
    1 ≤ pc.away := by
  cases pc with
  | outerWait => exact le_rfl
  | innerWait => exact absurd rfl hinner
  | homing => exact absurd rfl hhoming
  | goalieKick t | goalieClear t | fullbackKick t | fullbackClear t =>
      exact Nat.succ_le_succ (Nat.zero_le _)

/-- A period in which the thread takes the `switch` of its inner loop. -/
def Attends (state : State) : Event → Prop
  | .call _ => False
  | .period _ => state.pc = .innerWait

/-- A started thread that is not inside `rodHome`. -/
structure State.Responsive (state : State) : Prop where
  near : state.NearGoalie
  start : state.start = true
  free : state.pc ≠ .homing

/-- A thread stays responsive up to its next `switch`, and each of its periods takes one off the
time it is away. -/
theorem State.Responsive.after (h : state.Responsive) {event : Event} (hevent : ¬ event.Stops)
    (haway : ¬ Attends state event) :
    (state.after defs rodIds event).Responsive ∧
      event.periods + (state.after defs rodIds event).pc.away ≤ state.pc.away := by
  have hnear : (state.after defs rodIds event).NearGoalie := near_goalie_after h.near event
  cases event with
  | call made =>
      have hpc : (state.after defs rodIds (.call made)).pc = state.pc := pc_run rodIds made state
      refine ⟨⟨hnear, start_run_of_set hevent h.start, hpc ▸ h.free⟩, ?_⟩
      rw [hpc]
      exact (Nat.zero_add _).le
  | period period =>
      have hstart := (wake_start defs period state).trans h.start
      cases wake_progress defs period h.near with
      | returns hnext =>
          rw [loop_test_pc, h.start] at hnext
          have hinner : (wake defs period state).1.pc = .innerWait := hnext
          refine ⟨⟨hnear, hstart, by rw [State.after, hinner]; decide⟩, ?_⟩
          show 1 + (wake defs period state).1.pc.away ≤ state.pc.away
          rw [hinner]
          exact Pc.away_pos haway h.free
      | homes hpc hnext => exact absurd (hpc.resolve_right h.free) haway
      | enters hpc => exact absurd hpc haway
      | waits hpc hnext hrounds =>
          refine ⟨⟨hnear, hstart, fun heq => ?_⟩, ?_⟩
          · rw [State.after] at heq
            rw [heq] at hnext
            exact hnext
          · show 1 + (wake defs period state).1.pc.away ≤ state.pc.away
            rw [hnext.away, hpc.away]
            omega

/-- A responsive thread takes the `switch` in a run with more periods than it is away for. -/
theorem State.Responsive.attends (h : state.Responsive) {later : List Event}
    (hlater : ∀ event ∈ later, ¬ event.Stops)
    (hlong : state.pc.away < (later.map Event.periods).sum) :
    Somewhere (State.after defs rodIds) Attends state later := by
  have hguard : Along (State.after defs rodIds) (fun _ event => ¬ event.Stops) state later :=
    along_of_forall hlater state
  have hkeep : ∀ (state : State) (event : Event), state.Responsive → ¬ event.Stops →
      ¬ Attends state event → (state.after defs rodIds event).Responsive :=
    fun _ _ h hevent haway => (h.after hevent haway).1
  have hpay : ∀ (state : State) (event : Event), state.Responsive → ¬ event.Stops →
      ¬ Attends state event →
        event.periods + (state.after defs rodIds event).pc.away ≤ state.pc.away :=
    fun _ _ h hevent haway => (h.after hevent haway).2
  have hmeets := somewhere_of_rank_lt (fun _ event => event.periods) (fun state => state.pc.away)
    hkeep hpay h hguard (by rwa [total_of_event])
  exact hmeets.mono fun _ _ h => h.2

/-- A started thread that is not inside `rodHome` takes the `switch` of its inner loop within 511
periods, whatever handler calls but `pause` are made in between. -/
theorem thread_responds (defs : FLUDefs) (rodIds : List Int) (events later : List Event)
    (hstart : (reached defs rodIds events).start = true)
    (hfree : (reached defs rodIds events).pc ≠ .homing)
    (hlater : ∀ event ∈ later, ¬ event.Stops) (hlong : 511 ≤ (later.map Event.periods).sum) :
    Somewhere (State.after defs rodIds) Attends (reached defs rodIds events) later := by
  have hresponsive : (reached defs rodIds events).Responsive :=
    ⟨near_goalie_reached defs rodIds events, hstart, hfree⟩
  have hle := (reached defs rodIds events).pc.away_le
  exact hresponsive.attends hlater (by omega)

/-- A period in which the thread does not take the `switch` leaves a command where it is. -/
theorem held_wake (period : Period) (haway : state.pc ≠ .innerWait)
    (hfree : state.pc ≠ .homing) : (wake defs period state).1.held = state.held := by
  have hmode : (wake defs period state).1.mode = state.mode := by
    cases wake_case defs period state with
    | answered call hpc | homingStarted call hpc => exact absurd hpc haway
    | homingContinues hpc | homingReturned hpc => exact absurd hpc hfree
    | other hpc hheld hmode => exact hmode
  exact held_congr hmode (wake_written defs period state)

/-- A command that `_start` is set for and no `rodHome` is in the way of is carried out within 511
periods of the thread, if no other handler call is made before. -/
theorem command_carried_out (defs : FLUDefs) (rodIds : List Int) (events : List Event)
    {call : HandlerCall} {made : Call} (hcall : call.request rodIds = some made)
    (hstart : (reached defs rodIds (events ++ [.call call])).start = true)
    (hfree : (reached defs rodIds (events ++ [.call call])).pc ≠ .homing)
    {periods : List Period} (hlong : 511 ≤ periods.length) :
    ∃ first period last, periods = first ++ period :: last ∧ first.length < 511 ∧
      (wake defs period
        (reached defs rodIds (events ++ .call call :: first.map .period))).2 = [made] := by
  have hresponsive : (reached defs rodIds (events ++ [.call call])).Responsive :=
    ⟨near_goalie_reached defs rodIds _, hstart, hfree⟩
  have hheld : (reached defs rodIds (events ++ [.call call])).held = some made := by
    have hpause : call ≠ .pause := by
      intro heq
      rw [heq] at hcall
      cases hcall
    rw [reached_append, ← hcall]
    exact held_run rodIds hpause _
  have hle := (reached defs rodIds (events ++ [.call call])).pc.away_le
  -- the first 511 periods are enough
  have hguard : Along (State.after defs rodIds) (fun _ event => ∃ period, event = .period period)
      (reached defs rodIds (events ++ [.call call])) ((periods.take 511).map .period) :=
    along_of_forall (forall_period (fun period => ⟨period, rfl⟩) _) _
  have hkeep : ∀ (state : State) (event : Event), state.Responsive ∧ state.held = some made →
      (∃ period, event = .period period) → ¬ Attends state event →
        (state.after defs rodIds event).Responsive ∧
          (state.after defs rodIds event).held = some made := by
    rintro state event ⟨hresponsive, hmade⟩ ⟨period, rfl⟩ haway
    exact ⟨(hresponsive.after id haway).1, (held_wake period haway hresponsive.free).trans hmade⟩
  have hpay : ∀ (state : State) (event : Event), state.Responsive ∧ state.held = some made →
      (∃ period, event = .period period) → ¬ Attends state event →
        event.periods + (state.after defs rodIds event).pc.away ≤ state.pc.away := by
    rintro state event ⟨hresponsive, -⟩ ⟨period, rfl⟩ haway
    exact (hresponsive.after id haway).2
  have hperiods : (((periods.take 511).map Event.period).map Event.periods).sum = 511 := by
    rw [sum_periods, List.length_take]
    omega
  have hmeets := somewhere_of_rank_lt (fun _ event => event.periods) (fun state => state.pc.away)
    hkeep hpay ⟨hresponsive, hheld⟩ hguard (by rw [total_of_event]; omega)
  obtain ⟨first, event, last, hsplit, ⟨-, hmade⟩, hattends⟩ := somewhere_iff_split.mp hmeets
  obtain ⟨firstPeriods, rest, htake, rfl, hrest⟩ := List.map_eq_append_iff.mp hsplit
  obtain ⟨period, lastPeriods, rfl, rfl, -⟩ := List.map_eq_cons_iff.mp hrest
  refine ⟨firstPeriods, period, lastPeriods ++ periods.drop 511, ?_, ?_, ?_⟩
  · rw [← List.cons_append, ← List.append_assoc, ← htake, List.take_append_drop]
  · have hlength := congrArg List.length htake
    rw [List.length_take, List.length_append, List.length_cons] at hlength
    omega
  · rw [List.append_cons, reached_append]
    have hanswers := Log.answers_of_held defs period hattends hmade
    rwa [Log.answers, if_pos ⟨hattends, Option.isSome_of_eq_some hmade⟩] at hanswers

/-- A game in which the goalie has just kicked. -/
def shotGame : List Event :=
  [.call .startPlay, .period shotPeriod, .period shotPeriod]

/-- The thread gets back from a kick to its `switch`, with a command made in the meantime. -/
theorem shot_thread_responds :
    Somewhere (State.after FLUDefs.small [0, 1]) Attends
      (reached FLUDefs.small [0, 1] shotGame)
      (.call (.userRotateRod 1 90 0 0) :: (List.replicate 511 shotPeriod).map .period) :=
  thread_responds FLUDefs.small [0, 1] shotGame _ rfl (by decide)
    (List.forall_mem_cons.mpr ⟨nofun, forall_period (fun _ => id) _⟩)
    (by rw [List.map_cons, List.sum_cons, sum_periods, List.length_replicate]; decide)

/-- It then carries out the command. -/
theorem command_after_shot_carried_out :
    ∃ first period last, List.replicate 511 shotPeriod = first ++ period :: last ∧
      first.length < 511 ∧
      (wake FLUDefs.small period (reached FLUDefs.small [0, 1]
        (shotGame ++ .call (.userRotateRod 1 90 0 0) :: first.map .period))).2 =
          [.rodRotate 90 1] :=
  command_carried_out FLUDefs.small [0, 1] shotGame rfl rfl (by decide)
    (by rw [List.length_replicate])

end FoosballTable.Logic
