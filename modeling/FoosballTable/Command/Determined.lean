import FoosballTable.Command.WellFormed
import Mathlib.Data.List.GetD

/-!
# What a line does and what the stack held

The arrays of the handler are not initialized, and three of them can be read where nothing was
written: the message after the bytes received, the values after the last token, and the last byte
of `command` after a word that is too long. `same_action_iff_determined` says for which lines the
handler does the same whatever was there.
-/

namespace FoosballTable.Command

open Library Traced

/-- The call that an action is: a message to the console calls nothing. -/
def Action.called : Action → Option Action
  | .invalidMode _ | .invalidCommand => none
  | action => some action

/-- What an invocation of the handler calls, if it ends. -/
def called (received : List Byte) (stack : Stack) : Option (Option Action) :=
  (commandHandler received stack).value.map Action.called

/-- Two invocations for the same bytes end, and both call the same action with the same arguments
or both call none. -/
def Agree (received : List Byte) (stack stack' : Stack) : Prop :=
  (called received stack).isSome ∧ called received stack = called received stack'

instance (received : List Byte) (stack stack' : Stack) : Decidable (Agree received stack stack') :=
  inferInstanceAs (Decidable (_ ∧ _))

/-- The lines that determine what the handler does: the loop ends within the bytes received, and
the command takes no more values than the line has, of which there is at least the zero that the
handler begins with. -/
def Determined (received : List Byte) : Prop :=
  Ends received ∧
    (argumentCount (commandName received) ≤ 1 ∨
      ((wordOf received).length ≤ 8 ∧
        argumentCount (commandName received) ≤ (tokensOf received).length))

instance : DecidablePred Determined :=
  fun _ => inferInstanceAs (Decidable (_ ∧ _))

/-! ## What the action depends on -/

/-- The action depends on the values that are its arguments. -/
theorem requested_congr {word : List Byte} {values values' : List Int}
    (h : ∀ index < argumentCount word, values.getD index 0 = values'.getD index 0) :
    requested word values = requested word values' := by
  by_cases hhome : word = bytes "home"
  · subst hhome
    show Action.call (.home (values.getD 0 0)) = .call (.home (values'.getD 0 0))
    rw [h 0 (by decide)]
  by_cases hmotor : word = bytes "motorcmd"
  · subst hmotor
    show Action.call (.userCommandMotor (values.getD 0 0) (values.getD 1 0) (values.getD 2 0)
        (values.getD 3 0)) =
      .call (.userCommandMotor (values'.getD 0 0) (values'.getD 1 0) (values'.getD 2 0)
        (values'.getD 3 0))
    rw [h 0 (by decide), h 1 (by decide), h 2 (by decide), h 3 (by decide)]
  by_cases hmode : word = bytes "btmode"
  · subst hmode
    show (if values.getD 0 0 = 0 then Action.setBallTrackingMode .normal
        else if values.getD 0 0 = 1 then .setBallTrackingMode .longCount
        else .invalidMode (values.getD 0 0)) =
      if values'.getD 0 0 = 0 then .setBallTrackingMode .normal
        else if values'.getD 0 0 = 1 then .setBallTrackingMode .longCount
        else .invalidMode (values'.getD 0 0)
    rw [h 0 (by decide)]
  by_cases hrotate : word = bytes "rotate"
  · subst hrotate
    show Action.call (.userRotateRod (values.getD 0 0) (values.getD 1 0) 0 (values.getD 2 0)) =
      .call (.userRotateRod (values'.getD 0 0) (values'.getD 1 0) 0 (values'.getD 2 0))
    rw [h 0 (by decide), h 1 (by decide), h 2 (by decide)]
  · simp [requested, hhome, hmotor, hmode, hrotate]

/-- A word of at least eight bytes is a command only if it is that of the motor command. -/
theorem requested_overlong {word : List Byte} (hlength : 8 ≤ word.length)
    (hmotor : word ≠ bytes "motorcmd") (values : List Int) :
    requested word values = .invalidCommand := by
  have hshort : ∀ text, (bytes text).length < 8 → word ≠ bytes text := by
    intro text htext heq
    rw [heq] at hlength
    omega
  simp [requested, hshort "home" (by decide), hshort "start" (by decide), hmotor,
    hshort "btmode" (by decide), hshort "rotate" (by decide)]

/-- What is carried out is what is called. -/
theorem called_taken (action : Action) : action.called.bind Action.taken = action.taken := by
  cases action <;> rfl

/-- The number of values of a line. -/
theorem determined_count {received : List Byte} (h : Determined received) :
    argumentCount (commandName received) ≤ (lineValues received).length := by
  unfold lineValues
  by_cases hread : (wordOf received).length ≤ 8 ∧ tokensOf received ≠ []
  · rw [if_pos hread, List.length_map]
    have hsome := List.length_pos_iff.mpr hread.2
    rcases h.2 with hone | hmore
    · omega
    · exact hmore.2
  · rw [if_neg hread, List.length_singleton]
    rcases h.2 with hone | hmore
    · exact hone
    · have hnone : tokensOf received = [] := by
        by_contra hsome
        exact hread ⟨hmore.1, hsome⟩
      rw [hnone] at hmore
      exact hmore.2.trans (Nat.zero_le 1)

/-- Where the line determines it, the call is the one for its own command and values. -/
theorem called_of_determined {received : List Byte} (hreceived : received.length ≤ 100)
    (h : Determined received) (stack : Stack) :
    called received stack =
      some (requested (commandName received) (lineValues received)).called := by
  obtain ⟨final, hread, hvalue⟩ := command_handler_read hreceived h.1 stack
  have hcount := determined_count h
  rw [called, hvalue, Option.map_some]
  by_cases hnul : 8 < (wordOf received).length →
      0 ∈ (wordOf received).take 8 ∨ stack.command[8] = 0
  · rw [read_name hread hnul]
    refine congrArg (fun action => some (Action.called action)) (requested_congr ?_)
    intro index hindex
    rw [hread.values, List.getD_append _ _ _ _ (by omega)]
  · -- the word is too long and has no NUL: nothing is called, with or without the stale byte
    push Not at hnul
    obtain ⟨hlong, hword, hstale⟩ := hnul
    have hnine := read_overlong_name hread hlong hword hstale
    have hname : (commandName received).length = 8 := by
      rw [commandName, string_of_not_mem hword, List.length_take]
      omega
    have hmotor : final.name ≠ bytes "motorcmd" := fun heq => by
      rw [heq] at hnine
      exact absurd hnine (by decide)
    have hown : commandName received ≠ bytes "motorcmd" := by
      intro heq
      rcases h.2 with hone | hmore
      · rw [heq] at hone
        exact absurd hone (by decide)
      · exact absurd hmore.1 (by omega)
    rw [requested_overlong (by omega) hmotor, requested_overlong (by omega) hown]

/-! ## Lines that leave it open -/

/-- A stack with a string in `command` and the same value in every cell of `values`. -/
def filledStack (value : Int) : Stack :=
  ⟨Vector.replicate 100 (ascii ' '), Vector.replicate 9 0, Vector.replicate 32 value⟩

/-- A line that does not end is lost when spaces follow it. -/
theorem called_lost {received : List Byte} (hreceived : received.length ≤ 100)
    (hends : ¬ Ends received) (value : Int) : called received (filledStack value) = none := by
  have hspaces : ∀ c ∈ (filledStack value).msg.toList.drop received.length, c = ascii ' ' := by
    intro c hc
    have hmem := List.mem_of_mem_drop hc
    simp only [filledStack, Vector.toList_replicate, List.mem_replicate] at hmem
    exact hmem.2
  have hlost := line_lost hends hspaces (filledStack value)
  rw [called, commandHandler, value_bind, rtfGet, List.take_of_length_le hreceived, hlost]
  rfl

/-- The arguments that a line leaves open are those of the stack. -/
theorem taken_open {received : List Byte} (hreceived : received.length ≤ 100)
    (hends : Ends received) (hmore : 1 < argumentCount (commandName received)) (value : Int) :
    ∃ action, called received (filledStack value) = some action ∧
      action.bind Action.taken = some (commandName received,
        (lineValues received ++ List.replicate (32 - (lineValues received).length) value).take
          (argumentCount (commandName received))) := by
  obtain ⟨final, hread, hvalue⟩ := command_handler_read hreceived hends (filledStack value)
  have hname := read_name hread fun _ => Or.inr rfl
  have hvalues : final.values.toList =
      lineValues received ++ List.replicate (32 - (lineValues received).length) value := by
    have hstale : (filledStack value).values.toList = List.replicate 32 value :=
      Vector.toList_replicate
    rw [hread.values, hstale, List.drop_replicate]
  refine ⟨(requested final.name final.values.toList).called, ?_, ?_⟩
  · rw [called, hvalue, Option.map_some]
  · have hmode : commandName received ≠ bytes "btmode" := by
      intro heq
      rw [heq] at hmore
      exact absurd hmore (by decide)
    rw [called_taken, requested_taken _ (by simp), hname, hvalues, if_neg]
    exact fun h => h.elim (by omega) fun h => hmode h.1

/-- The handler does the same whatever the stack held exactly for the lines that determine it. -/
theorem same_action_iff_determined {received : List Byte} (hreceived : received.length ≤ 100) :
    (∀ stack stack', Agree received stack stack') ↔ Determined received := by
  constructor
  · intro hagree
    have hends : Ends received := by
      by_contra hends
      have hsome := (hagree (filledStack 0) (filledStack 0)).1
      rw [called_lost hreceived hends] at hsome
      cases hsome
    refine ⟨hends, ?_⟩
    by_contra hcount
    push Not at hcount
    obtain ⟨hmore, hfew⟩ := hcount
    obtain ⟨action, haction, htaken⟩ := taken_open hreceived hends hmore 0
    obtain ⟨action', haction', htaken'⟩ := taken_open hreceived hends hmore 1
    -- the first argument that the line does not give is 0 in one invocation and 1 in the other
    have hsame := (hagree (filledStack 0) (filledStack 1)).2
    rw [haction, haction', Option.some.injEq] at hsame
    rw [hsame, htaken', Option.some.injEq, Prod.mk.injEq, and_iff_right rfl] at htaken
    have hlength : (lineValues received).length < argumentCount (commandName received) := by
      unfold lineValues
      split
      · rename_i hread
        rw [List.length_map]
        exact hfew hread.1
      · exact hmore
    have hfour := argument_count_le (commandName received)
    have hcell := congrArg (fun values => values[(lineValues received).length]?) htaken
    have hroom : 0 < 32 - (lineValues received).length := by omega
    simp [hlength, hroom] at hcell
  · intro hdetermined stack stack'
    refine ⟨?_, ?_⟩
    · rw [called_of_determined hreceived hdetermined, Option.isSome_some]
    · rw [called_of_determined hreceived hdetermined, called_of_determined hreceived hdetermined]

/-- Values that are missing, a line feed that was not received and the last byte of `command`
after a word that is too long all show in what the handler does. -/
theorem stack_shows :
    ¬ Agree (bytes "rotate 1" ++ [lineFeed]) (filledStack 0) (filledStack 90) ∧
      ¬ Agree (bytes "start") ⟨Vector.replicate 100 lineFeed, Vector.replicate 9 0,
        Vector.replicate 32 0⟩ ⟨Vector.replicate 100 (ascii 'x'), Vector.replicate 9 0,
        Vector.replicate 32 0⟩ ∧
      ¬ Agree (bytes "motorcmdx" ++ [lineFeed]) (filledStack 0)
        ⟨Vector.replicate 100 0, Vector.replicate 9 1, Vector.replicate 32 0⟩ := by
  decide

/-- A complete line does not depend on the stack. -/
theorem complete_line_agrees :
    Determined (bytes "rotate 1 90 0" ++ [lineFeed]) ∧
      ∀ stack stack', Agree (bytes "rotate 1 90 0" ++ [lineFeed]) stack stack' := by
  have hdetermined : Determined (bytes "rotate 1 90 0" ++ [lineFeed]) := by decide
  exact ⟨hdetermined, (same_action_iff_determined (by decide)).mpr hdetermined⟩

end FoosballTable.Command
