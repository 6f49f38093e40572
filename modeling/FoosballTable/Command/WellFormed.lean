import FoosballTable.Command.Reading

/-!
# Which lines move something

A line is meant to be a command word and, after single spaces, tokens that are decimal integers.
The branch of the loop for the values takes any byte for a digit, so the handler also acts on
lines that are no such thing. `well_formed_iff_exact` says for which lines that stay within the
arrays an action is only ever taken on the arguments that are written in the line.
-/

namespace FoosballTable.Command

open Library Traced

/-! ## What a token denotes -/

/-- A decimal digit. -/
def IsDigit (c : Byte) : Prop :=
  48 ≤ c.toNat ∧ c.toNat ≤ 57

instance : DecidablePred IsDigit :=
  fun _ => inferInstanceAs (Decidable (_ ∧ _))

/-- The number that at least one decimal digit denotes. -/
def number (digits : List Byte) : Option Nat :=
  if digits ≠ [] ∧ digits.all (IsDigit ·) then
    some (readDigits 0 (digits.map fun c => c.toNat - 48))
  else none

/-- The integer that a token denotes: an optional minus sign and a number. -/
def denoted : List Byte → Option Int
  | [] => none
  | c :: token =>
      if c = ascii '-' then (number token).map fun n : Nat => -(n : Int)
      else (number (c :: token)).map fun n : Nat => (n : Int)

/-- The `int` that a token denotes. -/
def denotedInt (token : List Byte) : Option Int :=
  (denoted token).filter fun value => IsInt value

/-- The positional value of decimal digits is the number they denote. -/
theorem fold_digits (digits : List Byte) (hdigits : ∀ c ∈ digits, IsDigit c) (value : Nat) :
    digits.foldl (fun (value : Int) c => value * 10 + digitValue c) value =
      readDigits value (digits.map fun c => c.toNat - 48) := by
  induction digits generalizing value with
  | nil => rfl
  | cons c digits ih =>
      have hc := hdigits c List.mem_cons_self
      have hvalue : digitValue c = ((c.toNat - 48 : Nat) : Int) := by
        have hint : c.toInt = c.toNat := BitVec.toInt_eq_toNat_of_lt (by have := hc.2; omega)
        have hzero : (ascii '0').toInt = 48 := by decide
        have hlow := hc.1
        unfold digitValue
        omega
      rw [List.foldl_cons, List.map_cons, read_digits_cons,
        ← ih (fun d hd => hdigits d (List.mem_cons_of_mem c hd)), hvalue]
      push_cast
      rfl

theorem not_minus_of_is_digit {c : Byte} (h : IsDigit c) : c ≠ ascii '-' := by
  intro heq
  have hminus : (ascii '-').toNat = 45 := by decide
  have hlow := h.1
  rw [heq] at hlow
  omega

/-- A number has no minus sign and weighs what it denotes. -/
theorem weight_number {digits : List Byte} {n : Nat} (h : number digits = some n) :
    ascii '-' ∉ digits ∧ weight digits = n := by
  unfold number at h
  split at h
  · rename_i hall
    cases h
    have hdigits : ∀ c ∈ digits, IsDigit c := by simpa using hall.2
    have hfilter : digits.filter (· ≠ ascii '-') = digits :=
      List.filter_eq_self.mpr fun c hc => by simpa using not_minus_of_is_digit (hdigits c hc)
    refine ⟨fun hmem => not_minus_of_is_digit (hdigits _ hmem) rfl, ?_⟩
    rw [weight, hfilter]
    exact fold_digits digits hdigits 0
  · cases h

/-- A token that denotes an integer weighs it. -/
theorem signed_weight_denoted {token : List Byte} {value : Int} (h : denoted token = some value) :
    signedWeight token = value := by
  cases token with
  | nil => cases h
  | cons c token =>
      by_cases hc : c = ascii '-'
      · rw [denoted, if_pos hc, Option.map_eq_some_iff] at h
        obtain ⟨n, hn, rfl⟩ := h
        have hweight : weight (c :: token) = weight token := by
          rw [weight, hc, List.filter_cons_of_neg (by simp)]
          rfl
        rw [signedWeight, if_pos (hc ▸ List.mem_cons_self), hweight, (weight_number hn).2]
      · rw [denoted, if_neg hc, Option.map_eq_some_iff] at h
        obtain ⟨n, hn, rfl⟩ := h
        rw [signedWeight, if_neg (weight_number hn).1, (weight_number hn).2]

/-- A token that denotes an `int` is read as that. -/
theorem reading_denoted {token : List Byte} {value : Int} (h : denotedInt token = some value) :
    reading token = value := by
  unfold denotedInt at h
  rw [Option.filter_eq_some_iff] at h
  obtain ⟨hdenoted, hint⟩ := h
  rw [reading, signed_weight_denoted hdenoted]
  exact int32_of_is_int (by simpa using hint)

/-! ## What a line asks for -/

/-- The code of a tracking mode. -/
def modeCode : Tracker.BallTrackingMode → Int
  | .normal => 0
  | .longCount => 1

/-- The command that an action carries out and the arguments it takes from `values`. Starting the
gameplay takes none, and the messages to the console carry nothing out. -/
def Action.taken : Action → Option (List Byte × List Int)
  | .call (.home id) => some (bytes "home", [id])
  | .call (.userCommandMotor motor steps wait dir) =>
      some (bytes "motorcmd", [motor, steps, wait, dir])
  | .call (.userRotateRod id anglePosition _ dir) => some (bytes "rotate", [id, anglePosition, dir])
  | .setBallTrackingMode mode => some (bytes "btmode", [modeCode mode])
  | .call .startPlay | .call .pause | .invalidMode _ | .invalidCommand => none

/-- The bytes received up to the first line feed are a command word and single-space separated
tokens, and the tokens in the places of the arguments denote them. -/
def Spells (received word : List Byte) (arguments : List Int) : Prop :=
  lineFeed ∈ received ∧
    (received.takeWhile (· ≠ lineFeed)).splitOn (ascii ' ') = word :: tokensOf received ∧
    ((tokensOf received).take arguments.length).map denotedInt = arguments.map some

instance (received word : List Byte) (arguments : List Int) :
    Decidable (Spells received word arguments) :=
  inferInstanceAs (Decidable (_ ∧ _))

/-- An action is taken only on the arguments that are written in the line. -/
def WellFormed (received : List Byte) (action : Action) : Prop :=
  match action.taken with
  | some (word, arguments) => Spells received word arguments
  | none => True

instance (received : List Byte) (action : Action) : Decidable (WellFormed received action) := by
  unfold WellFormed
  split <;> infer_instance

/-- A tracking mode is selected: the weight of the token, as 32 bits, is the code of a mode. -/
def SelectsMode (token : List Byte) : Prop :=
  signedWeight token % 2 ^ 32 = 0 ∨ signedWeight token % 2 ^ 32 = 1

instance : DecidablePred SelectsMode :=
  fun _ => inferInstanceAs (Decidable (_ ∨ _))

/-- The lines on which the handler is exact: the word names no command with arguments, or it names
`btmode` and the token after it selects no mode, or it is the name itself and each argument has a
token that denotes an `int`. -/
def Exact (received : List Byte) : Prop :=
  argumentCount (commandName received) = 0 ∨
    (commandName received = bytes "btmode" ∧ (wordOf received).length ≤ 8 ∧
      ∃ token ∈ (tokensOf received).head?, ¬ SelectsMode token) ∨
    (wordOf received = commandName received ∧
      argumentCount (commandName received) ≤ (tokensOf received).length ∧
      ∀ token ∈ (tokensOf received).take (argumentCount (commandName received)),
        (denotedInt token).isSome)

instance : DecidablePred Exact :=
  fun _ => inferInstanceAs (Decidable (_ ∨ _))

/-- What the handler carries out for a command and values. -/
theorem requested_taken (name : List Byte) {values : List Int} (hlength : 4 ≤ values.length) :
    (requested name values).taken =
      if argumentCount name = 0 ∨
        (name = bytes "btmode" ∧ values.getD 0 0 ≠ 0 ∧ values.getD 0 0 ≠ 1) then none
      else some (name, values.take (argumentCount name)) := by
  obtain ⟨a, b, c, d, values, rfl⟩ : ∃ a b c d rest, values = a :: b :: c :: d :: rest := by
    match values, hlength with
    | a :: b :: c :: d :: rest, _ => exact ⟨a, b, c, d, rest, rfl⟩
  by_cases hhome : name = bytes "home"
  · subst hhome
    rfl
  by_cases hstart : name = bytes "start"
  · subst hstart
    rfl
  by_cases hmotor : name = bytes "motorcmd"
  · subst hmotor
    rfl
  by_cases hmode : name = bytes "btmode"
  · subst hmode
    show (if a = 0 then Action.setBallTrackingMode .normal
      else if a = 1 then .setBallTrackingMode .longCount else .invalidMode a).taken =
      if 1 = 0 ∨ (_ ∧ a ≠ 0 ∧ a ≠ 1) then none else some (bytes "btmode", [a])
    by_cases hzero : a = 0
    · subst hzero
      rfl
    · by_cases hone : a = 1
      · subst hone
        rfl
      · simp [hzero, hone, Action.taken]
  by_cases hrotate : name = bytes "rotate"
  · subst hrotate
    rfl
  · simp [requested, argumentCount, hhome, hstart, hmotor, hmode, hrotate, Action.taken]

/-! ## The lines on which the handler is exact -/

section Lines

variable {received : List Byte} {stack : Stack}

/-- A value that is read as 0 or 1 selects a mode. -/
theorem selects_mode_iff (token : List Byte) :
    SelectsMode token ↔ reading token = 0 ∨ reading token = 1 := by
  unfold SelectsMode reading int32
  have hzero := Int.emod_nonneg (signedWeight token) (show (2 ^ 32 : Int) ≠ 0 by decide)
  have htop := Int.emod_lt_of_pos (signedWeight token) (show (0 : Int) < 2 ^ 32 by decide)
  rw [Int.bmod_def]
  split <;> omega

/-- The bytes of a line up to the line feed are its word and its tokens. -/
theorem line_split (received : List Byte) :
    (received.takeWhile (· ≠ lineFeed)).splitOn (ascii ' ') =
      wordOf received :: tokensOf received := by
  have hhead : ∃ tokens, (received.takeWhile (· ≠ lineFeed)).splitOn (ascii ' ') =
      wordOf received :: tokens := by
    induction received with
    | nil => exact ⟨[], rfl⟩
    | cons c received ih =>
        obtain ⟨tokens, ih⟩ := ih
        by_cases hfeed : c = lineFeed
        · subst hfeed
          exact ⟨[], rfl⟩
        rw [List.takeWhile_cons_of_pos (by simpa using hfeed), List.splitOn_cons_eq_if_modifyHead,
          ih]
        by_cases hspace : c = ascii ' '
        · subst hspace
          exact ⟨_, rfl⟩
        · have hword : wordOf (c :: received) = c :: wordOf received :=
            List.takeWhile_cons_of_pos (by simp [EndsWord, hspace, hfeed])
          rw [if_neg (by simpa using hspace), hword]
          exact ⟨tokens, rfl⟩
  obtain ⟨tokens, hhead⟩ := hhead
  rw [tokensOf, hhead, List.tail_cons]

/-- A line that has tokens was received up to its line feed. -/
theorem line_feed_received (hends : Ends received) (hlength : (wordOf received).length ≤ 8)
    (htokens : tokensOf received ≠ []) : lineFeed ∈ received := by
  have hrest := hends hlength
  cases hdrop : received.drop (wordOf received).length with
  | nil =>
      rw [hdrop] at hrest
      exact hrest.elim
  | cons c rest =>
      rw [hdrop] at hrest
      have hfeed : c ≠ lineFeed := fun hc => htokens (tokens_of_word (hc ▸ hdrop))
      have hmem : lineFeed ∈ c :: rest := List.mem_cons_of_mem c (hrest.resolve_left hfeed).1
      exact List.mem_of_mem_drop (hdrop ▸ hmem)

theorem command_name_length (received : List Byte) : (commandName received).length ≤ 8 := by
  have hprefix := (List.takeWhile_prefix (fun c : Byte => decide (c ≠ 0))
    (l := (wordOf received).take 8)).length_le
  exact hprefix.trans (List.length_take_le 8 _)

theorem argument_count_le (word : List Byte) : argumentCount word ≤ 4 := by
  unfold argumentCount
  split <;> [decide; (split <;> [decide; (split <;> [decide; (split <;> decide)])])]

/-- The first value is that of the first token, or zero when no token was read. -/
theorem first_value (stale : List Int) :
    (lineValues received ++ stale).getD 0 0 =
      match (tokensOf received).head? with
      | some token => if (wordOf received).length ≤ 8 then reading token else 0
      | none => 0 := by
  unfold lineValues
  cases htokens : tokensOf received with
  | nil => simp
  | cons token tokens =>
      by_cases hlength : (wordOf received).length ≤ 8
      · rw [if_pos ⟨hlength, List.cons_ne_nil _ _⟩]
        exact (if_pos hlength).symm
      · rw [if_neg fun h => hlength h.1]
        exact (if_neg hlength).symm

/-- A mode is not selected only by a token that selects none. -/
theorem no_mode_iff (received : List Byte) (stale : List Int) :
    ((lineValues received ++ stale).getD 0 0 ≠ 0 ∧ (lineValues received ++ stale).getD 0 0 ≠ 1) ↔
      (wordOf received).length ≤ 8 ∧ ∃ token ∈ (tokensOf received).head?, ¬ SelectsMode token := by
  rw [first_value]
  cases htokens : (tokensOf received).head? with
  | none => simp
  | some token =>
      by_cases hlength : (wordOf received).length ≤ 8
      · simp [hlength, selects_mode_iff]
      · simp [hlength]

/-- The values of a line are those its tokens denote exactly when the tokens denote some. -/
theorem spells_iff (hends : Ends received) {stale : List Int}
    (hroom : 4 ≤ (lineValues received ++ stale).length)
    (hcount : argumentCount (commandName received) ≠ 0) :
    Spells received (commandName received)
        ((lineValues received ++ stale).take (argumentCount (commandName received))) ↔
      wordOf received = commandName received ∧
        argumentCount (commandName received) ≤ (tokensOf received).length ∧
        ∀ token ∈ (tokensOf received).take (argumentCount (commandName received)),
          (denotedInt token).isSome := by
  have hfour := argument_count_le (commandName received)
  generalize hn : argumentCount (commandName received) = n at *
  have htake : ((lineValues received ++ stale).take n).length = n := by
    rw [List.length_take]
    omega
  unfold Spells
  rw [line_split, htake, List.cons.injEq, and_iff_left rfl]
  constructor
  · intro h
    obtain ⟨-, hword, hdenoted⟩ := h
    have hlength := congrArg List.length hdenoted
    rw [List.length_map, List.length_map, htake, List.length_take] at hlength
    refine ⟨hword, by omega, ?_⟩
    intro token htoken
    have hmem := List.mem_map_of_mem (f := denotedInt) htoken
    rw [hdenoted, List.mem_map] at hmem
    obtain ⟨value, -, hvalue⟩ := hmem
    rw [← hvalue, Option.isSome_some]
  · intro h
    obtain ⟨hword, hle, hsome⟩ := h
    have hlength : (wordOf received).length ≤ 8 := hword ▸ command_name_length received
    have htokens : tokensOf received ≠ [] := by
      intro hnil
      rw [hnil, List.length_nil] at hle
      omega
    refine ⟨line_feed_received hends hlength htokens, hword, ?_⟩
    rw [lineValues, if_pos ⟨hlength, htokens⟩,
      List.take_append_of_le_length (by simpa using hle), ← List.map_take, List.map_map]
    refine List.map_congr_left fun token htoken => ?_
    obtain ⟨value, hvalue⟩ := Option.isSome_iff_exists.mp (hsome token htoken)
    rw [hvalue, Function.comp_apply, reading_denoted hvalue]

/-- Among the lines that stay within the arrays, the handler is exact on these: whatever action
it then takes is the one that the line spells. -/
theorem well_formed_iff_exact (hreceived : received.length ≤ 100) (hsafe : Safe received stack) :
    (∀ action, (commandHandler received stack).value = some action →
      WellFormed received action) ↔ Exact received := by
  have hbounded := (safe_iff_well_bounded received hreceived stack).mp hsafe
  unfold WellBounded at hbounded
  have hends : Ends received := fun hlength => by rwa [if_pos hlength] at hbounded
  have hnul : 8 < (wordOf received).length →
      0 ∈ (wordOf received).take 8 ∨ stack.command[8] = 0 :=
    fun hlength => by rwa [if_neg (by omega)] at hbounded
  obtain ⟨final, hread, hvalue⟩ := command_handler_read hreceived hends stack
  have hname := read_name hread hnul
  have hlength : 4 ≤ final.values.toList.length := by simp
  -- the only action is the one requested, and what it takes is known
  have haction : (∀ action, (commandHandler received stack).value = some action →
      WellFormed received action) ↔
      WellFormed received (requested (commandName received) final.values.toList) := by
    rw [hvalue, hname]
    exact ⟨fun h => h _ rfl, fun h action heq => Option.some.inj heq ▸ h⟩
  rw [haction, WellFormed, requested_taken _ hlength, hread.values]
  unfold Exact
  by_cases hcount : argumentCount (commandName received) = 0
  · rw [if_pos (Or.inl hcount)]
    exact iff_of_true trivial (Or.inl hcount)
  · have hmode := no_mode_iff received
      (stack.values.toList.drop (lineValues received).length)
    by_cases hnone : commandName received = bytes "btmode" ∧ (wordOf received).length ≤ 8 ∧
        ∃ token ∈ (tokensOf received).head?, ¬ SelectsMode token
    · rw [if_pos (Or.inr ⟨hnone.1, hmode.mpr hnone.2⟩)]
      exact iff_of_true trivial (Or.inr (Or.inl hnone))
    · rw [if_neg fun h => h.elim hcount fun h => hnone ⟨h.1, hmode.mp h.2⟩, or_iff_right hcount,
        or_iff_right hnone]
      exact spells_iff hends (hread.values ▸ hlength) hcount

end Lines

/-- A line with a letter for a digit stays within the arrays and orders 710 steps, and a home
command without a number homes rod 0. -/
theorem misread_lines_act :
    (Safe (bytes "motorcmd 1 4O0 10 0" ++ [lineFeed]) zeroStack ∧
      (commandHandler (bytes "motorcmd 1 4O0 10 0" ++ [lineFeed]) zeroStack).value =
        some (.call (.userCommandMotor 1 710 10 0)) ∧
      ¬ WellFormed (bytes "motorcmd 1 4O0 10 0" ++ [lineFeed])
        (.call (.userCommandMotor 1 710 10 0))) ∧
      Safe (bytes "home" ++ [lineFeed]) zeroStack ∧
      (commandHandler (bytes "home" ++ [lineFeed]) zeroStack).value = some (.call (.home 0)) ∧
      ¬ WellFormed (bytes "home" ++ [lineFeed]) (.call (.home 0)) := by
  decide

/-- The handler is exact on a line with leading zeros and the least `int`. -/
theorem least_int_exact :
    Exact (bytes "rotate 007 -2147483648 -0 x" ++ [lineFeed]) ∧
      ∀ action,
        (commandHandler (bytes "rotate 007 -2147483648 -0 x" ++ [lineFeed]) zeroStack).value =
          some action →
        WellFormed (bytes "rotate 007 -2147483648 -0 x" ++ [lineFeed]) action := by
  have hexact : Exact (bytes "rotate 007 -2147483648 -0 x" ++ [lineFeed]) := by decide
  exact ⟨hexact, (well_formed_iff_exact (by decide) (by decide)).mpr hexact⟩

end FoosballTable.Command
