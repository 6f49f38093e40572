import FoosballTable.Command.Bounds
import FoosballTable.Command.RoundTrip
import Mathlib.Data.List.TakeWhile

/-!
# What the command handler reads

The meaning of the parsing loop on every line, well-formed or not. The first eight bytes of the
word go to `command`, and each token after it to a cell of `values`: every byte of a token but a
minus sign counts as a digit, whatever it is, and a minus sign anywhere makes the value negative.
The cells after the tokens keep what the stack held. `line_read` states this for every line that
the loop survives.
-/

namespace FoosballTable.Command

open Library Traced

/-! ## Tokens -/

/-- What a byte counts for as a digit. -/
def digitValue (c : Byte) : Int :=
  c.toInt - (ascii '0').toInt

/-- The positional value of the bytes of a token, its minus signs left out. -/
def weight (token : List Byte) : Int :=
  (token.filter (· ≠ ascii '-')).foldl (fun value c => value * 10 + digitValue c) 0

/-- The value of a token with its sign. -/
def signedWeight (token : List Byte) : Int :=
  if ascii '-' ∈ token then -weight token else weight token

/-- The value that the loop leaves for a token. -/
def reading (token : List Byte) : Int :=
  int32 (signedWeight token)

/-- The tokens of a line after its word. -/
def tokensOf (received : List Byte) : List (List Byte) :=
  ((received.takeWhile (· ≠ lineFeed)).splitOn (ascii ' ')).tail

/-- The values that the loop stores: those of the tokens, or the zero it begins with when it
ends within the word. -/
def lineValues (received : List Byte) : List Int :=
  if (wordOf received).length ≤ 8 ∧ tokensOf received ≠ [] then (tokensOf received).map reading
  else [0]

/-- The bytes stored in `command`: those of the word and a NUL, or the first eight. -/
def commandBytes (received : List Byte) : List Byte :=
  if (wordOf received).length ≤ 8 then wordOf received ++ [0] else (wordOf received).take 8

/-- The command as a string: the first eight bytes of the word, up to a NUL. -/
def commandName (received : List Byte) : List Byte :=
  ((wordOf received).take 8).takeWhile (· ≠ 0)

theorem weight_nil : weight [] = 0 := rfl

/-- One more digit. -/
theorem weight_digit (token : List Byte) {c : Byte} (hc : c ≠ ascii '-') :
    weight (token ++ [c]) = weight token * 10 + digitValue c := by
  unfold weight
  rw [List.filter_append, List.filter_cons_of_pos (by simpa using hc), List.foldl_append]
  rfl

/-- A minus sign does not count. -/
theorem weight_minus (token : List Byte) : weight (token ++ [ascii '-']) = weight token := by
  unfold weight
  rw [List.filter_append, List.filter_cons_of_neg (by simp), List.filter_nil, List.append_nil]

/-- The two stores for a digit leave what the exact value leaves. -/
theorem int32_digit (value digit : Int) :
    int32 (int32 (int32 value * 10) + digit) = int32 (value * 10 + digit) := by
  unfold int32
  rw [Int.bmod_mul_bmod, Int.bmod_add_bmod]

/-- The negation of a stored value is that of the exact one. -/
theorem int32_neg (value : Int) : int32 (-int32 value) = int32 (-value) := by
  unfold int32
  rw [Int.bmod_neg_bmod]

/-! ## Rounds -/

/-- The computation does not fault, and ends with a frame that meets `post`. -/
def Survives (post : Frame → Prop) : Traced Access Frame → Prop :=
  Yields (fun _ => True) post

/-- A round whose branch survives leaves the rest of the message to the rounds after it. -/
theorem Survives.round {frame : Frame} {post : Frame → Prop} {c : Byte}
    (h : Survives post (branch c frame)) (hloop : frame.loop = true) (rest : List Byte) :
    ∃ next, post next ∧ (parse (c :: rest) frame).value = (parse rest next.advance).value := by
  obtain ⟨-, next, hnext, hpost⟩ := h
  refine ⟨next, hpost, ?_⟩
  rw [parse, if_pos hloop, value_bind, value_access, Option.bind_some, value_bind, hnext,
    Option.bind_some]

/-- The loop does not survive a branch that faults. -/
theorem parse_lost {frame : Frame} (hloop : frame.loop = true) {c : Byte}
    (h : (branch c frame).value = none) (rest : List Byte) :
    (parse (c :: rest) frame).value = none := by
  rw [parse, if_pos hloop, value_bind, value_access, Option.bind_some, value_bind, h,
    Option.bind_none]

/-- Nor does it survive the end of the message. -/
theorem parse_nil_lost {frame : Frame} (hloop : frame.loop = true) :
    (parse [] frame).value = none := by
  rw [parse, if_pos hloop, value_fault]

/-- A loop that is ended leaves its frame. -/
theorem parse_ended {frame : Frame} (hloop : frame.loop = false) (rest : List Byte) :
    (parse rest frame).value = some frame := by
  have hnot : ¬ frame.loop = true := by
    rw [hloop]
    decide
  cases rest with
  | nil => rw [parse, if_neg hnot, value_pure]
  | cons c rest => rw [parse, if_neg hnot, value_pure]

/-! ## The values -/

/-- The loop inside the values: the tokens `done` are complete, the bytes `token` of the current
one have been read, and the cells after it still hold `stale`. -/
structure Reading (frame : Frame) (command : Vector Byte 9) (done : List (List Byte))
    (token : List Byte) (stale : List Int) : Prop where
  found : frame.cmdFound = true
  loop : frame.loop = true
  command : frame.command = command
  index : frame.valIndex = done.length
  values : frame.values.toList = done.map reading ++ int32 (weight token) :: stale
  minus : frame.minus = decide (ascii '-' ∈ token)
  separated : ascii ' ' ∉ token

/-- The frame that the loop ends with, when it ends within the values. -/
structure Complete (frame : Frame) (command : Vector Byte 9) (values : List Int) : Prop where
  loop : frame.loop = false
  command : frame.command = command
  values : frame.values.toList = values

section Values

variable {frame : Frame} {command : Vector Byte 9} {done : List (List Byte)} {token : List Byte}
  {stale : List Int} {post : Frame → Prop}

/-- The cells of the values before, at and after the current one. -/
theorem Reading.length (h : Reading frame command done token stale) :
    done.length + 1 + stale.length = 32 := by
  have hlength := congrArg List.length h.values
  simp only [Vector.length_toList, List.length_append, List.length_map, List.length_cons] at hlength
  omega

theorem Reading.room (h : Reading frame command done token stale) : frame.valIndex < 32 := by
  have hlength := h.length
  have hindex := h.index
  omega

/-- The current cell holds the value read so far. -/
theorem Reading.current (h : Reading frame command done token stale)
    (hroom : frame.valIndex < 32) : frame.values[frame.valIndex] = int32 (weight token) := by
  have hcell : frame.values.toList[frame.valIndex]? = some (int32 (weight token)) := by
    rw [h.values, h.index]
    simp
  simpa [hroom] using hcell

/-- A store to the current cell. -/
theorem Reading.stored (h : Reading frame command done token stale) (result : Int)
    (hroom : frame.valIndex < 32) :
    (frame.values.set frame.valIndex (int32 result)).toList =
      done.map reading ++ int32 result :: stale := by
  rw [Vector.toList_set, h.values, h.index]
  simp

/-- A round inside the values takes the branch for the values. -/
theorem Reading.branch (h : Reading frame command done token stale) (c : Byte) :
    Command.branch c frame = valueBranch c frame :=
  if_neg (by rw [h.found]; decide)

/-- A byte that is not a separator extends the current token. -/
theorem Reading.byte (h : Reading frame command done token stale) {c : Byte}
    (hspace : c ≠ ascii ' ') (hfeed : c ≠ lineFeed) :
    Survives (fun next => Reading next.advance command done (token ++ [c]) stale)
      (Command.branch c frame) := by
  have hroom := h.room
  have hseparated : ascii ' ' ∉ token ++ [c] := by
    rw [List.mem_append, List.mem_singleton]
    exact fun hmem => hmem.elim h.separated fun heq => hspace heq.symm
  rw [h.branch, valueBranch, if_neg hspace, if_neg hfeed]
  by_cases hminus : c = ascii '-'
  · rw [if_pos hminus, Survives, yields_pure]
    refine ⟨h.found, h.loop, h.command, h.index, ?_, ?_, hseparated⟩
    · rw [hminus, weight_minus]
      exact h.values
    · show true = _
      simp [hminus]
  · rw [if_neg hminus, Survives]
    -- the tenfold value is stored, and then the digit is added to what the cell holds
    simp only [yields_bind, yields_read_value, yields_write_value, hroom, true_and,
      Vector.getElem_set_self, Vector.set_set, h.current hroom, int32_digit]
    refine ⟨h.found, h.loop, h.command, h.index, ?_, ?_, hseparated⟩
    · rw [weight_digit token hminus]
      exact h.stored _ hroom
    · show frame.minus = _
      rw [h.minus]
      simp [Ne.symm hminus]

/-- The sign is applied when a token is complete. -/
theorem Reading.negate (h : Reading frame command done token stale)
    (hpost : ∀ values : Vector Int 32,
      values.toList = done.map reading ++ reading token :: stale →
      post { frame with values := values }) :
    Survives post frame.negateIfMinus := by
  have hroom := h.room
  unfold Frame.negateIfMinus Survives
  by_cases hminus : ascii '-' ∈ token
  · rw [if_pos (by rw [h.minus]; exact decide_eq_true hminus)]
    simp only [yields_bind, yields_read_value, yields_write_value, hroom, true_and,
      h.current hroom]
    refine hpost _ ?_
    rw [reading, signedWeight, if_pos hminus]
    exact (h.stored (-int32 (weight token)) hroom).trans (by rw [int32_neg])
  · rw [if_neg (by rw [h.minus]; simpa using hminus), yields_pure]
    refine hpost frame.values ?_
    rw [reading, signedWeight, if_neg hminus]
    exact h.values

/-- A space completes a token and begins the next one in the next cell. -/
theorem Reading.space {old : Int} (h : Reading frame command done token (old :: stale)) :
    Survives (fun next => Reading next.advance command (done ++ [token]) [] stale)
      (Command.branch (ascii ' ') frame) := by
  rw [h.branch, valueBranch, if_pos rfl, Survives, yields_bind]
  refine h.negate ?_
  intro values hvalues
  have hroom : frame.valIndex + 1 < 32 := by
    have hlength := h.length
    rw [List.length_cons] at hlength
    have hindex := h.index
    omega
  refine (yields_write_value 0 (by exact hroom)).mpr ⟨trivial, ?_⟩
  refine ⟨h.found, h.loop, h.command, ?_, ?_, rfl, List.not_mem_nil⟩
  · show frame.valIndex + 1 = (done ++ [token]).length
    rw [h.index, List.length_append, List.length_singleton]
  · show (values.set (frame.valIndex + 1) (int32 0)).toList = _
    rw [Vector.toList_set, hvalues, h.index, weight_nil]
    simp

/-- A space after the token of the last cell faults. -/
theorem Reading.space_lost (h : Reading frame command done token []) :
    (Command.branch (ascii ' ') frame).value = none := by
  have hnegated : Survives (fun next => ¬ next.valIndex + 1 < 32) frame.negateIfMinus := by
    refine h.negate ?_
    intro values hvalues
    have hlength := h.length
    have hindex := h.index
    show ¬ frame.valIndex + 1 < 32
    rw [List.length_nil] at hlength
    omega
  obtain ⟨-, next, hnext, hfull⟩ := hnegated
  rw [h.branch, valueBranch, if_pos rfl, value_bind, hnext, Option.bind_some, Frame.writeValue,
    dif_neg hfull, value_fault]

/-- A line feed completes the last token and ends the loop. -/
theorem Reading.line_feed (h : Reading frame command done token stale) :
    Survives (fun next => Complete next.advance command ((done ++ [token]).map reading ++ stale))
      (Command.branch lineFeed frame) := by
  rw [h.branch, valueBranch, if_neg space_ne_line_feed.symm, if_pos rfl, Survives, yields_bind]
  refine h.negate ?_
  intro values hvalues
  rw [yields_pure]
  refine ⟨rfl, h.command, ?_⟩
  rw [List.map_append, List.append_assoc]
  exact hvalues

/-- The rest of the line is read as the tokens that its spaces separate. -/
theorem Reading.line (line : List Byte) (hline : lineFeed ∉ line) {frame : Frame}
    {done : List (List Byte)} {token : List Byte} {stale : List Int}
    (h : Reading frame command done token stale) (hcount : line.count (ascii ' ') ≤ stale.length)
    (rest : List Byte) :
    ∃ final, (parse (line ++ lineFeed :: rest) frame).value = some final ∧
      Complete final command ((done ++ (token ++ line).splitOn (ascii ' ')).map reading ++
        stale.drop (line.count (ascii ' '))) := by
  induction line generalizing frame done token stale with
  | nil =>
      obtain ⟨final, hfinal, hvalue⟩ := h.line_feed.round h.loop rest
      refine ⟨final.advance, hvalue.trans (parse_ended hfinal.loop rest), ?_⟩
      rw [List.append_nil, List.splitOn_eq_singleton h.separated]
      exact hfinal
  | cons c line ih =>
      have hfeed : c ≠ lineFeed := fun hc => hline (hc ▸ List.mem_cons_self)
      have hlater : lineFeed ∉ line := fun hmem => hline (List.mem_cons_of_mem c hmem)
      rw [List.cons_append]
      by_cases hspace : c = ascii ' '
      · subst hspace
        rw [List.count_cons_self] at hcount
        cases stale with
        | nil => cases hcount
        | cons old stale =>
            obtain ⟨next, hnext, hvalue⟩ := h.space.round h.loop (line ++ lineFeed :: rest)
            have hlast := ih hlater hnext (Nat.le_of_succ_le_succ hcount)
            rw [List.append_assoc, List.singleton_append, List.nil_append] at hlast
            rw [hvalue, List.splitOn_append_cons_self_of_not_mem h.separated, List.count_cons_self,
              List.drop_succ_cons]
            exact hlast
      · rw [List.count_cons_of_ne hspace] at hcount
        obtain ⟨next, hnext, hvalue⟩ :=
          (h.byte hspace hfeed).round h.loop (line ++ lineFeed :: rest)
        have hlast := ih hlater hnext hcount
        rw [List.append_assoc token, List.singleton_append] at hlast
        rw [hvalue, List.count_cons_of_ne hspace]
        exact hlast

/-- Without a line feed, or with too many spaces before it, the loop runs out of its arrays. -/
theorem Reading.lost (message : List Byte) {frame : Frame} {done : List (List Byte)}
    {token : List Byte} {stale : List Int} (h : Reading frame command done token stale)
    (hlost : lineFeed ∈ message →
      stale.length < (message.takeWhile (· ≠ lineFeed)).count (ascii ' ')) :
    (parse message frame).value = none := by
  induction message generalizing frame done token stale with
  | nil => exact parse_nil_lost h.loop
  | cons c message ih =>
      have hfeed : c ≠ lineFeed := by
        intro hc
        have hnone := hlost (hc ▸ List.mem_cons_self)
        rw [List.takeWhile_cons_of_neg (by simpa using hc)] at hnone
        exact absurd hnone (Nat.not_lt_zero _)
      rw [List.takeWhile_cons_of_pos (by simpa using hfeed)] at hlost
      by_cases hspace : c = ascii ' '
      · subst hspace
        cases stale with
        | nil => exact parse_lost h.loop h.space_lost message
        | cons old stale =>
            obtain ⟨next, hnext, hvalue⟩ := h.space.round h.loop message
            rw [hvalue]
            refine ih hnext fun hmem => ?_
            have hcount := hlost (List.mem_cons_of_mem _ hmem)
            rw [List.count_cons_self, List.length_cons] at hcount
            exact Nat.lt_of_succ_lt_succ hcount
      · obtain ⟨next, hnext, hvalue⟩ := (h.byte hspace hfeed).round h.loop message
        rw [hvalue]
        refine ih hnext fun hmem => ?_
        have hcount := hlost (List.mem_cons_of_mem _ hmem)
        rwa [List.count_cons_of_ne hspace] at hcount

end Values

/-! ## The word -/

/-- The loop inside the word: the bytes `word` are stored, and nothing else has been written but
the first value. -/
structure Spelling (stack : Stack) (frame : Frame) (word : List Byte) : Prop where
  found : frame.cmdFound = false
  loop : frame.loop = true
  index : frame.index = word.length
  command : frame.command.toList = word ++ stack.command.toList.drop word.length
  valIndex : frame.valIndex = 0
  values : frame.values.toList = 0 :: stack.values.toList.drop 1
  minus : frame.minus = false

/-- The frame that the loop ends with, when it ends within the word. -/
structure Spelled (stack : Stack) (frame : Frame) (word : List Byte) : Prop where
  loop : frame.loop = false
  command : frame.command.toList = word ++ stack.command.toList.drop word.length
  values : frame.values.toList = 0 :: stack.values.toList.drop 1

theorem spelling_start (stack : Stack) : Spelling stack (Frame.start stack) [] := by
  refine ⟨rfl, rfl, rfl, rfl, rfl, ?_, rfl⟩
  show (stack.values.set 0 0).toList = _
  rw [Vector.toList_set, List.set_eq_take_append_cons_drop, if_pos (by simp), List.take_zero,
    List.nil_append]

section Word

variable {stack : Stack} {frame : Frame} {word : List Byte}

/-- A round inside the word takes the branch for the word. -/
theorem Spelling.branch (h : Spelling stack frame word) (c : Byte) :
    Command.branch c frame = wordBranch c frame :=
  if_pos h.found

/-- What a store of a byte to `command` leaves. -/
theorem Spelling.stored (h : Spelling stack frame word) (c : Byte) (hroom : frame.index < 9) :
    (frame.command.set frame.index c).toList =
      (word ++ [c]) ++ stack.command.toList.drop (word ++ [c]).length := by
  have hlength : word.length < stack.command.toList.length := by
    rw [Vector.length_toList, ← h.index]
    exact hroom
  rw [Vector.toList_set, h.command, h.index, List.drop_eq_getElem_cons hlength,
    List.set_append_right _ _ (Nat.le_refl _), Nat.sub_self, List.set_cons_zero, List.length_append,
    List.length_singleton, List.append_assoc, List.singleton_append]

/-- A byte of the word is stored. -/
theorem Spelling.byte (h : Spelling stack frame word) {c : Byte} (hc : ¬ EndsWord c)
    (hroom : word.length < 8) :
    Survives (fun next => Spelling stack next.advance (word ++ [c])) (Command.branch c frame) := by
  have hindex : frame.index < 8 := h.index ▸ hroom
  have hnine : frame.index < 9 := by omega
  rw [h.branch, wordBranch, if_neg fun hspace => hc (Or.inl hspace.1),
    if_neg fun hfeed => hc (Or.inr hfeed.1), if_pos hindex, Survives, yields_write_command c hnine]
  refine ⟨trivial, h.found, h.loop, ?_, h.stored c hnine, h.valIndex, h.values, h.minus⟩
  show frame.index + 1 = (word ++ [c]).length
  rw [h.index, List.length_append, List.length_singleton]

/-- The bytes of the word are stored, as far as there is room. -/
theorem Spelling.bytes (more : List Byte) (hmore : ∀ c ∈ more, ¬ EndsWord c) {frame : Frame}
    {word : List Byte} (h : Spelling stack frame word) (hroom : word.length + more.length ≤ 8)
    (rest : List Byte) :
    ∃ next, Spelling stack next (word ++ more) ∧
      (parse (more ++ rest) frame).value = (parse rest next).value := by
  induction more generalizing frame word with
  | nil => exact ⟨frame, by rwa [List.append_nil], rfl⟩
  | cons c more ih =>
      rw [List.length_cons] at hroom
      obtain ⟨stored, hstored, hvalue⟩ :=
        (h.byte (hmore c List.mem_cons_self) (by omega)).round h.loop (more ++ rest)
      obtain ⟨next, hnext, hmoreValue⟩ :=
        ih (fun d hd => hmore d (List.mem_cons_of_mem c hd)) hstored (by simp; omega)
      refine ⟨next, ?_, hvalue.trans hmoreValue⟩
      rwa [List.append_assoc, List.singleton_append] at hnext

/-- A line feed ends the word and the loop. -/
theorem Spelling.line_feed (h : Spelling stack frame word) (hroom : word.length ≤ 8) :
    Survives (fun next => Spelled stack next.advance (word ++ [0]))
      (Command.branch lineFeed frame) := by
  have hnine : frame.index < 9 := by
    have := h.index
    omega
  rw [h.branch, wordBranch, if_neg fun hspace => space_ne_line_feed hspace.1.symm,
    if_pos ⟨rfl, hnine⟩]
  exact (yields_write_command 0 (by exact hnine)).mpr ⟨trivial, rfl, h.stored 0 hnine, h.values⟩

/-- A space ends the word and begins the first token. -/
theorem Spelling.space (h : Spelling stack frame word) (hroom : word.length ≤ 8) :
    Survives (fun next => ∃ command : Vector Byte 9,
        command.toList = (word ++ [0]) ++ stack.command.toList.drop (word ++ [0]).length ∧
        Reading next.advance command [] [] (stack.values.toList.drop 1))
      (Command.branch (ascii ' ') frame) := by
  have hnine : frame.index < 9 := by
    have := h.index
    omega
  rw [h.branch, wordBranch, if_pos ⟨rfl, hnine⟩]
  refine (yields_write_command 0 (by exact hnine)).mpr ⟨trivial, _, h.stored 0 hnine, ?_⟩
  exact ⟨rfl, h.loop, rfl, h.valIndex, h.values, h.minus, List.not_mem_nil⟩

/-- A ninth byte of the word ends the loop, and `command` is left without a NUL of its own. -/
theorem Spelling.ninth (h : Spelling stack frame word) (hfull : word.length = 8) {c : Byte}
    (hc : ¬ EndsWord c) :
    Survives (fun next => Spelled stack next.advance word) (Command.branch c frame) := by
  have hindex : ¬ frame.index < 8 := by
    rw [h.index, hfull]
    decide
  rw [h.branch, wordBranch, if_neg fun hspace => hc (Or.inl hspace.1),
    if_neg fun hfeed => hc (Or.inr hfeed.1), if_neg hindex, Survives, yields_pure]
  exact ⟨rfl, h.command, h.values⟩

end Word

/-! ## Lines -/

/-- A line begins with its word. -/
theorem word_of_append (received : List Byte) :
    wordOf received ++ received.drop (wordOf received).length = received := by
  induction received with
  | nil => rfl
  | cons c received ih =>
      by_cases hc : EndsWord c
      · rw [wordOf, List.takeWhile_cons_of_neg (by simpa using hc)]
        rfl
      · rw [wordOf, List.takeWhile_cons_of_pos (by simpa using hc), List.cons_append,
          List.length_cons, List.drop_succ_cons]
        exact congrArg (c :: ·) ih

theorem not_ends_word {received : List Byte} {c : Byte} (h : c ∈ wordOf received) :
    ¬ EndsWord c := by
  simpa using List.mem_takeWhile_imp h

/-- The byte after the word is a space or a line feed. -/
theorem ends_word_of_drop {received : List Byte} {c : Byte} {rest : List Byte}
    (h : received.drop (wordOf received).length = c :: rest) : EndsWord c := by
  induction received with
  | nil => cases h
  | cons d received ih =>
      by_cases hd : EndsWord d
      · rw [wordOf, List.takeWhile_cons_of_neg (by simpa using hd)] at h
        cases h
        exact hd
      · rw [wordOf, List.takeWhile_cons_of_pos (by simpa using hd), List.length_cons,
          List.drop_succ_cons] at h
        exact ih h

/-- The bytes up to a line feed. -/
theorem take_while_line {line : List Byte} (hline : lineFeed ∉ line) (rest : List Byte) :
    (line ++ lineFeed :: rest).takeWhile (· ≠ lineFeed) = line := by
  rw [List.takeWhile_append_of_pos, List.takeWhile_cons_of_neg (by simp), List.append_nil]
  intro c hc
  have hne : c ≠ lineFeed := fun heq => hline (heq ▸ hc)
  simpa using hne

/-- The tokens of the bytes up to a line feed. -/
theorem tokens_of_line {line : List Byte} (hline : lineFeed ∉ line) (rest : List Byte) :
    tokensOf (line ++ lineFeed :: rest) = (line.splitOn (ascii ' ')).tail := by
  rw [tokensOf, take_while_line hline]

theorem space_not_mem_word (received : List Byte) : ascii ' ' ∉ wordOf received :=
  fun hmem => not_ends_word hmem (Or.inl rfl)

theorem line_feed_not_mem_word (received : List Byte) : lineFeed ∉ wordOf received :=
  fun hmem => not_ends_word hmem (Or.inr rfl)

/-- A line that ends with its word has no tokens. -/
theorem tokens_of_word {received rest : List Byte}
    (h : received.drop (wordOf received).length = lineFeed :: rest) : tokensOf received = [] := by
  have hline := word_of_append received
  rw [h] at hline
  rw [← hline, tokens_of_line (line_feed_not_mem_word received),
    List.splitOn_eq_singleton (space_not_mem_word received), List.tail_cons]

/-- The tokens of a line are those between the spaces after its word. -/
theorem tokens_of_values {received line rest : List Byte} (hline : lineFeed ∉ line)
    (h : received.drop (wordOf received).length = ascii ' ' :: (line ++ lineFeed :: rest)) :
    tokensOf received = line.splitOn (ascii ' ') := by
  have hall := word_of_append received
  rw [h] at hall
  have hfeed : lineFeed ∉ wordOf received ++ ascii ' ' :: line := by
    simp [line_feed_not_mem_word, hline, space_ne_line_feed.symm]
  rw [← hall, ← List.cons_append, ← List.append_assoc, tokens_of_line hfeed,
    List.splitOn_append_cons_self_of_not_mem (space_not_mem_word received), List.tail_cons]

/-- There is one token more than there are spaces. -/
theorem length_split_on (line : List Byte) :
    (line.splitOn (ascii ' ')).length = line.count (ascii ' ') + 1 := by
  induction line with
  | nil => rfl
  | cons c line ih =>
      rw [List.splitOn_cons_eq_if_modifyHead]
      by_cases hspace : c = ascii ' '
      · rw [if_pos (by simpa using hspace), hspace, List.count_cons_self, List.length_cons, ih]
      · rw [if_neg (by simpa using hspace), List.count_cons_of_ne hspace, List.length_modifyHead,
          ih]

/-- The values of a line that fits: what is before the first line feed, with few spaces. -/
theorem values_bounded_split {values : List Byte} (h : ValuesBounded values) :
    ∃ line rest, values = line ++ lineFeed :: rest ∧ lineFeed ∉ line ∧
      line.count (ascii ' ') ≤ 31 := by
  obtain ⟨hmem, hcount⟩ := h
  obtain ⟨line, rest, rfl, hline⟩ := List.eq_append_cons_of_mem hmem
  rw [take_while_line hline] at hcount
  exact ⟨line, rest, rfl, hline, hcount⟩

/-- What the loop leaves in `command` and in `values` for a line. -/
structure Read (received : List Byte) (stack : Stack) (final : Frame) : Prop where
  command : final.command.toList =
    commandBytes received ++ stack.command.toList.drop (commandBytes received).length
  values : final.values.toList =
    lineValues received ++ stack.values.toList.drop (lineValues received).length

/-- A loop that ends within the word has read a line without values. -/
theorem Spelled.read {received : List Byte} {stack : Stack} {final : Frame}
    (h : Spelled stack final (commandBytes received)) (hvalues : lineValues received = [0]) :
    Read received stack final where
  command := h.command
  values := by
    rw [hvalues]
    exact h.values

/-- What a line must be for the loop to end within it. -/
def Ends (received : List Byte) : Prop :=
  (wordOf received).length ≤ 8 → RestBounded (received.drop (wordOf received).length)

instance : DecidablePred Ends :=
  fun _ => inferInstanceAs (Decidable (_ → _))

/-- A line that ends with its word is read. -/
theorem word_line_read {received rest : List Byte} (hlength : (wordOf received).length ≤ 8)
    (hdrop : received.drop (wordOf received).length = lineFeed :: rest) (tail : List Byte)
    (stack : Stack) :
    ∃ final, (parse (received ++ tail) (Frame.start stack)).value = some final ∧
      Read received stack final := by
  have hmessage : received ++ tail = wordOf received ++ lineFeed :: (rest ++ tail) := by
    rw [← List.cons_append, ← List.append_assoc, ← hdrop, word_of_append]
  have hcommand : commandBytes received = wordOf received ++ [0] := if_pos hlength
  have hvalues : lineValues received = [0] := if_neg fun h => h.2 (tokens_of_word hdrop)
  rw [hmessage]
  obtain ⟨next, hnext, hvalue⟩ := (spelling_start stack).bytes _ (fun c hc => not_ends_word hc)
    (by simpa using hlength) (lineFeed :: (rest ++ tail))
  obtain ⟨final, hfinal, hend⟩ := (hnext.line_feed hlength).round hnext.loop (rest ++ tail)
  refine ⟨final.advance, (hvalue.trans hend).trans (parse_ended hfinal.loop _),
    Spelled.read ?_ hvalues⟩
  rw [hcommand]
  exact hfinal

/-- After a word that is ended by a space, the loop goes on with the values. -/
theorem values_begin {word : List Byte} (hword : ∀ c ∈ word, ¬ EndsWord c)
    (hlength : word.length ≤ 8) (rest : List Byte) (stack : Stack) :
    ∃ (begun : Frame) (command : Vector Byte 9),
      command.toList = (word ++ [0]) ++ stack.command.toList.drop (word ++ [0]).length ∧
      Reading begun command [] [] (stack.values.toList.drop 1) ∧
      (parse (word ++ ascii ' ' :: rest) (Frame.start stack)).value = (parse rest begun).value := by
  obtain ⟨next, hnext, hvalue⟩ :=
    (spelling_start stack).bytes word hword (by simpa using hlength) (ascii ' ' :: rest)
  obtain ⟨begun, ⟨command, hbytes, hbegun⟩, hspace⟩ :=
    (hnext.space hlength).round hnext.loop rest
  exact ⟨begun.advance, command, hbytes, hbegun, hvalue.trans hspace⟩

/-- A line with values is read. -/
theorem value_line_read {received line rest : List Byte}
    (hlength : (wordOf received).length ≤ 8) (hline : lineFeed ∉ line)
    (hcount : line.count (ascii ' ') ≤ 31)
    (hdrop : received.drop (wordOf received).length = ascii ' ' :: (line ++ lineFeed :: rest))
    (tail : List Byte) (stack : Stack) :
    ∃ final, (parse (received ++ tail) (Frame.start stack)).value = some final ∧
      Read received stack final := by
  have hmessage : received ++ tail =
      wordOf received ++ ascii ' ' :: (line ++ lineFeed :: (rest ++ tail)) := by
    calc received ++ tail
        = wordOf received ++ ascii ' ' :: (line ++ lineFeed :: rest) ++ tail := by
          rw [← hdrop, word_of_append]
      _ = wordOf received ++ ascii ' ' :: (line ++ lineFeed :: (rest ++ tail)) := by simp
  have hcommand : commandBytes received = wordOf received ++ [0] := if_pos hlength
  have hvalues : lineValues received = (line.splitOn (ascii ' ')).map reading := by
    rw [lineValues, tokens_of_values hline hdrop, if_pos ⟨hlength, List.splitOn_ne_nil _ _⟩]
  rw [hmessage]
  obtain ⟨begun, command, hbytes, hbegun, hvalue⟩ := values_begin (fun c hc => not_ends_word hc)
    hlength (line ++ lineFeed :: (rest ++ tail)) stack
  obtain ⟨final, hfinal, hcomplete⟩ :=
    hbegun.line line hline (by simpa using hcount) (rest ++ tail)
  refine ⟨final, hvalue.trans hfinal, ?_, ?_⟩
  · rw [hcommand, hcomplete.command]
    exact hbytes
  · rw [hvalues, hcomplete.values, List.length_map, length_split_on, List.drop_drop,
      List.nil_append, List.nil_append, Nat.add_comm]

/-- A line whose word is too long is read as far as `command` goes. -/
theorem long_line_read {received : List Byte} (hlength : 8 < (wordOf received).length)
    (tail : List Byte) (stack : Stack) :
    ∃ final, (parse (received ++ tail) (Frame.start stack)).value = some final ∧
      Read received stack final := by
  have hword : ∀ c ∈ wordOf received, ¬ EndsWord c := fun c hc => not_ends_word hc
  obtain ⟨c, rest, hdrop⟩ : ∃ c rest, (wordOf received).drop 8 = c :: rest :=
    ⟨_, _, List.drop_eq_getElem_cons hlength⟩
  have hc : ¬ EndsWord c := hword c (List.mem_of_mem_drop (hdrop ▸ List.mem_cons_self))
  have hmessage : received ++ tail =
      (wordOf received).take 8 ++
        c :: (rest ++ received.drop (wordOf received).length ++ tail) := by
    rw [← List.cons_append, ← List.cons_append, ← hdrop, ← List.append_assoc,
      ← List.append_assoc, List.take_append_drop, word_of_append]
  have hcommand : commandBytes received = (wordOf received).take 8 := if_neg (by omega)
  have hvalues : lineValues received = [0] := if_neg fun h => by omega
  have height : ((wordOf received).take 8).length = 8 := by
    rw [List.length_take]
    omega
  rw [hmessage]
  obtain ⟨next, hnext, hvalue⟩ := (spelling_start stack).bytes ((wordOf received).take 8)
    (fun d hd => hword d (List.mem_of_mem_take hd)) (by simp)
    (c :: (rest ++ received.drop (wordOf received).length ++ tail))
  obtain ⟨final, hfinal, hend⟩ := (hnext.ninth height hc).round hnext.loop
    (rest ++ received.drop (wordOf received).length ++ tail)
  refine ⟨final.advance, (hvalue.trans hend).trans (parse_ended hfinal.loop _),
    Spelled.read ?_ hvalues⟩
  rw [hcommand]
  exact hfinal

/-- The loop ends within such a line, whatever follows it and whatever the stack held, and has
read it. -/
theorem line_read {received : List Byte} (hends : Ends received) (tail : List Byte)
    (stack : Stack) :
    ∃ final, (parse (received ++ tail) (Frame.start stack)).value = some final ∧
      Read received stack final := by
  by_cases hlength : (wordOf received).length ≤ 8
  · have hrest := hends hlength
    cases hdrop : received.drop (wordOf received).length with
    | nil =>
        rw [hdrop] at hrest
        exact hrest.elim
    | cons c rest =>
        rw [hdrop] at hrest
        by_cases hfeed : c = lineFeed
        · subst hfeed
          exact word_line_read hlength hdrop tail stack
        · have hspace : c = ascii ' ' := (ends_word_of_drop hdrop).resolve_right hfeed
          obtain ⟨line, more, hvalues, hline, hcount⟩ :=
            values_bounded_split (hrest.resolve_left hfeed)
          rw [hspace, hvalues] at hdrop
          exact value_line_read hlength hline hcount hdrop tail stack
  · exact long_line_read (by omega) tail stack

/-- A line that does not end is lost when spaces follow it: the loop runs out of its arrays. -/
theorem line_lost {received : List Byte} (hends : ¬ Ends received) {tail : List Byte}
    (htail : ∀ c ∈ tail, c = ascii ' ') (stack : Stack) :
    (parse (received ++ tail) (Frame.start stack)).value = none := by
  have hshort : (wordOf received).length ≤ 8 := by
    by_contra hlong
    exact hends fun hlength => absurd hlength hlong
  have hrest : ¬ RestBounded (received.drop (wordOf received).length) :=
    fun hrest => hends fun _ => hrest
  have hfeed : lineFeed ∉ tail := fun hmem => space_ne_line_feed (htail _ hmem).symm
  have hword : ∀ c ∈ wordOf received, ¬ EndsWord c := fun c hc => not_ends_word hc
  have hsplit := word_of_append received
  cases hdrop : received.drop (wordOf received).length with
  | nil =>
      rw [hdrop, List.append_nil] at hsplit
      rw [← hsplit]
      cases tail with
      | nil =>
          obtain ⟨next, hnext, hvalue⟩ :=
            (spelling_start stack).bytes (wordOf received) hword (by simpa using hshort) []
          exact hvalue.trans (parse_nil_lost hnext.loop)
      | cons c tail =>
          have hspace := htail c List.mem_cons_self
          subst hspace
          obtain ⟨begun, _, -, hbegun, hvalue⟩ := values_begin hword hshort tail stack
          refine hvalue.trans (hbegun.lost tail fun hmem => ?_)
          exact absurd (List.mem_cons_of_mem _ hmem) hfeed
  | cons c rest =>
      rw [hdrop] at hsplit hrest
      have hspace : c = ascii ' ' :=
        (ends_word_of_drop hdrop).resolve_right fun hc => hrest (Or.inl hc)
      subst hspace
      obtain ⟨begun, _, -, hbegun, hvalue⟩ := values_begin hword hshort (rest ++ tail) stack
      rw [← hsplit, List.append_assoc, List.cons_append]
      refine hvalue.trans (hbegun.lost (rest ++ tail) fun hmem => ?_)
      have hline : lineFeed ∈ rest := (List.mem_append.mp hmem).resolve_right hfeed
      obtain ⟨line, more, rfl, hnot⟩ := List.eq_append_cons_of_mem hline
      have hcount : ¬ line.count (ascii ' ') ≤ 31 := by
        intro hcount
        exact hrest (Or.inr ⟨hline, by rwa [take_while_line hnot]⟩)
      rw [List.append_assoc, List.cons_append, take_while_line hnot]
      simpa using hcount

/-! ## The command -/

/-- The command as a string: its bytes up to a NUL. -/
def Frame.name (frame : Frame) : List Byte :=
  frame.command.toList.takeWhile (· ≠ 0)

/-- Bytes without a NUL are a string as they are. -/
theorem string_of_not_mem {word : List Byte} (h : 0 ∉ word) :
    word.takeWhile (· ≠ 0) = word := by
  refine List.takeWhile_eq_self_iff.mpr ?_
  intro c hc
  have hne : c ≠ 0 := fun heq => h (heq ▸ hc)
  simpa using hne

/-- What follows a NUL is not part of a string. -/
theorem string_append_nul (word rest : List Byte) :
    (word ++ 0 :: rest).takeWhile (· ≠ 0) = word.takeWhile (· ≠ 0) := by
  induction word with
  | nil => rfl
  | cons c word ih =>
      rw [List.cons_append]
      by_cases hc : c = 0
      · rw [List.takeWhile_cons_of_neg (by simpa using hc),
          List.takeWhile_cons_of_neg (by simpa using hc)]
      · rw [List.takeWhile_cons_of_pos (by simpa using hc),
          List.takeWhile_cons_of_pos (by simpa using hc), ih]

/-- What follows bytes with a NUL is not part of their string. -/
theorem string_append_of_mem {word : List Byte} (h : 0 ∈ word) (rest : List Byte) :
    (word ++ rest).takeWhile (· ≠ 0) = word.takeWhile (· ≠ 0) := by
  obtain ⟨before, after, rfl⟩ := List.append_of_mem h
  rw [List.append_assoc, List.cons_append, string_append_nul, string_append_nul]

/-- `strcmp` finds no array equal to a literal that has no NUL. -/
theorem nul_of_strcmp {text cells : List Byte} (htext : 0 ∉ text)
    (h : strcmp (text ++ [0]) cells = some 0) : 0 ∈ cells := by
  induction text generalizing cells with
  | nil =>
      cases cells with
      | nil => cases h
      | cons b cells =>
          by_cases hb : (0 : Byte) = b
          · exact hb ▸ List.mem_cons_self
          · have hnat : b.toNat ≠ (0 : Byte).toNat := fun h => hb (BitVec.eq_of_toNat_eq h.symm)
            rw [List.nil_append, strcmp, if_neg hb, Option.some.injEq] at h
            omega
  | cons a text ih =>
      have ha : a ≠ 0 := fun h => htext (h ▸ List.mem_cons_self)
      cases cells with
      | nil => cases h
      | cons b cells =>
          by_cases hab : a = b
          · rw [List.cons_append, strcmp, if_pos hab, if_neg ha] at h
            exact List.mem_cons_of_mem b (ih (fun h => htext (List.mem_cons_of_mem a h)) h)
          · have hnat : a.toNat ≠ b.toNat := fun h => hab (BitVec.eq_of_toNat_eq h)
            rw [List.cons_append, strcmp, if_neg hab, Option.some.injEq] at h
            omega

/-- The command is that of a literal exactly when it is its text as a string. -/
theorem frame_is_name (frame : Frame) {text : String} (htext : 0 ∉ bytes text)
    (hlength : (bytes text).length ≤ 8) : frame.Is text ↔ frame.name = bytes text := by
  by_cases hnul : 0 ∈ frame.command.toList
  · obtain ⟨word, rest, hcommand, hword⟩ := List.eq_append_cons_of_mem hnul
    have hname : frame.name = word := by
      rw [Frame.name, hcommand, string_append_nul]
      exact string_of_not_mem hword
    unfold Frame.Is literal
    rw [hcommand, hname]
    exact (strcmp_eq_zero htext hword rest).trans eq_comm
  · have hname : frame.name = frame.command.toList := string_of_not_mem hnul
    refine iff_of_false (fun his => hnul (nul_of_strcmp htext his)) ?_
    intro heq
    rw [hname] at heq
    have hnine := congrArg List.length heq
    rw [Vector.length_toList] at hnine
    omega

/-- The handler does what its command and its values ask for. -/
theorem dispatch_name (frame : Frame) :
    dispatch frame = requested frame.name frame.values.toList := by
  have his : ∀ text, 0 ∉ bytes text → (bytes text).length ≤ 8 →
      (frame.Is text ↔ frame.name = bytes text) :=
    fun text htext hlength => frame_is_name frame htext hlength
  have hvalue : ∀ index (h : index < 32),
      frame.values.toList.getD index 0 = frame.values[index] := by
    intro index h
    rw [List.getD_eq_getElem?_getD, List.getElem?_eq_getElem (by simpa using h),
      Option.getD_some, Vector.getElem_toList]
  unfold dispatch requested
  simp only [his "home" (by decide) (by decide), his "start" (by decide) (by decide),
    his "motorcmd" (by decide) (by decide), his "btmode" (by decide) (by decide),
    his "rotate" (by decide) (by decide), hvalue 0 (by decide), hvalue 1 (by decide),
    hvalue 2 (by decide), hvalue 3 (by decide)]

/-- The command that is left for a line, when it is a string. -/
theorem read_name {received : List Byte} {stack : Stack} {final : Frame}
    (h : Read received stack final)
    (hnul : 8 < (wordOf received).length →
      0 ∈ (wordOf received).take 8 ∨ stack.command.get 8 = 0) :
    final.name = commandName received := by
  unfold Frame.name commandName
  rw [h.command]
  by_cases hlength : (wordOf received).length ≤ 8
  · rw [commandBytes, if_pos hlength, List.take_of_length_le hlength, List.append_assoc,
      List.singleton_append, string_append_nul]
  · have height : ((wordOf received).take 8).length = 8 := by
      rw [List.length_take]
      omega
    rw [commandBytes, if_neg hlength, height, drop_command]
    rcases hnul (by omega) with hmem | hstale
    · exact string_append_of_mem hmem _
    · rw [show stack.command[8] = 0 from hstale, string_append_nul]

/-- The command that is left for a word that is too long and has no NUL takes in a byte of the
stack. -/
theorem read_overlong_name {received : List Byte} {stack : Stack} {final : Frame}
    (h : Read received stack final) (hlength : 8 < (wordOf received).length)
    (hword : 0 ∉ (wordOf received).take 8) (hstale : stack.command.get 8 ≠ 0) :
    final.name.length = 9 := by
  have height : ((wordOf received).take 8).length = 8 := by
    rw [List.length_take]
    omega
  unfold Frame.name
  rw [h.command, commandBytes, if_neg (by omega), height, drop_command, string_of_not_mem,
    List.length_append, height, List.length_singleton]
  rw [List.mem_append, List.mem_singleton]
  exact fun hmem => hmem.elim hword fun heq => hstale heq.symm

/-- What the handler does for a line that ends. -/
theorem command_handler_read {received : List Byte} (hreceived : received.length ≤ 100)
    (hends : Ends received) (stack : Stack) :
    ∃ final, Read received stack final ∧
      (commandHandler received stack).value =
        some (requested final.name final.values.toList) := by
  obtain ⟨final, hfinal, hread⟩ := line_read hends (stack.msg.toList.drop received.length) stack
  refine ⟨final, hread, ?_⟩
  rw [commandHandler, value_bind, rtfGet, List.take_of_length_le hreceived, hfinal,
    Option.bind_some, value_pure, dispatch_name]

/-- If the handler ends, it has read the line that the message holds. -/
theorem message_read {received : List Byte} {stack : Stack} {action : Action}
    (h : (commandHandler received stack).value = some action) :
    ∃ final, Read (rtfGet received stack.msg) stack final ∧
      action = requested final.name final.values.toList := by
  rw [commandHandler, value_bind, Option.bind_eq_some_iff] at h
  obtain ⟨final, hfinal, haction⟩ := h
  rw [value_pure, Option.some.injEq, dispatch_name] at haction
  have hends : Ends (rtfGet received stack.msg) := by
    by_contra hends
    have hlost := line_lost hends (List.forall_mem_nil _) stack
    rw [List.append_nil, hfinal] at hlost
    cases hlost
  obtain ⟨read, hread, hline⟩ := line_read hends [] stack
  rw [List.append_nil, hfinal, Option.some.injEq] at hread
  exact ⟨final, hread ▸ hline, haction.symm⟩

end FoosballTable.Command
