import FoosballTable.Command.Handler

/-!
# The bounds of the command handler

No test keeps the loop inside its arrays, so whether it stays there depends on the line received.
`safe_iff_well_bounded` is the exact condition: a short word, ended by a line feed or by a space
with at most 31 more before a line feed that was received, or a word of more than eight bytes
that leaves the command with a NUL all the same.
-/

namespace FoosballTable.Command

open Library Traced

/-- An access within the arrays, and within the `n` bytes received. -/
def Access.InBounds (n : Nat) : Access → Prop
  | .readMsg index => index < n
  | .writeCommand index => index < 9
  | .readValues index => index < 32
  | .writeValues index _ => index < 32

instance (n : Nat) : DecidablePred (Access.InBounds n)
  | .readMsg index => inferInstanceAs (Decidable (index < n))
  | .writeCommand index => inferInstanceAs (Decidable (index < 9))
  | .readValues index => inferInstanceAs (Decidable (index < 32))
  | .writeValues index _ => inferInstanceAs (Decidable (index < 32))

/-- `command` is a string that ends within its nine bytes. -/
def Frame.NulTerminated (frame : Frame) : Prop :=
  0 ∈ frame.command.toList

instance : DecidablePred Frame.NulTerminated :=
  fun frame => inferInstanceAs (Decidable (0 ∈ frame.command.toList))

/-- The loop ends, all of its accesses are within bounds, and `command` is a string then. -/
def Safe (received : List Byte) (stack : Stack) : Prop :=
  Yields (Access.InBounds received.length) Frame.NulTerminated
    (parse (rtfGet received stack.msg) (Frame.start stack))

instance (received : List Byte) (stack : Stack) : Decidable (Safe received stack) :=
  inferInstanceAs (Decidable (Yields _ _ _))

/-- A byte ends the command word. -/
def EndsWord (c : Byte) : Prop :=
  c = ascii ' ' ∨ c = lineFeed

instance : DecidablePred EndsWord :=
  fun _ => inferInstanceAs (Decidable (_ ∨ _))

/-- The bytes received before the first space or line feed. -/
def wordOf (received : List Byte) : List Byte :=
  received.takeWhile fun c => ¬ EndsWord c

/-- The bytes of the values fit: a line feed was received, with at most 31 spaces before it. -/
def ValuesBounded (values : List Byte) : Prop :=
  lineFeed ∈ values ∧ (values.takeWhile (· ≠ lineFeed)).count (ascii ' ') ≤ 31

instance : DecidablePred ValuesBounded :=
  fun _ => inferInstanceAs (Decidable (_ ∧ _))

/-- What follows a word of at most eight bytes fits: a line feed, or a space and values. -/
def RestBounded : List Byte → Prop
  | [] => False
  | c :: rest => c = lineFeed ∨ ValuesBounded rest

instance : DecidablePred RestBounded
  | [] => .isFalse id
  | _ :: _ => inferInstanceAs (Decidable (_ ∨ _))

/-- The condition on the bytes received and on the last byte of `command`. -/
def WellBounded (received : List Byte) (stale : Byte) : Prop :=
  if (wordOf received).length ≤ 8 then RestBounded (received.drop (wordOf received).length)
  else 0 ∈ (wordOf received).take 8 ∨ stale = 0

instance (received : List Byte) (stale : Byte) : Decidable (WellBounded received stale) :=
  inferInstanceAs (Decidable (ite _ _ _))

/-! ## The accesses of a round -/

section Round

variable {n : Nat} {frame : Frame} {post : Frame → Prop}

/-- Where the values do not matter, neither does the negation of the last one. -/
theorem yields_negate (h : frame.valIndex < 32) {goal : Prop}
    (hpost : ∀ values, post { frame with values := values } ↔ goal) :
    Yields (Access.InBounds n) post frame.negateIfMinus ↔ goal := by
  unfold Frame.negateIfMinus
  split
  · rw [yields_bind, yields_read_value h, yields_write_value _ h]
    refine (and_iff_right h).trans ((and_iff_right h).trans ?_)
    exact hpost _
  · rw [yields_pure]
    exact hpost frame.values

/-- A round at a byte that was not received is out of bounds. -/
theorem not_yields_unreceived (hloop : frame.loop = true) (rest : List Byte) :
    ¬ Yields (Access.InBounds frame.index) post (parse rest frame) := by
  cases rest with
  | nil => simp [parse, hloop]
  | cons c rest => simp [parse, hloop, Access.InBounds]

end Round

/-! ## The values -/

/-- The bytes that are neither space nor line feed. -/
theorem values_bounded_cons {c : Byte} (hspace : c ≠ ascii ' ') (hfeed : c ≠ lineFeed)
    (rest : List Byte) (used : Nat) :
    (lineFeed ∈ c :: rest ∧
        used + ((c :: rest).takeWhile (· ≠ lineFeed)).count (ascii ' ') ≤ 31) ↔
      lineFeed ∈ rest ∧ used + (rest.takeWhile (· ≠ lineFeed)).count (ascii ' ') ≤ 31 := by
  simp [hfeed, Ne.symm hfeed, List.count_cons_of_ne hspace]

/-- A space takes one more cell. -/
theorem values_bounded_space (rest : List Byte) (used : Nat) :
    (lineFeed ∈ ascii ' ' :: rest ∧
        used + ((ascii ' ' :: rest).takeWhile (· ≠ lineFeed)).count (ascii ' ') ≤ 31) ↔
      lineFeed ∈ rest ∧
        used + 1 + (rest.takeWhile (· ≠ lineFeed)).count (ascii ' ') ≤ 31 := by
  have hfeed : ascii ' ' ≠ lineFeed := space_ne_line_feed
  simp [hfeed, hfeed.symm]
  omega

/-- A line feed ends the values. -/
theorem values_bounded_line_feed (rest : List Byte) {used : Nat} (hused : used ≤ 31) :
    lineFeed ∈ lineFeed :: rest ∧
      used + ((lineFeed :: rest).takeWhile (· ≠ lineFeed)).count (ascii ' ') ≤ 31 := by
  simpa using hused

/-- From inside the values the loop is safe exactly when the rest of the values fits. -/
theorem yields_values (received tail : List Byte) {n : Nat} {frame : Frame}
    (hfound : frame.cmdFound = true) (hloop : frame.loop = true) (hnul : frame.NulTerminated)
    (hval : frame.valIndex < 32) (hlength : frame.index + received.length = n) :
    Yields (Access.InBounds n) Frame.NulTerminated (parse (received ++ tail) frame) ↔
      lineFeed ∈ received ∧
        frame.valIndex + (received.takeWhile (· ≠ lineFeed)).count (ascii ' ') ≤ 31 := by
  induction received generalizing frame with
  | nil =>
      subst hlength
      simpa using not_yields_unreceived hloop tail
  | cons c received ih =>
      rw [List.length_cons] at hlength
      have hreceived : Access.InBounds n (.readMsg frame.index) := by
        show frame.index < n
        omega
      have hindex : frame.advance.index + received.length = n := by
        show frame.index + 1 + received.length = n
        omega
      rw [List.cons_append, yields_round hloop, and_iff_right hreceived, branch,
        if_neg (by simp [hfound]), valueBranch]
      -- a space takes one more cell, a line feed ends the loop, any other byte stays in its cell
      by_cases hspace : c = ascii ' '
      · rw [if_pos hspace, yields_bind, hspace, values_bounded_space]
        refine yields_negate hval ?_
        intro values
        by_cases hnext : frame.valIndex + 1 < 32
        · refine ((yields_write_value 0 hnext).trans (and_iff_right hnext)).trans
            (ih ?_ ?_ ?_ ?_ ?_)
          · exact hfound
          · exact hloop
          · exact hnul
          · exact hnext
          · exact hindex
        · refine iff_of_false (not_yields_write_value 0 hnext) ?_
          intro hfits
          omega
      · rw [if_neg hspace]
        by_cases hfeed : c = lineFeed
        · rw [if_pos hfeed, yields_bind, hfeed]
          refine (yields_negate hval fun values => ?_).trans
            (iff_true_intro (values_bounded_line_feed received (by omega))).symm
          rw [yields_pure, yields_ended rfl]
          exact iff_true_intro hnul
        · rw [if_neg hfeed, values_bounded_cons hspace hfeed]
          split
          · rw [yields_pure]
            exact ih hfound hloop hnul hval hindex
          · simp only [yields_bind, yields_read_value, yields_write_value, hval, Access.InBounds,
              true_and]
            exact ih hfound hloop hnul hval hindex

/-! ## The command word -/

/-- What the rest of a line must be when the word has begun in an earlier round. -/
def WordBounded (frame : Frame) (received : List Byte) : Prop :=
  if frame.index + (wordOf received).length ≤ 8 then
    RestBounded (received.drop (wordOf received).length)
  else 0 ∈ frame.command.toList.take frame.index ∨
    0 ∈ (wordOf received).take (8 - frame.index) ∨ frame.command[8] = 0

/-- A string that is ended at an index of `command` ends within it. -/
theorem nul_mem_set (command : Vector Byte 9) {index : Nat} (h : index < 9) :
    0 ∈ (command.set index 0).toList := by
  have hlength : index < command.toList.length := by
    rwa [Vector.length_toList]
  rw [Vector.toList_set]
  exact List.mem_set hlength 0

/-- The last byte of `command` is the only one that a word cannot fill. -/
theorem drop_command (command : Vector Byte 9) : command.toList.drop 8 = [command[8]] := by
  rw [List.drop_eq_getElem_cons (by simp)]
  simp

/-- The bytes of `command` are the eight that the loop may store and the last one. -/
theorem nul_mem_command (command : Vector Byte 9) :
    0 ∈ command.toList ↔ 0 ∈ command.toList.take 8 ∨ command[8] = 0 := by
  calc 0 ∈ command.toList
      ↔ 0 ∈ command.toList.take 8 ++ command.toList.drop 8 := by rw [List.take_append_drop]
    _ ↔ 0 ∈ command.toList.take 8 ∨ command[8] = 0 := by
        rw [List.mem_append, drop_command, List.mem_singleton, eq_comm]

/-- Inside the word, a byte that is stored moves the condition on by one byte. -/
theorem word_bounded_store {frame : Frame} (hindex : frame.index < 8) {c : Byte}
    (hword : ¬ EndsWord c) (received : List Byte) :
    WordBounded
        { frame with
          command := frame.command.set frame.index c, index := frame.index + 1 } received ↔
      WordBounded frame (c :: received) := by
  have hwords : wordOf (c :: received) = c :: wordOf received := by
    simp [wordOf, hword]
  have htake : (frame.command.set frame.index c).toList.take (frame.index + 1) =
      frame.command.toList.take frame.index ++ [c] := by
    have hlength : frame.index < frame.command.toList.length := by
      rw [Vector.length_toList]
      omega
    rw [Vector.toList_set, List.take_add_one, List.take_set_of_le (Nat.le_refl _),
      List.getElem?_set_self hlength, Option.toList_some]
  have hlast : (frame.command.set frame.index c)[8] = frame.command[8] :=
    Vector.getElem_set_ne _ _ (by omega)
  unfold WordBounded
  simp only [hwords, htake, hlast, List.length_cons, List.drop_succ_cons]
  rw [show 8 - frame.index = (8 - (frame.index + 1)) + 1 by omega, List.take_succ_cons,
    show frame.index + 1 + (wordOf received).length =
      frame.index + ((wordOf received).length + 1) by omega]
  simp only [List.mem_append, List.mem_cons, List.not_mem_nil, or_false, or_assoc]

section Word

variable {n : Nat} {frame : Frame} {c : Byte} {received : List Byte}

/-- A round that ends the word is safe exactly when what follows the word fits. -/
theorem yields_word_end (tail : List Byte) (hloop : frame.loop = true) (hword : frame.index ≤ 8)
    (hval : frame.valIndex = 0) (hlength : frame.index + (received.length + 1) = n)
    (hends : EndsWord c) :
    Yields (Access.InBounds n)
        (fun next => Yields (Access.InBounds n) Frame.NulTerminated
          (parse (received ++ tail) next.advance)) (wordBranch c frame) ↔
      c = lineFeed ∨ ValuesBounded received := by
  have hnine : frame.index < 9 := by omega
  unfold wordBranch
  by_cases hspace : c = ascii ' '
  · have hfeed : c ≠ lineFeed := hspace ▸ space_ne_line_feed
    rw [if_pos ⟨hspace, hnine⟩, or_iff_right hfeed]
    refine ((yields_write_command 0 (by exact hnine)).trans (and_iff_right hnine)).trans ?_
    refine (yields_values received tail ?_ ?_ ?_ ?_ ?_).trans ?_
    · rfl
    · exact hloop
    · exact nul_mem_set frame.command hnine
    · show frame.valIndex < 32
      omega
    · show frame.index + 1 + received.length = n
      omega
    · show _ ∧ frame.valIndex + _ ≤ 31 ↔ _
      rw [hval, Nat.zero_add]
      exact Iff.rfl
  · have hfeed : c = lineFeed := hends.resolve_left hspace
    rw [if_neg fun h => hspace h.1, if_pos ⟨hfeed, hnine⟩]
    refine ((yields_write_command 0 (by exact hnine)).trans (and_iff_right hnine)).trans ?_
    refine (yields_ended rfl _).trans ?_
    exact iff_of_true (nul_mem_set frame.command hnine) (Or.inl hfeed)

/-- A round at a ninth byte of the word ends the loop, and is safe exactly when `command` has a NUL
already: its last byte is never written. -/
theorem yields_word_full (rest : List Byte) (hindex : frame.index = 8) (hends : ¬ EndsWord c) :
    Yields (Access.InBounds n)
        (fun next => Yields (Access.InBounds n) Frame.NulTerminated (parse rest next.advance))
        (wordBranch c frame) ↔
      0 ∈ frame.command.toList := by
  have hroom : ¬ frame.index < 8 := by omega
  rw [wordBranch, if_neg fun h => hends (Or.inl h.1), if_neg fun h => hends (Or.inr h.1),
    if_neg hroom, yields_pure, yields_ended rfl]
  exact Iff.rfl

/-- What a word that does not begin with a byte of it must be. -/
theorem word_bounded_end (hword : frame.index ≤ 8) (hends : EndsWord c) :
    WordBounded frame (c :: received) ↔ c = lineFeed ∨ ValuesBounded received := by
  have hwords : wordOf (c :: received) = [] := by
    simp [wordOf, hends]
  rw [WordBounded, hwords, if_pos (by simpa using hword)]
  exact Iff.rfl

/-- What `command` must be when the word goes on and there is no room for more of it. -/
theorem word_bounded_full (hindex : frame.index = 8) (hends : ¬ EndsWord c) :
    WordBounded frame (c :: received) ↔ 0 ∈ frame.command.toList := by
  have hlong : ¬ frame.index + (wordOf (c :: received)).length ≤ 8 := by
    simp [wordOf, hends]
    omega
  rw [WordBounded, if_neg hlong, hindex, Nat.sub_self, List.take_zero]
  exact ((nul_mem_command frame.command).trans (by simp)).symm

end Word

/-- From inside the word the loop is safe exactly when the rest of the line fits. -/
theorem yields_word (received tail : List Byte) {n : Nat} {frame : Frame}
    (hfound : frame.cmdFound = false) (hloop : frame.loop = true) (hword : frame.index ≤ 8)
    (hval : frame.valIndex = 0) (hlength : frame.index + received.length = n) :
    Yields (Access.InBounds n) Frame.NulTerminated (parse (received ++ tail) frame) ↔
      WordBounded frame received := by
  induction received generalizing frame with
  | nil =>
      subst hlength
      simpa [WordBounded, wordOf, hword, RestBounded] using not_yields_unreceived hloop tail
  | cons c received ih =>
      rw [List.length_cons] at hlength
      have hreceived : Access.InBounds n (.readMsg frame.index) := by
        show frame.index < n
        omega
      rw [List.cons_append, yields_round hloop, and_iff_right hreceived, branch, if_pos hfound]
      -- the byte ends the word, or is stored, or there is no room for it
      by_cases hends : EndsWord c
      · rw [word_bounded_end hword hends]
        exact yields_word_end tail hloop hword hval hlength hends
      · by_cases hroom : frame.index < 8
        · have hnine : frame.index < 9 := by omega
          rw [← word_bounded_store hroom hends, wordBranch, if_neg fun h => hends (Or.inl h.1),
            if_neg fun h => hends (Or.inr h.1), if_pos hroom]
          refine ((yields_write_command c hnine).trans (and_iff_right hnine)).trans
            (ih ?_ ?_ ?_ ?_ ?_)
          · exact hfound
          · exact hloop
          · exact hroom
          · exact hval
          · show frame.index + 1 + received.length = n
            omega
        · have height : frame.index = 8 := by omega
          rw [word_bounded_full height hends]
          exact yields_word_full _ height hends

/-- The loop is safe exactly when the line received is well bounded. -/
theorem safe_iff_well_bounded (received : List Byte) (hreceived : received.length ≤ 100)
    (stack : Stack) : Safe received stack ↔ WellBounded received stack.command[8] := by
  unfold Safe rtfGet
  rw [List.take_of_length_le hreceived]
  refine (yields_word received _ rfl rfl (Nat.zero_le 8) rfl (Nat.zero_add _)).trans ?_
  simp only [WordBounded, WellBounded, Frame.start, Nat.zero_add, List.take_zero, Nat.sub_zero,
    List.not_mem_nil, false_or]

/-- A stack that holds zeros. -/
def zeroStack : Stack :=
  ⟨Vector.replicate 100 0, Vector.replicate 9 0, Vector.replicate 32 0⟩

/-- A line without line feed is read beyond its end, and a line with 33 values is stored beyond
the values. -/
theorem unbounded_lines_unsafe :
    ¬ Safe (bytes "start") zeroStack ∧
      ¬ Safe (bytes "home" ++ (List.replicate 33 (bytes " 1")).flatten ++ [lineFeed])
        zeroStack := by
  decide

/-- The line of a motor command is safe. -/
theorem motor_command_safe : Safe (bytes "motorcmd 2 400 10 1" ++ [lineFeed]) zeroStack :=
  (safe_iff_well_bounded _ (by decide) zeroStack).mpr (by decide)

end FoosballTable.Command
