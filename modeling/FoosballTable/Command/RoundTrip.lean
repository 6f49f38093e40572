import FoosballTable.Command.Handler
import FoosballTable.Library.Arrays
import FoosballTable.Library.Decimal

/-!
# Well-formed command lines arrive intact

`encodeLine` is how a command line is written: a word, and each value in decimal after a single
space. The parsing loop reads the line back, whatever was on its stack before, without a result
that exceeds `int`, and the handler then makes exactly the call that the line asks for.
-/

namespace FoosballTable.Command

open Library Traced

/-! ## Lines -/

/-- The byte of a decimal digit. -/
def digitByte (digit : Nat) : Byte :=
  BitVec.ofNat 8 (48 + digit)

/-- The canonical decimal form of a value. -/
def encodeValue (value : Int) : List Byte :=
  (if value < 0 then [ascii '-'] else []) ++ (numeral value.natAbs).map digitByte

/-- The values of a line, each after a space. -/
def encodeValues (values : List Int) : List Byte :=
  values.flatMap fun value => ascii ' ' :: encodeValue value

/-- A command line. -/
def encodeLine (word : List Byte) (values : List Int) : List Byte :=
  word ++ encodeValues values ++ [lineFeed]

/-- A byte that a command word may contain. -/
def WordByte (c : Byte) : Prop :=
  c ≠ ascii ' ' ∧ c ≠ lineFeed ∧ c ≠ 0

instance : DecidablePred WordByte :=
  fun _ => inferInstanceAs (Decidable (_ ∧ _))

/-- No store of a value exceeds `int`. -/
def Access.NoOverflow : Access → Prop
  | .writeValues _ result => IsInt result
  | _ => True

/-- The number of values that the call for a word takes. -/
def argumentCount (word : List Byte) : Nat :=
  if word = bytes "home" then 1
  else if word = bytes "motorcmd" then 4
  else if word = bytes "btmode" then 1
  else if word = bytes "rotate" then 3
  else 0

/-- What a line asks for. -/
def requested (word : List Byte) (values : List Int) : Action :=
  let value := fun index => values.getD index 0
  if word = bytes "home" then .call (.home (value 0))
  else if word = bytes "start" then .call .startPlay
  else if word = bytes "motorcmd" then
    .call (.userCommandMotor (value 0) (value 1) (value 2) (value 3))
  else if word = bytes "btmode" then
    if value 0 = 0 then .setBallTrackingMode .normal
    else if value 0 = 1 then .setBallTrackingMode .longCount
    else .invalidMode (value 0)
  else if word = bytes "rotate" then .call (.userRotateRod (value 0) (value 1) 0 (value 2))
  else .invalidCommand

/-! ## Rounds -/

/-- The frame inside the values: `done` are those already complete, `value` is the absolute value
of the current one as far as it has been read. -/
structure InValues (frame : Frame) (command : Vector Byte 9) (done : List Int) (value : Nat)
    (minus : Bool) : Prop where
  found : frame.cmdFound = true
  loop : frame.loop = true
  command : frame.command = command
  index : frame.valIndex = done.length
  values : done ++ [(value : Int)] <+: frame.values.toList
  minus : frame.minus = minus

/-- The value of a token. -/
def signed (minus : Bool) (value : Nat) : Int :=
  if minus = true then -value else value

/-- The largest magnitude that a value may have. -/
def maxInt : Nat := 2 ^ 31 - 1

theorem is_int_of_nat {value : Nat} (h : value ≤ maxInt) : IsInt value := by
  unfold maxInt at h
  unfold IsInt
  omega

theorem is_int_of_neg {value : Nat} (h : value ≤ maxInt) : IsInt (-(value : Int)) := by
  unfold maxInt at h
  unfold IsInt
  omega

section Rounds

variable {frame : Frame} {command : Vector Byte 9} {done : List Int} {value : Nat} {minus : Bool}
  {post : Frame → Prop}

/-- There is room for the current value. -/
theorem InValues.room (h : InValues frame command done value minus) : frame.valIndex < 32 := by
  have hlength := h.values.length_le
  rw [List.length_append, List.length_singleton, Vector.length_toList] at hlength
  have hindex := h.index
  omega

/-- The current value is found in its cell. -/
theorem InValues.current (h : InValues frame command done value minus)
    (hroom : frame.valIndex < 32) : frame.values[frame.valIndex] = value := by
  have hcell := h.values.getElem (show done.length < (done ++ [(value : Int)]).length by simp)
  rw [List.getElem_concat_length rfl] at hcell
  simp only [h.index]
  simpa using hcell.symm

/-- What a store to the current cell leaves. -/
theorem InValues.stored (h : InValues frame command done value minus) {result : Int}
    (hresult : IsInt result) :
    done ++ [result] <+: (frame.values.set frame.valIndex (int32 result) h.room).toList := by
  have hroom := h.room
  rw [Vector.toList_set, int32_of_is_int hresult, h.index]
  refine append_singleton_prefix_set ((List.prefix_append done _).trans h.values) ?_ result
  rw [Vector.length_toList, ← h.index]
  exact hroom

/-- Reading the current value. -/
theorem InValues.read (h : InValues frame command done value minus) {post : Int → Prop}
    (hpost : post value) : frame.readValue.Yields Access.NoOverflow post := by
  rw [yields_read_value h.room, h.current h.room]
  exact ⟨trivial, hpost⟩

/-- Storing a new absolute value. -/
theorem InValues.write (h : InValues frame command done value minus) {result : Int}
    (value' : Nat) (hresult : result = value') (hvalue : value' ≤ maxInt)
    (hpost : ∀ next, InValues next command done value' minus → post next) :
    (frame.writeValue result).Yields Access.NoOverflow post := by
  have hint : IsInt result := hresult ▸ is_int_of_nat hvalue
  rw [yields_write_value _ h.room]
  exact ⟨hint, hpost _ ⟨h.found, h.loop, h.command, h.index, hresult ▸ h.stored hint, h.minus⟩⟩

/-- `++index` changes nothing else. -/
theorem InValues.advance (h : InValues frame command done value minus) :
    InValues frame.advance command done value minus :=
  ⟨h.found, h.loop, h.command, h.index, h.values, h.minus⟩

/-- A round inside the values is the branch for the values. -/
theorem InValues.round (h : InValues frame command done value minus) (c : Byte)
    (rest : List Byte) :
    (parse (c :: rest) frame).Yields Access.NoOverflow post ↔
      (valueBranch c frame).Yields Access.NoOverflow fun frame =>
        (parse rest frame.advance).Yields Access.NoOverflow post := by
  rw [yields_round h.loop, branch, if_neg (by rw [h.found]; decide)]
  exact and_iff_right trivial

/-- The bytes of the digits are no separators, and stand for their digits. -/
theorem digit_byte_spec {digit : Nat} (h : digit < 10) :
    digitByte digit ≠ ascii ' ' ∧ digitByte digit ≠ lineFeed ∧ digitByte digit ≠ ascii '-' ∧
      (digitByte digit).toInt - (ascii '0').toInt = digit := by
  have hall : ∀ digit : Fin 10, digitByte digit ≠ ascii ' ' ∧ digitByte digit ≠ lineFeed ∧
      digitByte digit ≠ ascii '-' ∧
      (digitByte digit).toInt - (ascii '0').toInt = (digit : Nat) := by decide
  exact hall ⟨digit, h⟩

/-- A digit extends the current value. -/
theorem InValues.digit (h : InValues frame command done value minus) {digit : Nat}
    (hdigit : digit < 10) (hvalue : value * 10 + digit ≤ maxInt) {rest : List Byte}
    (hnext : ∀ next, InValues next command done (value * 10 + digit) minus →
      (parse rest next).Yields Access.NoOverflow post) :
    (parse (digitByte digit :: rest) frame).Yields Access.NoOverflow post := by
  obtain ⟨hspace, hfeed, hminus, hbyte⟩ := digit_byte_spec hdigit
  rw [h.round, valueBranch, if_neg hspace, if_neg hfeed, if_neg hminus, yields_bind]
  -- two stores: the tenfold value, and then the digit is added to it
  refine h.read ?_
  rw [yields_bind]
  refine h.write (value * 10) (by simp) (by omega) ?_
  intro tenfold htenfold
  rw [yields_bind]
  refine htenfold.read ?_
  refine htenfold.write (value * 10 + digit) (by rw [hbyte]; simp) hvalue ?_
  intro next hnext'
  exact hnext next.advance hnext'.advance

/-- The digits of a numeral extend the current value to what they read as. -/
theorem InValues.digits (digits : List Nat) (hdigits : ∀ digit ∈ digits, digit < 10)
    {frame : Frame} {value : Nat} (h : InValues frame command done value minus)
    (hvalue : readDigits value digits ≤ maxInt) {rest : List Byte}
    (hnext : ∀ next, InValues next command done (readDigits value digits) minus →
      (parse rest next).Yields Access.NoOverflow post) :
    (parse (digits.map digitByte ++ rest) frame).Yields Access.NoOverflow post := by
  induction digits generalizing frame value with
  | nil => exact hnext frame h
  | cons digit digits ih =>
      have hgrow := le_read_digits (value * 10 + digit) digits
      rw [read_digits_cons] at hvalue
      refine h.digit (hdigits digit List.mem_cons_self) (hgrow.trans hvalue) ?_
      intro next hnext'
      exact ih (fun digit hmem => hdigits digit (List.mem_cons_of_mem _ hmem)) hnext' hvalue hnext

/-- A minus sign sets the flag. -/
theorem InValues.minus_sign (h : InValues frame command done value minus) {rest : List Byte}
    (hnext : ∀ next, InValues next command done value true →
      (parse rest next).Yields Access.NoOverflow post) :
    (parse (ascii '-' :: rest) frame).Yields Access.NoOverflow post := by
  rw [h.round, valueBranch, if_neg (by decide), if_neg (by decide), if_pos rfl, yields_pure]
  exact hnext _ ⟨h.found, h.loop, h.command, h.index, h.values, rfl⟩

/-- The decimal form of a value is read as its magnitude and its sign. -/
theorem InValues.encoded (h : InValues frame command done 0 false) (v : Int)
    (hv : v.natAbs ≤ maxInt) {rest : List Byte}
    (hnext : ∀ next, InValues next command done v.natAbs (decide (v < 0)) →
      (parse rest next).Yields Access.NoOverflow post) :
    (parse (encodeValue v ++ rest) frame).Yields Access.NoOverflow post := by
  have hread : readDigits 0 (numeral v.natAbs) = v.natAbs := read_digits_numeral _
  unfold encodeValue
  rw [List.append_assoc]
  by_cases hneg : v < 0
  · rw [if_pos hneg]
    refine h.minus_sign ?_
    intro signed hsigned
    refine InValues.digits _ (fun _ => numeral_lt_ten) hsigned (hread.trans_le hv) ?_
    simpa only [hread, hneg, decide_true] using hnext
  · rw [if_neg hneg]
    refine InValues.digits _ (fun _ => numeral_lt_ten) h (hread.trans_le hv) ?_
    simpa only [hread, hneg, decide_false] using hnext

/-- The sign is applied when the value is complete. -/
theorem InValues.negate (h : InValues frame command done value minus) (hvalue : value ≤ maxInt)
    (hpost : ∀ values : Vector Int 32, done ++ [signed minus value] <+: values.toList →
      post { frame with values := values }) :
    frame.negateIfMinus.Yields Access.NoOverflow post := by
  unfold Frame.negateIfMinus
  have hminus := h.minus
  cases minus with
  | true =>
      rw [if_pos hminus, yields_bind]
      refine h.read ?_
      rw [yields_write_value _ h.room]
      exact ⟨is_int_of_neg hvalue, hpost _ (h.stored (is_int_of_neg hvalue))⟩
  | false =>
      rw [if_neg (by rw [hminus]; decide), yields_pure]
      exact hpost frame.values h.values

/-- A space completes the value and begins the next one. -/
theorem InValues.space (h : InValues frame command done value minus) (hvalue : value ≤ maxInt)
    (hroom : done.length + 1 < 32) {rest : List Byte}
    (hnext : ∀ next, InValues next command (done ++ [signed minus value]) 0 false →
      (parse rest next).Yields Access.NoOverflow post) :
    (parse (ascii ' ' :: rest) frame).Yields Access.NoOverflow post := by
  rw [h.round, valueBranch, if_pos rfl, yields_bind]
  refine h.negate hvalue ?_
  intro values hvalues
  have hnew : frame.valIndex + 1 < 32 := by
    rw [h.index]
    exact hroom
  have hzero : IsInt 0 := by decide
  refine (yields_write_value 0 (by exact hnew)).mpr ⟨hzero, hnext _ ?_⟩
  refine ⟨h.found, h.loop, h.command, ?_, ?_, rfl⟩
  · show frame.valIndex + 1 = (done ++ [signed minus value]).length
    rw [h.index, List.length_append, List.length_singleton]
  · show (done ++ [signed minus value]) ++ [0] <+:
      (values.set (frame.valIndex + 1) (int32 0)).toList
    have hset := append_singleton_prefix_set hvalues (by simpa using hroom) 0
    simpa [h.index, Vector.toList_set, int32_of_is_int hzero] using hset

/-- A line feed completes the last value and ends the loop. -/
theorem InValues.line_feed (h : InValues frame command done value minus) (hvalue : value ≤ maxInt)
    {rest : List Byte}
    (hpost : ∀ final : Frame, final.command = command →
      done ++ [signed minus value] <+: final.values.toList → post final) :
    (parse (lineFeed :: rest) frame).Yields Access.NoOverflow post := by
  rw [h.round, valueBranch, if_neg space_ne_line_feed.symm, if_pos rfl, yields_bind]
  refine h.negate hvalue ?_
  intro values hvalues
  rw [yields_pure, yields_ended rfl]
  exact hpost _ h.command hvalues

/-- The sign and the magnitude of a value make it up again. -/
theorem signed_nat_abs (v : Int) : signed (decide (v < 0)) v.natAbs = v := by
  unfold signed
  by_cases hneg : v < 0
  · rw [if_pos (decide_eq_true hneg)]
    omega
  · rw [if_neg (by simpa using hneg)]
    omega

/-- The rest of a line after the digits of a value: it is completed, and so are all later ones. -/
theorem InValues.rest (values : List Int) (hvalues : ∀ v ∈ values, v.natAbs ≤ maxInt)
    {frame : Frame} {done : List Int} {value : Nat} {minus : Bool}
    (h : InValues frame command done value minus) (hvalue : value ≤ maxInt)
    (hroom : done.length + 1 + values.length ≤ 32) {tail : List Byte}
    (hpost : ∀ final : Frame, final.command = command →
      done ++ signed minus value :: values <+: final.values.toList → post final) :
    (parse (encodeValues values ++ lineFeed :: tail) frame).Yields Access.NoOverflow post := by
  -- each space moves the value just read to `done`, and the line feed the last one
  induction values generalizing frame done value minus with
  | nil => exact h.line_feed hvalue hpost
  | cons v values ih =>
      have hv := hvalues v List.mem_cons_self
      have hlater : ∀ w ∈ values, w.natAbs ≤ maxInt :=
        fun w hw => hvalues w (List.mem_cons_of_mem v hw)
      rw [List.length_cons] at hroom
      unfold encodeValues
      rw [List.flatMap_cons, List.cons_append, List.cons_append, List.append_assoc]
      refine h.space hvalue (by omega) ?_
      intro begun hbegun
      refine hbegun.encoded v hv ?_
      intro read hread
      refine ih hlater hread hv ?_ ?_
      · rw [List.length_append, List.length_singleton]
        omega
      · intro final hcommand hfinal
        rw [signed_nat_abs, List.append_assoc, List.singleton_append] at hfinal
        exact hpost final hcommand hfinal

/-- The frame inside the word: the bytes `word` of it are stored. -/
structure InWord (frame : Frame) (word : List Byte) : Prop where
  found : frame.cmdFound = false
  loop : frame.loop = true
  index : frame.index = word.length
  command : word <+: frame.command.toList
  valIndex : frame.valIndex = 0
  values : [0] <+: frame.values.toList
  minus : frame.minus = false

theorem in_word_start (stack : Stack) : InWord (Frame.start stack) [] := by
  refine ⟨rfl, rfl, rfl, List.nil_prefix, rfl, ?_, rfl⟩
  have hset := append_singleton_prefix_set (List.nil_prefix (l := stack.values.toList)) (by simp)
    (0 : Int)
  simpa [Frame.start, Vector.toList_set] using hset

/-- A round inside the word is the branch for the word. -/
theorem InWord.round {word : List Byte} (h : InWord frame word) (c : Byte) (rest : List Byte) :
    (parse (c :: rest) frame).Yields Access.NoOverflow post ↔
      (wordBranch c frame).Yields Access.NoOverflow fun frame =>
        (parse rest frame.advance).Yields Access.NoOverflow post := by
  rw [yields_round h.loop, branch, if_pos h.found]
  exact and_iff_right trivial

/-- What a store of a byte to `command` leaves. -/
theorem InWord.stored {word : List Byte} (h : InWord frame word) (c : Byte)
    (hroom : frame.index < 9) :
    word ++ [c] <+: (frame.command.set frame.index c).toList := by
  rw [Vector.toList_set, h.index]
  refine append_singleton_prefix_set h.command ?_ c
  rw [Vector.length_toList, ← h.index]
  exact hroom

/-- A byte of the word is stored. -/
theorem InWord.byte {word : List Byte} (h : InWord frame word) {c : Byte} (hc : WordByte c)
    (hroom : word.length < 8) {rest : List Byte}
    (hnext : ∀ next, InWord next (word ++ [c]) →
      (parse rest next).Yields Access.NoOverflow post) :
    (parse (c :: rest) frame).Yields Access.NoOverflow post := by
  have hindex : frame.index < 8 := h.index ▸ hroom
  have hnine : frame.index < 9 := by omega
  rw [h.round, wordBranch, if_neg fun hspace => hc.1 hspace.1, if_neg fun hfeed => hc.2.1 hfeed.1,
    if_pos hindex, yields_write_command c hnine]
  refine ⟨trivial, hnext _ ⟨h.found, h.loop, ?_, h.stored c hnine, h.valIndex, h.values, h.minus⟩⟩
  show frame.index + 1 = (word ++ [c]).length
  rw [h.index, List.length_append, List.length_singleton]

/-- The bytes of the word are stored. -/
theorem InWord.bytes (more : List Byte) (hmore : ∀ c ∈ more, WordByte c) {frame : Frame}
    {word : List Byte} (h : InWord frame word) (hroom : word.length + more.length ≤ 8)
    {rest : List Byte}
    (hnext : ∀ next, InWord next (word ++ more) →
      (parse rest next).Yields Access.NoOverflow post) :
    (parse (more ++ rest) frame).Yields Access.NoOverflow post := by
  induction more generalizing frame word with
  | nil => exact hnext frame (by rwa [List.append_nil])
  | cons c more ih =>
      rw [List.length_cons] at hroom
      refine h.byte (hmore c List.mem_cons_self) (by omega) ?_
      intro next hnext'
      refine ih (fun d hd => hmore d (List.mem_cons_of_mem c hd)) hnext' ?_ ?_
      · rw [List.length_append, List.length_singleton]
        omega
      · rwa [List.append_assoc, List.singleton_append]

/-- A space ends the word and begins the first value. -/
theorem InWord.space {word : List Byte} (h : InWord frame word) (hroom : word.length ≤ 8)
    {rest : List Byte}
    (hnext : ∀ next command, word ++ [0] <+: command.toList → InValues next command [] 0 false →
      (parse rest next).Yields Access.NoOverflow post) :
    (parse (ascii ' ' :: rest) frame).Yields Access.NoOverflow post := by
  have hnine : frame.index < 9 := by
    have := h.index
    omega
  rw [h.round, wordBranch, if_pos ⟨rfl, hnine⟩]
  refine (yields_write_command 0 (by exact hnine)).mpr ⟨trivial, hnext _ _ (h.stored 0 hnine) ?_⟩
  exact ⟨rfl, h.loop, rfl, h.valIndex, h.values, h.minus⟩

/-- A line feed ends the word and the loop. -/
theorem InWord.line_feed {word : List Byte} (h : InWord frame word) (hroom : word.length ≤ 8)
    {rest : List Byte}
    (hpost : ∀ final : Frame, word ++ [0] <+: final.command.toList → post final) :
    (parse (lineFeed :: rest) frame).Yields Access.NoOverflow post := by
  have hnine : frame.index < 9 := by
    have := h.index
    omega
  rw [h.round, wordBranch, if_neg fun hspace => space_ne_line_feed hspace.1.symm,
    if_pos ⟨rfl, hnine⟩]
  refine (yields_write_command 0 (by exact hnine)).mpr ⟨trivial, (yields_ended rfl _).mpr ?_⟩
  exact hpost _ (h.stored 0 hnine)

end Rounds

/-! ## Lines arrive -/

/-- The loop reads a line back, whatever follows it in the message and whatever the stack held. -/
theorem parse_line {word : List Byte} (hlength : word.length ≤ 8) (hword : ∀ c ∈ word, WordByte c)
    {values : List Int} (hcount : values.length ≤ 32)
    (hvalues : ∀ v ∈ values, v.natAbs ≤ maxInt) (tail : List Byte) (stack : Stack) :
    (parse (encodeLine word values ++ tail) (Frame.start stack)).Yields Access.NoOverflow
      fun final => word ++ [0] <+: final.command.toList ∧ values <+: final.values.toList := by
  unfold encodeLine
  rw [List.append_assoc, List.append_assoc, List.singleton_append]
  refine (in_word_start stack).bytes word hword (by simpa using hlength) ?_
  intro frame hframe
  rw [List.nil_append] at hframe
  cases values with
  | nil => exact hframe.line_feed hlength fun final hfinal => ⟨hfinal, List.nil_prefix⟩
  | cons v values =>
      have hv := hvalues v List.mem_cons_self
      unfold encodeValues
      rw [List.flatMap_cons, List.cons_append, List.cons_append, List.append_assoc]
      refine hframe.space hlength ?_
      intro begun command hcommand hbegun
      refine hbegun.encoded v hv ?_
      intro read hread
      refine InValues.rest values (fun w hw => hvalues w (List.mem_cons_of_mem v hw)) hread hv ?_
        fun final hfinal hall => ?_
      · rw [List.length_cons] at hcount
        simpa [Nat.add_comm] using hcount
      · rw [signed_nat_abs, List.nil_append] at hall
        exact ⟨hfinal ▸ hcommand, hall⟩

/-- A line that fits into the message is found at its start. -/
theorem rtf_get_line {line : List Byte} (hline : line.length ≤ 100) (more : List Byte)
    (msg : Vector Byte 100) : ∃ tail, rtfGet (line ++ more) msg = line ++ tail := by
  refine ⟨more.take (100 - line.length) ++ msg.toList.drop (line ++ more).length, ?_⟩
  unfold rtfGet
  rw [List.take_append, List.take_of_length_le hline, List.append_assoc]

/-- `strcmp` finds two strings equal exactly when they are the same. -/
theorem strcmp_eq_zero {text word : List Byte} (htext : 0 ∉ text) (hword : 0 ∉ word)
    (rest : List Byte) : strcmp (text ++ [0]) (word ++ 0 :: rest) = some 0 ↔ text = word := by
  induction text generalizing word with
  | nil =>
      cases word with
      | nil => simp [strcmp]
      | cons b word =>
          have hb : (0 : Byte) ≠ b := fun h => hword (h ▸ List.mem_cons_self)
          have hnat : b.toNat ≠ (0 : Byte).toNat := fun h => hb (BitVec.eq_of_toNat_eq h.symm)
          refine iff_of_false ?_ (fun h => by cases h)
          intro h
          rw [List.nil_append, List.cons_append, strcmp, if_neg hb, Option.some.injEq] at h
          omega
  | cons a text ih =>
      have ha : a ≠ 0 := fun h => htext (h ▸ List.mem_cons_self)
      have htext' : 0 ∉ text := fun h => htext (List.mem_cons_of_mem a h)
      cases word with
      | nil =>
          have hnat : a.toNat ≠ (0 : Byte).toNat := fun h => ha (BitVec.eq_of_toNat_eq h)
          refine iff_of_false ?_ (fun h => by cases h)
          intro h
          rw [List.nil_append, List.cons_append, strcmp, if_neg ha, Option.some.injEq] at h
          omega
      | cons b word =>
          have hword' : 0 ∉ word := fun h => hword (List.mem_cons_of_mem b h)
          rw [List.cons_append, List.cons_append, strcmp, if_neg ha, List.cons.injEq]
          by_cases hab : a = b
          · rw [if_pos hab, ih htext' hword']
            exact (and_iff_right hab).symm
          · have hnat : a.toNat ≠ b.toNat := fun h => hab (BitVec.eq_of_toNat_eq h)
            rw [if_neg hab, Option.some.injEq]
            simp only [hab, false_and, iff_false]
            omega

/-- The command is that of a literal exactly when it is the word of the literal. -/
theorem frame_is_iff {frame : Frame} {word : List Byte} (hword : ∀ c ∈ word, WordByte c)
    (hcommand : word ++ [0] <+: frame.command.toList) {text : String} (htext : 0 ∉ bytes text) :
    frame.Is text ↔ word = bytes text := by
  obtain ⟨rest, hrest⟩ := hcommand
  have hnul : 0 ∉ word := fun h => (hword 0 h).2.2 rfl
  unfold Frame.Is literal
  rw [← hrest, List.append_assoc, List.singleton_append, strcmp_eq_zero htext hnul, eq_comm]

/-- The values of a line are found in their cells. -/
theorem values_get {frame : Frame} {values : List Int} (h : values <+: frame.values.toList)
    {index : Nat} (hindex : index < values.length) (hroom : index < 32) :
    frame.values[index] = values.getD index 0 := by
  have hcell := h.getElem hindex
  rw [List.getD_eq_getElem?_getD, List.getElem?_eq_getElem hindex, Option.getD_some, hcell,
    Vector.getElem_toList]

/-- The handler does what the line asks for. -/
theorem dispatch_requested {frame : Frame} {word : List Byte} (hword : ∀ c ∈ word, WordByte c)
    (hcommand : word ++ [0] <+: frame.command.toList) {values : List Int}
    (hvalues : values <+: frame.values.toList) (harguments : argumentCount word ≤ values.length) :
    dispatch frame = requested word values := by
  have his : ∀ text, 0 ∉ bytes text → (frame.Is text ↔ word = bytes text) :=
    fun text htext => frame_is_iff hword hcommand htext
  unfold dispatch requested
  simp only [his "home" (by decide), his "start" (by decide), his "motorcmd" (by decide),
    his "btmode" (by decide), his "rotate" (by decide)]
  by_cases hhome : word = bytes "home"
  · have hcount : argumentCount word = 1 := by rw [hhome]; decide
    rw [if_pos hhome, if_pos hhome, values_get hvalues (by omega)]
  · rw [if_neg hhome, if_neg hhome]
    by_cases hstart : word = bytes "start"
    · rw [if_pos hstart, if_pos hstart]
    · rw [if_neg hstart, if_neg hstart]
      by_cases hmotor : word = bytes "motorcmd"
      · have hcount : argumentCount word = 4 := by rw [hmotor]; decide
        rw [if_pos hmotor, if_pos hmotor, values_get hvalues (by omega),
          values_get hvalues (by omega), values_get hvalues (by omega),
          values_get hvalues (by omega)]
      · rw [if_neg hmotor, if_neg hmotor]
        by_cases hmode : word = bytes "btmode"
        · have hcount : argumentCount word = 1 := by rw [hmode]; decide
          rw [if_pos hmode, if_pos hmode, values_get hvalues (by omega)]
        · rw [if_neg hmode, if_neg hmode]
          by_cases hrotate : word = bytes "rotate"
          · have hcount : argumentCount word = 3 := by rw [hrotate]; decide
            rw [if_pos hrotate, if_pos hrotate, values_get hvalues (by omega),
              values_get hvalues (by omega), values_get hvalues (by omega)]
          · rw [if_neg hrotate, if_neg hrotate]

/-- A well-formed line arrives: the loop ends without a result that exceeds `int`, the command is
the word and the values are those of the line, and when they cover the arguments of the word the
handler does what the line asks for. A motor command leaves its values in their variables. -/
theorem line_arrives {word : List Byte} (hlength : word.length ≤ 8)
    (hword : ∀ c ∈ word, WordByte c) {values : List Int} (hcount : values.length ≤ 32)
    (hvalues : ∀ v ∈ values, v.natAbs ≤ 2 ^ 31 - 1)
    (hline : (encodeLine word values).length ≤ 100) (more : List Byte) (stack : Stack) :
    ((parse (rtfGet (encodeLine word values ++ more) stack.msg) (Frame.start stack)).Yields
        Access.NoOverflow fun final =>
          word ++ [0] <+: final.command.toList ∧ values <+: final.values.toList) ∧
      (argumentCount word ≤ values.length →
        (commandHandler (encodeLine word values ++ more) stack).value =
          some (requested word values)) ∧
      ∀ (motor steps wait direction : Int) (state : Logic.State),
        (Logic.userCommandMotor motor steps wait direction).run state =
          { state with
            userCmdMotorId := motor
            userCmdSteps := steps
            userCmdWait := wait
            userCmdDir := direction
            mode := .userCommand } := by
  obtain ⟨tail, htail⟩ := rtf_get_line hline more stack.msg
  have hparse := parse_line hlength hword hcount hvalues tail stack
  rw [← htail] at hparse
  refine ⟨hparse, ?_, fun _ _ _ _ _ => rfl⟩
  intro harguments
  obtain ⟨-, final, hfinal, hcommand, hall⟩ := hparse
  have hdispatch := dispatch_requested hword hcommand hall harguments
  rw [← hdispatch]
  show (andThen _ _).value = _
  simp only [andThen, hfinal]
  rfl

/-- A motor command with the largest magnitudes, after which the pipe holds a second line. -/
theorem largest_motor_command_arrives :
    (commandHandler (encodeLine (bytes "motorcmd") [0, 2147483647, 1, -2147483647] ++ bytes "start")
        ⟨Vector.replicate 100 65, Vector.replicate 9 65, Vector.replicate 32 7⟩).value =
      some (.call (.userCommandMotor 0 2147483647 1 (-2147483647))) :=
  (line_arrives (by decide) (by decide) (by decide) (by decide) (by decide) (bytes "start")
    ⟨Vector.replicate 100 65, Vector.replicate 9 65, Vector.replicate 32 7⟩).2.1 (by decide)

end FoosballTable.Command
