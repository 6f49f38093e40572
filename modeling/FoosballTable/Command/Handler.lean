import FoosballTable.Library.Ints
import FoosballTable.Library.Traced
import FoosballTable.Logic.Model
import FoosballTable.Tracker.Model

/-!
# The command handler

`command_handler` of `RTInit.c`. Its loop takes one byte of the message at a time: first the bytes
of the command word, up to a space or a line feed, and then those of the values, up to a line
feed. The handler keeps everything in arrays on the stack, which hold arbitrary bytes where
nothing was written to them, and nothing in the loop tests whether an index has left its array.
The model therefore records every access; an access outside an array ends it.
-/

namespace FoosballTable.Command

open Library

/-- `char`, which is signed. -/
abbrev Byte := BitVec 8

/-- The byte of an ASCII character. -/
def ascii (c : Char) : Byte :=
  BitVec.ofNat 8 c.toNat

/-- The line feed. -/
def lineFeed : Byte := 10

theorem space_ne_line_feed : ascii ' ' ≠ lineFeed := by
  decide

/-- An access of the parsing loop to one of its arrays, with the index, and for the store of a
value with the exact result that is converted to `int`. -/
inductive Access where
  | readMsg (index : Nat)
  | writeCommand (index : Nat)
  | readValues (index : Nat)
  | writeValues (index : Nat) (result : Int)
  deriving DecidableEq, Repr

/-- The variables of the parsing loop. -/
structure Frame where
  command : Vector Byte 9
  values : Vector Int 32
  cmdFound : Bool
  valIndex : Nat
  index : Nat
  minus : Bool
  loop : Bool
  deriving DecidableEq, Repr

/-- What the arrays on the stack hold when the handler is called. -/
structure Stack where
  msg : Vector Byte 100
  command : Vector Byte 9
  values : Vector Int 32

/-- `rtf_get`: the bytes in the pipe, at most 100, are copied to the start of `msg`. -/
def rtfGet (received : List Byte) (msg : Vector Byte 100) : List Byte :=
  received.take 100 ++ msg.toList.drop received.length

namespace Frame

/-- The frame at the entry of the loop. -/
def start (stack : Stack) : Frame where
  command := stack.command
  values := stack.values.set 0 0
  cmdFound := false
  valIndex := 0
  index := 0
  minus := false
  loop := true

/-- `command[index] = c`. -/
def writeCommand (c : Byte) (frame : Frame) : Traced Access Frame :=
  if h : frame.index < 9 then
    .access (.writeCommand frame.index)
      { frame with command := frame.command.set frame.index c }
  else .fault (.writeCommand frame.index)

/-- `values[valIndex]`. -/
def readValue (frame : Frame) : Traced Access Int :=
  if h : frame.valIndex < 32 then
    .access (.readValues frame.valIndex) frame.values[frame.valIndex]
  else .fault (.readValues frame.valIndex)

/-- `values[valIndex] = result`. -/
def writeValue (result : Int) (frame : Frame) : Traced Access Frame :=
  if h : frame.valIndex < 32 then
    .access (.writeValues frame.valIndex result)
      { frame with values := frame.values.set frame.valIndex (int32 result) }
  else .fault (.writeValues frame.valIndex result)

/-- `values[valIndex] = -values[valIndex]` if the minus flag is set. -/
def negateIfMinus (frame : Frame) : Traced Access Frame :=
  if frame.minus = true then do
    let value ← frame.readValue
    frame.writeValue (-value)
  else pure frame

end Frame

/-- The branch of the loop for the command word. -/
def wordBranch (c : Byte) (frame : Frame) : Traced Access Frame :=
  if c = ascii ' ' ∧ frame.index < 9 then
    { frame with cmdFound := true }.writeCommand 0
  else if c = lineFeed ∧ frame.index < 9 then
    { frame with cmdFound := true, loop := false }.writeCommand 0
  else if frame.index < 8 then
    frame.writeCommand c
  else pure { frame with loop := false }

/-- The branch of the loop for the values. -/
def valueBranch (c : Byte) (frame : Frame) : Traced Access Frame :=
  if c = ascii ' ' then do
    let frame ← frame.negateIfMinus
    { frame with valIndex := frame.valIndex + 1, minus := false }.writeValue 0
  else if c = lineFeed then do
    let frame ← frame.negateIfMinus
    pure { frame with valIndex := frame.valIndex + 1, loop := false }
  else if c = ascii '-' then
    pure { frame with minus := true }
  else do
    let value ← frame.readValue
    let frame ← frame.writeValue (value * 10)
    let value ← frame.readValue
    frame.writeValue (value + (c.toInt - (ascii '0').toInt))

/-- `++index`. -/
def Frame.advance (frame : Frame) : Frame :=
  { frame with index := frame.index + 1 }

/-- The test of `cmdFound` in the body of the loop. -/
def branch (c : Byte) (frame : Frame) : Traced Access Frame :=
  if frame.cmdFound = false then wordBranch c frame else valueBranch c frame

/-- The parsing loop. Its first argument is the part of `msg` from `index` on: the index goes up
by one in each round, so that the loop ends or runs off the array. -/
def parse : List Byte → Frame → Traced Access Frame
  | [], frame => if frame.loop = true then .fault (.readMsg frame.index) else pure frame
  | c :: rest, frame =>
      if frame.loop = true then do
        let c ← .access (.readMsg frame.index) c
        let frame ← branch c frame
        parse rest frame.advance
      else pure frame

/-! ## The preconditions of a round -/

section Rounds

variable {allowed : Access → Prop} {frame : Frame} {post : Frame → Prop}

theorem yields_write_command (c : Byte) (h : frame.index < 9) :
    (frame.writeCommand c).Yields allowed post ↔
      allowed (.writeCommand frame.index) ∧
        post { frame with command := frame.command.set frame.index c } := by
  rw [Frame.writeCommand, dif_pos h, Traced.yields_access]

theorem yields_read_value {post : Int → Prop} (h : frame.valIndex < 32) :
    frame.readValue.Yields allowed post ↔
      allowed (.readValues frame.valIndex) ∧ post frame.values[frame.valIndex] := by
  rw [Frame.readValue, dif_pos h, Traced.yields_access]

theorem yields_write_value (result : Int) (h : frame.valIndex < 32) :
    (frame.writeValue result).Yields allowed post ↔
      allowed (.writeValues frame.valIndex result) ∧
        post { frame with values := frame.values.set frame.valIndex (int32 result) } := by
  rw [Frame.writeValue, dif_pos h, Traced.yields_access]

theorem not_yields_write_value (result : Int) (h : ¬ frame.valIndex < 32) :
    ¬ (frame.writeValue result).Yields allowed post := by
  rw [Frame.writeValue, dif_neg h]
  exact Traced.yields_fault _

/-- A round reads a byte, takes its branch and leaves the rest to the rounds after it. -/
theorem yields_round (hloop : frame.loop = true) (c : Byte) (rest : List Byte) :
    (parse (c :: rest) frame).Yields allowed post ↔
      allowed (.readMsg frame.index) ∧
        (branch c frame).Yields allowed fun frame => (parse rest frame.advance).Yields allowed post
    := by
  rw [parse, if_pos hloop, Traced.yields_bind, Traced.yields_access, Traced.yields_bind]

/-- After the loop flag is cleared no more bytes are read. -/
theorem yields_ended (hloop : frame.loop = false) (rest : List Byte) :
    (parse rest frame).Yields allowed post ↔ post frame := by
  have hnot : ¬ frame.loop = true := by
    rw [hloop]
    decide
  cases rest with
  | nil => rw [parse, if_neg hnot, Traced.yields_pure]
  | cons c rest => rw [parse, if_neg hnot, Traced.yields_pure]

end Rounds

/-! ## The call -/

/-- `strcmp` on strings that end with a NUL, or nothing when it runs off one of the arrays. -/
def strcmp : List Byte → List Byte → Option Int
  | a :: as, b :: bs =>
      if a = b then (if a = 0 then some 0 else strcmp as bs)
      else some ((a.toNat : Int) - b.toNat)
  | _, _ => none

/-- The bytes of an ASCII text. -/
def bytes (text : String) : List Byte :=
  text.toList.map ascii

/-- A string literal as an array. -/
def literal (text : String) : List Byte :=
  bytes text ++ [0]

/-- What the handler does after parsing: a call of `FoosLogic` or of `BallTracker`, or a message
to the console. -/
inductive Action where
  | call (call : Logic.HandlerCall)
  | setBallTrackingMode (mode : Tracker.BallTrackingMode)
  | invalidMode (value : Int)
  | invalidCommand
  deriving DecidableEq, Repr

/-- The command is the one of a literal. -/
def Frame.Is (frame : Frame) (text : String) : Prop :=
  strcmp (literal text) frame.command.toList = some 0

instance (frame : Frame) (text : String) : Decidable (frame.Is text) :=
  inferInstanceAs (Decidable (_ = _))

/-- The chain of tests after the loop. -/
def dispatch (frame : Frame) : Action :=
  if frame.Is "home" then .call (.home frame.values[0])
  else if frame.Is "start" then .call .startPlay
  else if frame.Is "motorcmd" then
    .call (.userCommandMotor frame.values[0] frame.values[1] frame.values[2] frame.values[3])
  else if frame.Is "btmode" then
    if frame.values[0] = 0 then .setBallTrackingMode .normal
    else if frame.values[0] = 1 then .setBallTrackingMode .longCount
    else .invalidMode frame.values[0]
  else if frame.Is "rotate" then
    .call (.userRotateRod frame.values[0] frame.values[1] 0 frame.values[2])
  else .invalidCommand

/-- `command_handler`. -/
def commandHandler (received : List Byte) (stack : Stack) : Traced Access Action := do
  let frame ← parse (rtfGet received stack.msg) (Frame.start stack)
  pure (dispatch frame)

end FoosballTable.Command
