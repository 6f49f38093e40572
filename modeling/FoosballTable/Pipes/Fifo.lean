import FoosballTable.Command.Handler
import FoosballTable.Library.Ring

/-!
# The FIFOs behind the pipes

`rtl_fifo.c` of RTLinux keeps the bytes of a pipe in a ring buffer. `rtf_put` and the write of a
process to the pipe copy bytes in, `rtf_get` copies them out, each in chunks of adjacent cells. The
header `rtl_fifo.h` is not part of the repository: of its macros, those that the loops compute with
are the parameter `RtlFifoH`, and the others name the fields of `RtFifo`. A copy that leaves the
buffer or a loop that does not end has no result; `calls_are_queue_calls` says that there is none,
and that the calls act on the queue of the bytes.
-/

namespace FoosballTable.Pipes

open Library Command

/-- The macros `RTF_FREE` and `RTF_END` of `rtl_fifo.h`, as functions of the size of the buffer,
the start index and the number of bytes. -/
structure RtlFifoH where
  rtfFree : Nat → Nat → Nat → Nat
  rtfEnd : Nat → Nat → Nat → Nat
  free_eq : ∀ {buf start len : Nat}, start < buf → len ≤ buf → rtfFree buf start len = buf - len
  end_eq : ∀ {buf start len : Nat}, start < buf → len ≤ buf →
    rtfEnd buf start len = Ring.wrap buf (start + len)

/-- The macros that compute just that. -/
def RtlFifoH.plain : RtlFifoH where
  rtfFree := fun buf _ len => buf - len
  rtfEnd := fun buf start len => Ring.wrap buf (start + len)
  free_eq := fun _ _ => rfl
  end_eq := fun _ _ => rfl

/-- The fields of `rt_fifo_struct` that the loops use: `RTF_BASE`, `RTF_START` and `RTF_LEN`. The
size of the buffer `RTF_BUF` is fixed when the pipe is created. -/
structure RtFifo (buf : Nat) where
  base : Vector Byte buf
  start : Nat
  len : Nat

variable {buf : Nat}

/-- `rtf_create`, which calls `rtf_resize`: an empty buffer of zeros. -/
def rtfCreate (buf : Nat) : RtFifo buf :=
  ⟨Vector.replicate buf 0, 0, 0⟩

/-- `RTF_FREE`. -/
def RtFifo.free (fifo : RtFifo buf) (header : RtlFifoH) : Nat :=
  header.rtfFree buf fifo.start fifo.len

/-- `RTF_END`. -/
def RtFifo.stop (fifo : RtFifo buf) (header : RtlFifoH) : Nat :=
  header.rtfEnd buf fifo.start fifo.len

/-- The loop of `rtf_put` and of `rtf_write` that copies bytes in while there are any and there is
room, with the bytes that are left. A chunk ends at `RTF_MAX_WCHUNK` at the latest, the end of the
buffer. The first argument bounds the number of chunks. -/
def putChunks (header : RtlFifoH) : Nat → RtFifo buf → List Byte → Option (RtFifo buf × List Byte)
  | 0, fifo, bytes =>
      if bytes = [] ∨ fifo.free header = 0 then some (fifo, bytes) else none
  | fuel + 1, fifo, bytes =>
      if bytes = [] ∨ fifo.free header = 0 then some (fifo, bytes)
      else
        let chars := min (min (buf - fifo.stop header) bytes.length) (fifo.free header)
        match blit fifo.base (fifo.stop header) (bytes.take chars) with
        | some base =>
            putChunks header fuel { fifo with base := base, len := fifo.len + chars }
              (bytes.drop chars)
        | none => none

/-- The loop of `rtf_get`, with the bytes it copies out. A chunk ends at `RTF_MAX_RCHUNK` at the
latest, the end of the buffer. -/
def getChunks : Nat → RtFifo buf → Nat → Option (RtFifo buf × List Byte)
  | 0, fifo, count => if count = 0 ∨ fifo.len = 0 then some (fifo, []) else none
  | fuel + 1, fifo, count =>
      if count = 0 ∨ fifo.len = 0 then some (fifo, [])
      else
        let chars := min (min (buf - fifo.start) count) fifo.len
        match slice fifo.base fifo.start chars with
        | some bytes =>
            (getChunks fuel
              { fifo with
                start := Ring.wrap buf (fifo.start + chars)
                len := fifo.len - chars } (count - chars)).map fun rest =>
                  (rest.1, bytes ++ rest.2)
        | none => none

/-- What a call returns: the number of bytes written, `-ENOSPC`, or the bytes read. -/
inductive Reply where
  | written (count : Nat)
  | noSpace
  | read (bytes : List Byte)
  deriving DecidableEq, Repr

/-- `rtf_put`, which copies all bytes in or none, and returns how many it has copied. -/
def rtfPut (header : RtlFifoH) (fifo : RtFifo buf) (bytes : List Byte) :
    Option (RtFifo buf × Reply) :=
  if fifo.free header < bytes.length then some (fifo, .noSpace)
  else
    (putChunks header bytes.length fifo bytes).map fun done =>
      (done.1, .written (bytes.length - done.2.length))

/-- `rtf_get`. -/
def rtfGet (fifo : RtFifo buf) (count : Nat) : Option (RtFifo buf × List Byte) :=
  getChunks count fifo count

/-! ## The queue of the bytes -/

/-- The buffer holds the bytes of a queue. -/
structure RtFifo.Holds (fifo : RtFifo buf) (items : List Byte) : Prop where
  ring : Ring.Holds fifo.base fifo.start items
  len : fifo.len = items.length

variable {fifo : RtFifo buf} {items : List Byte}

theorem holds_create (h : 0 < buf) : (rtfCreate buf).Holds [] :=
  ⟨Ring.holds_nil h, rfl⟩

theorem RtFifo.Holds.free_eq (h : fifo.Holds items) (header : RtlFifoH) :
    fifo.free header = buf - items.length := by
  rw [RtFifo.free, header.free_eq h.ring.start_lt (h.len ▸ h.ring.fits), h.len]

theorem RtFifo.Holds.stop_eq (h : fifo.Holds items) (header : RtlFifoH) :
    fifo.stop header = Ring.wrap buf (fifo.start + items.length) := by
  rw [RtFifo.stop, header.end_eq h.ring.start_lt (h.len ▸ h.ring.fits), h.len]

/-- The copying loop ends within the buffer, and puts at the end of the queue what fits. -/
theorem put_chunks_spec (header : RtlFifoH) (h : fifo.Holds items) {fuel : Nat} {bytes : List Byte}
    (hfuel : bytes.length ≤ fuel) :
    ∃ next, putChunks header fuel fifo bytes =
        some (next, bytes.drop (buf - items.length)) ∧
      next.Holds (items ++ bytes.take (buf - items.length)) := by
  induction fuel generalizing fifo items bytes with
  | zero =>
      obtain rfl := List.length_eq_zero_iff.mp (Nat.le_zero.mp hfuel)
      exact ⟨fifo, by simp [putChunks], by simpa using h⟩
  | succ fuel ih =>
      have hfree := h.free_eq header
      by_cases hdone : bytes = [] ∨ fifo.free header = 0
      · refine ⟨fifo, ?_, ?_⟩
        · rw [putChunks, if_pos hdone]
          rcases hdone with rfl | hfull
          · simp
          · rw [← hfree, hfull, List.drop_zero]
        · rcases hdone with rfl | hfull
          · simpa using h
          · rw [← hfree, hfull, List.take_zero, List.append_nil]
            exact h
      · obtain ⟨hbytes, hroom⟩ := not_or.mp hdone
        have hpos := List.length_pos_iff.mpr hbytes
        have hstart := h.ring.start_lt
        have hfits := h.ring.fits
        have hstop : fifo.stop header < buf := by
          rw [h.stop_eq header]
          exact Ring.wrap_lt (by omega)
        rw [putChunks, if_neg hdone]
        generalize hchars : min (min (buf - fifo.stop header) bytes.length) (fifo.free header) =
          chars
        -- every chunk has a byte, so that the fuel lasts
        have hsome : 0 < chars := by omega
        have hlength : (bytes.take chars).length = chars := by
          rw [List.length_take]
          omega
        have hend :
            Ring.wrap buf (fifo.start + items.length) + (bytes.take chars).length ≤ buf := by
          rw [← h.stop_eq header, hlength]
          omega
        obtain ⟨base, hblit, hring⟩ := h.ring.blit hend (by rw [hlength]; omega)
        rw [← h.stop_eq header] at hblit
        have hnext : ({ fifo with base := base, len := fifo.len + chars } : RtFifo buf).Holds
            (items ++ bytes.take chars) :=
          ⟨hring, by rw [List.length_append, hlength]; exact congrArg (· + chars) h.len⟩
        have hrest : (bytes.drop chars).length ≤ fuel := by
          rw [List.length_drop]
          omega
        obtain ⟨last, hlast, hholds⟩ := ih hnext hrest
        rw [List.length_append, hlength] at hlast hholds
        have hsplit : buf - items.length = chars + (buf - (items.length + chars)) := by omega
        refine ⟨last, ?_, ?_⟩
        · dsimp only
          rw [hblit]
          dsimp only
          rw [hlast, List.drop_drop, ← hsplit]
        · rw [hsplit, List.take_add, ← List.append_assoc]
          exact hholds

/-- The copying loop of `rtf_get` stays within the buffer, and takes the bytes off the front of
the queue. -/
theorem get_chunks_spec (h : fifo.Holds items) {fuel count : Nat} (hfuel : count ≤ fuel) :
    ∃ next, getChunks fuel fifo count = some (next, items.take count) ∧
      next.Holds (items.drop count) := by
  induction fuel generalizing fifo items count with
  | zero =>
      obtain rfl := Nat.le_zero.mp hfuel
      exact ⟨fifo, by simp [getChunks], h⟩
  | succ fuel ih =>
      have hlen := h.len
      by_cases hdone : count = 0 ∨ fifo.len = 0
      · have hnone : items.take count = [] ∧ items.drop count = items := by
          rcases hdone with rfl | hempty
          · exact ⟨List.take_zero, List.drop_zero⟩
          · obtain rfl := List.length_eq_zero_iff.mp (hlen.symm.trans hempty)
            exact ⟨List.take_nil, List.drop_nil⟩
        refine ⟨fifo, ?_, ?_⟩
        · rw [getChunks, if_pos hdone, hnone.1]
        · rw [hnone.2]
          exact h
      · obtain ⟨hcount, hnonempty⟩ := not_or.mp hdone
        have hstart := h.ring.start_lt
        rw [getChunks, if_neg hdone]
        generalize hchars : min (min (buf - fifo.start) count) fifo.len = chars
        have hsome : 0 < chars := by omega
        have hcopied : chars ≤ items.length := by omega
        have hslice := h.ring.slice hcopied (by omega)
        have hnext : ({ fifo with
            start := Ring.wrap buf (fifo.start + chars)
            len := fifo.len - chars } : RtFifo buf).Holds (items.drop chars) :=
          ⟨h.ring.advance hcopied (by omega), by rw [List.length_drop, ← hlen]⟩
        have hrest : count - chars ≤ fuel := by omega
        obtain ⟨last, hlast, hholds⟩ := ih hnext hrest
        have hsplit : count = chars + (count - chars) := by omega
        refine ⟨last, ?_, ?_⟩
        · dsimp only
          rw [hslice]
          dsimp only
          rw [hlast, Option.map_some, ← List.take_add, ← hsplit]
        · rw [hsplit, ← List.drop_drop]
          exact hholds

/-! ## Calls -/

/-- A call of a real-time module on a pipe. -/
inductive FifoCall where
  | put (bytes : List Byte)
  | get (count : Nat)
  deriving DecidableEq, Repr

/-- The call on the buffer. -/
def FifoCall.run (header : RtlFifoH) (fifo : RtFifo buf) :
    FifoCall → Option (RtFifo buf × Reply)
  | .put bytes => rtfPut header fifo bytes
  | .get count => (rtfGet fifo count).map fun done => (done.1, .read done.2)

/-- Calls one after the other, with what they return. -/
def runCalls (header : RtlFifoH) :
    RtFifo buf → List FifoCall → Option (RtFifo buf × List Reply)
  | fifo, [] => some (fifo, [])
  | fifo, call :: calls =>
      match call.run header fifo with
      | some (next, reply) => (runCalls header next calls).map fun last => (last.1, reply :: last.2)
      | none => none

/-- What the call does to a queue that may hold `buf` bytes. -/
def FifoCall.onQueue (buf : Nat) (items : List Byte) : FifoCall → List Byte × Reply
  | .put bytes =>
      if items.length + bytes.length ≤ buf then (items ++ bytes, .written bytes.length)
      else (items, .noSpace)
  | .get count => (items.drop count, .read (items.take count))

/-- Calls on a queue one after the other, with what they return. -/
def queueCalls (buf : Nat) : List Byte → List FifoCall → List Byte × List Reply
  | items, [] => (items, [])
  | items, call :: calls =>
      let (next, reply) := call.onQueue buf items
      let (last, replies) := queueCalls buf next calls
      (last, reply :: replies)

/-- The bytes that a call accepts. -/
def accepted : FifoCall × Reply → List Byte
  | (.put bytes, .written _) => bytes
  | _ => []

/-- The bytes that a call delivers. -/
def Reply.delivered : Reply → List Byte
  | .read bytes => bytes
  | .written _ | .noSpace => []

/-- A call on the buffer stays within it and is the call on the queue. -/
theorem call_on_queue (header : RtlFifoH) (h : fifo.Holds items) (call : FifoCall) :
    ∃ next, call.run header fifo = some (next, (call.onQueue buf items).2) ∧
      next.Holds (call.onQueue buf items).1 := by
  cases call with
  | put bytes =>
      have hfree := h.free_eq header
      have hfits := h.ring.fits
      by_cases hroom : items.length + bytes.length ≤ buf
      · obtain ⟨next, hnext, hholds⟩ := put_chunks_spec header h (le_refl bytes.length)
        have hroomLeft : bytes.length ≤ buf - items.length := by omega
        rw [List.take_of_length_le hroomLeft] at hholds
        rw [FifoCall.onQueue, if_pos hroom, FifoCall.run, rtfPut, if_neg (by omega), hnext,
          List.drop_of_length_le hroomLeft]
        exact ⟨next, rfl, hholds⟩
      · rw [FifoCall.onQueue, if_neg hroom, FifoCall.run, rtfPut, if_pos (by omega)]
        exact ⟨fifo, rfl, h⟩
  | get count =>
      obtain ⟨next, hnext, hholds⟩ := get_chunks_spec h (le_refl count)
      refine ⟨next, ?_, hholds⟩
      show (getChunks count fifo count).map _ = _
      rw [hnext]
      rfl

/-- Calls on the buffer stay within it and are the calls on the queue. -/
theorem calls_on_queue (header : RtlFifoH) (h : fifo.Holds items) (calls : List FifoCall) :
    ∃ next, runCalls header fifo calls = some (next, (queueCalls buf items calls).2) ∧
      next.Holds (queueCalls buf items calls).1 := by
  induction calls generalizing fifo items with
  | nil => exact ⟨fifo, rfl, h⟩
  | cons call calls ih =>
      obtain ⟨next, hnext, hholds⟩ := call_on_queue header h call
      obtain ⟨last, hlast, hlastHolds⟩ := ih hholds
      refine ⟨last, ?_, hlastHolds⟩
      rw [runCalls, hnext]
      dsimp only
      rw [hlast]
      rfl

/-- What a queue has delivered and still holds is what it held and has accepted, in order. -/
theorem queue_calls_conserve (items : List Byte) (calls : List FifoCall) :
    (queueCalls buf items calls).2.flatMap Reply.delivered ++ (queueCalls buf items calls).1 =
      items ++ (calls.zip (queueCalls buf items calls).2).flatMap accepted := by
  induction calls generalizing items with
  | nil => simp [queueCalls]
  | cons call calls ih =>
      have hrest := ih (call.onQueue buf items).1
      have hcall : (call.onQueue buf items).2.delivered ++ (call.onQueue buf items).1 =
          items ++ accepted (call, (call.onQueue buf items).2) := by
        cases call with
        | put bytes =>
            by_cases hroom : items.length + bytes.length ≤ buf
            · simp [FifoCall.onQueue, hroom, Reply.delivered, accepted]
            · simp [FifoCall.onQueue, hroom, Reply.delivered, accepted]
        | get count => simp [FifoCall.onQueue, Reply.delivered, accepted]
      calc (queueCalls buf items (call :: calls)).2.flatMap Reply.delivered ++
            (queueCalls buf items (call :: calls)).1
          = (call.onQueue buf items).2.delivered ++
              ((queueCalls buf (call.onQueue buf items).1 calls).2.flatMap Reply.delivered ++
                (queueCalls buf (call.onQueue buf items).1 calls).1) := by
            rw [← List.append_assoc]
            rfl
        _ = (call.onQueue buf items).2.delivered ++ (call.onQueue buf items).1 ++
              (calls.zip (queueCalls buf (call.onQueue buf items).1 calls).2).flatMap
                accepted := by
            rw [hrest, List.append_assoc]
        _ = items ++ ((call :: calls).zip
              (queueCalls buf items (call :: calls)).2).flatMap accepted := by
            rw [hcall, List.append_assoc]
            rfl

/-- On a new pipe, whatever is put in and taken out and in chunks of whatever size: no copy leaves
the buffer and every loop ends, the calls return what they return on a queue of `buf` bytes, and
what is delivered is what was accepted, in order, up to the bytes that the buffer still holds. -/
theorem pipe_is_queue (header : RtlFifoH) (buf : Nat) (hbuf : 0 < buf) (calls : List FifoCall) :
    ∃ (last : RtFifo buf) (left : List Byte) (replies : List Reply),
      runCalls header (rtfCreate buf) calls = some (last, replies) ∧ last.Holds left ∧
        (left, replies) = queueCalls buf [] calls ∧
        replies.flatMap Reply.delivered ++ left = (calls.zip replies).flatMap accepted := by
  obtain ⟨last, hlast, hholds⟩ := calls_on_queue header (holds_create hbuf) calls
  exact ⟨last, _, _, hlast, hholds, rfl, queue_calls_conserve [] calls⟩

/-- Bytes that go round the end of a buffer of four. -/
theorem small_pipe_is_queue :
    ∃ (last : RtFifo 4) (left : List Byte) (replies : List Reply),
      runCalls .plain (rtfCreate 4) [.put [1, 2, 3], .get 2, .put [4, 5, 6], .put [7], .get 3] =
        some (last, replies) ∧ last.Holds left ∧
        (left, replies) = ([6], [.written 3, .read [1, 2], .written 3, .noSpace,
          .read [3, 4, 5]]) ∧
        replies.flatMap Reply.delivered ++ left = [1, 2, 3, 4, 5, 6] := by
  obtain ⟨last, left, replies, hrun, hholds, hqueue, hbytes⟩ := pipe_is_queue .plain 4
    (by decide) [.put [1, 2, 3], .get 2, .put [4, 5, 6], .put [7], .get 3]
  obtain ⟨rfl, rfl⟩ := Prod.mk.inj hqueue
  exact ⟨last, _, _, hrun, hholds, by decide, by rw [hbytes]; decide⟩

end FoosballTable.Pipes
