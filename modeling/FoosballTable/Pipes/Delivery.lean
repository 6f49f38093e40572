import FoosballTable.Pipes.Fifo

/-!
# Delivery through a pipe

A process writes to a pipe with the `write` of the driver, which copies its bytes into the buffer
and calls the handler of the pipe only after the last one. It sleeps while there is no room, and
it is the only process that has the pipe open. The handlers of `RTInit.c` take up to 100 bytes out
of the buffer, which has room for 100. So a write of at most 100 bytes is delivered at once, but a
longer one waits for a handler that is called only after it: `delivered_iff_short` says that the
writes are delivered, each of them whole and to one call of the handler, exactly while none of
them is longer, and `long_write_blocks` that after one that is longer nothing is delivered.
-/

namespace FoosballTable.Pipes

open Library Command

/-- A process asleep in `rtf_write`: the bytes it has still to write, and its variable `free`, the
room that it waits for. -/
structure Writer where
  rest : List Byte
  free : Nat
  deriving DecidableEq, Repr

/-- A pipe of `init_module`: its buffer, and the process that has it open for a write. -/
structure Pipe where
  fifo : RtFifo 100
  writer : Option Writer

/-- The pipe after `rtf_create`. -/
def Pipe.create : Pipe :=
  ⟨rtfCreate 100, none⟩

/-- What happens to a pipe: a process opens it, writes and closes it; a process that is asleep is
woken up, or it gets a signal. -/
inductive PipeEvent where
  | write (bytes : List Byte)
  | wake
  | signal
  deriving DecidableEq, Repr

/-- The loop of `rtf_write`, up to its end or to where it sleeps. -/
def rtfWriteLoop (header : RtlFifoH) (fifo : RtFifo 100) (writer : Writer) :
    Option (RtFifo 100 × Option Writer) :=
  if writer.rest = [] then some (fifo, none)
  else if fifo.free header < writer.free then some (fifo, some writer)
  else
    (putChunks header writer.rest.length fifo writer.rest).map fun done =>
      -- bytes that are left have found the buffer full, and the process waits for room for one
      (done.1, if done.2 = [] then none else some ⟨done.2, 1⟩)

/-- The process goes on with `rtf_write`. Once all is written the handler of the pipe is called,
which takes a message of up to 100 bytes out of the buffer. -/
def Pipe.proceed (header : RtlFifoH) (fifo : RtFifo 100) (writer : Writer) :
    Option (Pipe × Option (List Byte)) :=
  match rtfWriteLoop header fifo writer with
  | some (fifo, some writer) => some (⟨fifo, some writer⟩, none)
  | some (fifo, none) => (rtfGet fifo 100).map fun done => (⟨done.1, none⟩, some done.2)
  | none => none

/-- The pipe after an event, and the message of its handler, if the handler was called. -/
def Pipe.step (header : RtlFifoH) (pipe : Pipe) : PipeEvent → Option (Pipe × Option (List Byte))
  | .write bytes =>
      match pipe.writer with
      -- `rtf_open` returns `-EACCES` while another process has the pipe open
      | some _ => some (pipe, none)
      | none =>
          Pipe.proceed header pipe.fifo ⟨bytes, if bytes.length ≤ 100 then bytes.length else 1⟩
  | .wake =>
      match pipe.writer with
      | some writer => Pipe.proceed header pipe.fifo writer
      | none => some (pipe, none)
  -- the bytes that were written stay in the buffer, and the handler is not called
  | .signal => some ({ pipe with writer := none }, none)

/-- Events of a pipe one after the other, with the messages of its handler. -/
def Pipe.run (header : RtlFifoH) : Pipe → List PipeEvent → Option (Pipe × List (List Byte))
  | pipe, [] => some (pipe, [])
  | pipe, event :: events =>
      match pipe.step header event with
      | some (next, message) =>
          (Pipe.run header next events).map fun last => (last.1, message.toList ++ last.2)
      | none => none

/-- The writes among the events. -/
def PipeEvent.written : PipeEvent → List (List Byte)
  | .write bytes => [bytes]
  | .wake | .signal => []

/-- The writes of a run. -/
def writes (events : List PipeEvent) : List (List Byte) :=
  events.flatMap PipeEvent.written

/-! ## The two kinds of states -/

/-- The buffer is empty and no process is asleep. -/
structure Pipe.Idle (pipe : Pipe) : Prop where
  holds : pipe.fifo.Holds []
  writer : pipe.writer = none

/-- The buffer is full, and a process that is asleep waits for room. -/
structure Pipe.Blocked (pipe : Pipe) (items : List Byte) : Prop where
  holds : pipe.fifo.Holds items
  full : items.length = 100
  rest : ∀ writer, pipe.writer = some writer → writer.rest ≠ []
  waits : ∀ writer, pipe.writer = some writer → 0 < writer.free

variable (header : RtlFifoH) {pipe : Pipe} {items bytes : List Byte}

theorem idle_create : Pipe.create.Idle :=
  ⟨holds_create (by decide), rfl⟩

/-- The handler takes everything out of the buffer. -/
theorem handler_empties {fifo : RtFifo 100} (h : fifo.Holds items) :
    ∃ next, rtfGet fifo 100 = some (next, items) ∧ next.Holds [] := by
  obtain ⟨next, hget, hholds⟩ := get_chunks_spec h (le_refl 100)
  rw [List.take_of_length_le h.ring.fits] at hget
  rw [List.drop_of_length_le h.ring.fits] at hholds
  exact ⟨next, hget, hholds⟩

/-- A write that fits into an empty buffer is delivered. -/
theorem short_write_delivered (h : pipe.Idle) (hshort : bytes.length ≤ 100) :
    ∃ next, pipe.step header (.write bytes) = some (next, some bytes) ∧ next.Idle := by
  have hfree := h.holds.free_eq header
  have hloop : ∃ fifo, rtfWriteLoop header pipe.fifo ⟨bytes, bytes.length⟩ = some (fifo, none) ∧
      fifo.Holds bytes := by
    unfold rtfWriteLoop
    by_cases hbytes : bytes = []
    · rw [if_pos hbytes, hbytes]
      exact ⟨pipe.fifo, rfl, h.holds⟩
    · obtain ⟨fifo, hput, hholds⟩ := put_chunks_spec header h.holds (le_refl bytes.length)
      rw [List.nil_append, List.length_nil, Nat.sub_zero, List.take_of_length_le hshort] at hholds
      rw [List.length_nil, Nat.sub_zero, List.drop_of_length_le hshort] at hput
      rw [if_neg hbytes, if_neg (by rw [hfree, List.length_nil]; dsimp only; omega), hput]
      exact ⟨fifo, rfl, hholds⟩
  obtain ⟨fifo, hloop, hholds⟩ := hloop
  obtain ⟨next, hget, hempty⟩ := handler_empties hholds
  refine ⟨⟨next, none⟩, ?_, hempty, rfl⟩
  rw [Pipe.step, h.writer]
  dsimp only
  rw [if_pos hshort, Pipe.proceed, hloop]
  dsimp only
  rw [hget]
  rfl

/-- A longer write fills the buffer and sleeps. -/
theorem long_write_sleeps (h : pipe.Idle) (hlong : 100 < bytes.length) :
    ∃ next, pipe.step header (.write bytes) = some (next, none) ∧
      next.Blocked (bytes.take 100) := by
  have hfree := h.holds.free_eq header
  obtain ⟨fifo, hput, hholds⟩ := put_chunks_spec header h.holds (le_refl bytes.length)
  rw [List.nil_append, List.length_nil, Nat.sub_zero] at hholds
  rw [List.length_nil, Nat.sub_zero] at hput
  have hbytes : bytes ≠ [] := by
    rintro rfl
    cases hlong
  have hrest : bytes.drop 100 ≠ [] := by
    intro hnil
    have hlength := congrArg List.length hnil
    rw [List.length_drop, List.length_nil] at hlength
    omega
  refine ⟨⟨fifo, some ⟨bytes.drop 100, 1⟩⟩, ?_, hholds, ?_, ?_, ?_⟩
  · rw [Pipe.step, h.writer]
    dsimp only
    have hroom : ¬ pipe.fifo.free header < 1 := by
      rw [hfree]
      exact (by decide : ¬ 100 - 0 < 1)
    rw [if_neg (by omega), Pipe.proceed, rtfWriteLoop, if_neg hbytes, if_neg hroom, hput,
      Option.map_some, if_neg hrest]
  · rw [List.length_take]
    omega
  · rintro _ ⟨⟩
    exact hrest
  · rintro _ ⟨⟩
    exact Nat.one_pos

/-- A process with bytes to write sleeps at a full buffer. -/
theorem Pipe.Blocked.sleeps (h : pipe.Blocked items) {writer : Writer} (hrest : writer.rest ≠ [])
    (hwaits : 0 < writer.free) :
    Pipe.proceed header pipe.fifo writer = some (⟨pipe.fifo, some writer⟩, none) ∧
      Pipe.Blocked ⟨pipe.fifo, some writer⟩ items := by
  have hfree := h.holds.free_eq header
  have hfull := h.full
  refine ⟨?_, h.holds, h.full, ?_, ?_⟩
  · rw [Pipe.proceed, rtfWriteLoop, if_neg hrest, if_pos (by omega)]
  · rintro _ ⟨⟩
    exact hrest
  · rintro _ ⟨⟩
    exact hwaits

/-- While the buffer is full nothing is delivered, unless a process writes nothing at all. -/
theorem blocked_step (h : pipe.Blocked items) {event : PipeEvent} (hevent : event ≠ .write []) :
    ∃ next, pipe.step header event = some (next, none) ∧ next.Blocked items := by
  cases event with
  | write bytes =>
      cases hwriter : pipe.writer with
      | some writer => exact ⟨pipe, by rw [Pipe.step, hwriter], h⟩
      | none =>
          have hbytes : bytes ≠ [] := fun hnil => hevent (congrArg PipeEvent.write hnil)
          have hwaits : 0 < if bytes.length ≤ 100 then bytes.length else 1 := by
            have hpos := List.length_pos_iff.mpr hbytes
            split <;> omega
          have hrest :
              (Writer.mk bytes (if bytes.length ≤ 100 then bytes.length else 1)).rest ≠ [] := hbytes
          obtain ⟨hproceed, hblocked⟩ := h.sleeps header hrest hwaits
          exact ⟨_, by rw [Pipe.step, hwriter]; exact hproceed, hblocked⟩
  | wake =>
      cases hwriter : pipe.writer with
      | some writer =>
          obtain ⟨hproceed, hblocked⟩ := h.sleeps header (h.rest writer hwriter)
            (h.waits writer hwriter)
          exact ⟨_, by rw [Pipe.step, hwriter]; exact hproceed, hblocked⟩
      | none => exact ⟨pipe, by rw [Pipe.step, hwriter], h⟩
  | signal => exact ⟨_, rfl, h.holds, h.full, nofun, nofun⟩

/-- An empty write to a full buffer is refused while a process is asleep, and delivers what is in
the buffer otherwise. -/
theorem blocked_empty_write (h : pipe.Blocked items) :
    (∃ next, pipe.step header (.write []) = some (next, none) ∧ next.Blocked items) ∨
      ∃ next, pipe.step header (.write []) = some (next, some items) ∧ next.Idle := by
  cases hwriter : pipe.writer with
  | some writer => exact Or.inl ⟨pipe, by rw [Pipe.step, hwriter], h⟩
  | none =>
      right
      obtain ⟨next, hget, hempty⟩ := handler_empties h.holds
      refine ⟨⟨next, none⟩, ?_, hempty, rfl⟩
      rw [Pipe.step, hwriter]
      dsimp only
      rw [Pipe.proceed, rtfWriteLoop, if_pos rfl]
      dsimp only
      rw [hget]
      rfl

/-- An event other than a write leaves an empty pipe as it is. -/
theorem idle_step (h : pipe.Idle) (event : PipeEvent) (hevent : event.written = []) :
    ∃ next, pipe.step header event = some (next, none) ∧ next.Idle := by
  cases event with
  | write bytes => cases hevent
  | wake => exact ⟨pipe, by rw [Pipe.step, h.writer], h⟩
  | signal => exact ⟨_, rfl, h.holds, rfl⟩

/-! ## Runs -/

/-- A step goes on with the run of the events after it. -/
theorem run_of_step {next : Pipe} {event : PipeEvent} {message : Option (List Byte)}
    (hstep : pipe.step header event = some (next, message)) {events : List PipeEvent}
    {last : Pipe} {messages : List (List Byte)}
    (hrun : Pipe.run header next events = some (last, messages)) :
    Pipe.run header pipe (event :: events) = some (last, message.toList ++ messages) := by
  rw [Pipe.run, hstep]
  dsimp only
  rw [hrun]
  rfl

theorem writes_cons (event : PipeEvent) (events : List PipeEvent) :
    writes (event :: events) = event.written ++ writes events :=
  List.flatMap_cons

/-- Every step has a result: the buffer is empty or full again, and there is a message at most for
a write. -/
theorem step_bounded (h : pipe.Idle ∨ ∃ items, pipe.Blocked items) (event : PipeEvent) :
    ∃ next message, pipe.step header event = some (next, message) ∧
      (next.Idle ∨ ∃ items, next.Blocked items) ∧
      message.toList.length ≤ event.written.length := by
  rcases h with hidle | ⟨items, hblocked⟩
  · cases event with
    | write bytes =>
        by_cases hshort : bytes.length ≤ 100
        · obtain ⟨next, hstep, hnext⟩ := short_write_delivered header hidle hshort
          exact ⟨next, _, hstep, Or.inl hnext, le_rfl⟩
        · obtain ⟨next, hstep, hnext⟩ := long_write_sleeps header hidle (Nat.lt_of_not_le hshort)
          exact ⟨next, _, hstep, Or.inr ⟨_, hnext⟩, Nat.zero_le _⟩
    | wake =>
        obtain ⟨next, hstep, hnext⟩ := idle_step header hidle .wake rfl
        exact ⟨next, _, hstep, Or.inl hnext, le_rfl⟩
    | signal =>
        obtain ⟨next, hstep, hnext⟩ := idle_step header hidle .signal rfl
        exact ⟨next, _, hstep, Or.inl hnext, le_rfl⟩
  · by_cases hempty : event = .write []
    · rw [hempty]
      rcases blocked_empty_write header hblocked with ⟨next, hstep, hnext⟩ | ⟨next, hstep, hnext⟩
      · exact ⟨next, _, hstep, Or.inr ⟨_, hnext⟩, Nat.zero_le _⟩
      · exact ⟨next, _, hstep, Or.inl hnext, le_rfl⟩
    · obtain ⟨next, hstep, hnext⟩ := blocked_step header hblocked hempty
      exact ⟨next, _, hstep, Or.inr ⟨_, hnext⟩, Nat.zero_le _⟩

/-- Every run has a result, and no more messages than writes. -/
theorem run_bounded (h : pipe.Idle ∨ ∃ items, pipe.Blocked items) (events : List PipeEvent) :
    ∃ last messages, Pipe.run header pipe events = some (last, messages) ∧
      messages.length ≤ (writes events).length := by
  induction events generalizing pipe with
  | nil => exact ⟨pipe, [], rfl, le_rfl⟩
  | cons event events ih =>
      obtain ⟨next, message, hstep, hnext, hmessage⟩ := step_bounded header h event
      obtain ⟨last, messages, hrun, hmessages⟩ := ih hnext
      refine ⟨last, _, run_of_step header hstep hrun, ?_⟩
      rw [writes_cons, List.length_append, List.length_append]
      omega

/-- From an empty pipe the messages are the writes exactly when no write is long. -/
theorem idle_run (h : pipe.Idle) (events : List PipeEvent) :
    ∃ last messages, Pipe.run header pipe events = some (last, messages) ∧
      (messages = writes events ↔ ∀ bytes ∈ writes events, bytes.length ≤ 100) := by
  induction events generalizing pipe with
  | nil => exact ⟨pipe, [], rfl, iff_of_true rfl nofun⟩
  | cons event events ih =>
      by_cases hwritten : event.written = []
      · obtain ⟨next, hstep, hnext⟩ := idle_step header h event hwritten
        obtain ⟨last, messages, hrun, hiff⟩ := ih hnext
        refine ⟨last, _, run_of_step header hstep hrun, ?_⟩
        rw [writes_cons, hwritten]
        exact hiff
      · cases event with
        | wake | signal => exact absurd rfl hwritten
        | write bytes =>
            have hcons : writes (.write bytes :: events) = bytes :: writes events := rfl
            rw [hcons, List.forall_mem_cons]
            by_cases hshort : bytes.length ≤ 100
            · obtain ⟨next, hstep, hnext⟩ := short_write_delivered header h hshort
              obtain ⟨last, messages, hrun, hiff⟩ := ih hnext
              refine ⟨last, _, run_of_step header hstep hrun, ?_⟩
              rw [and_iff_right hshort, ← hiff]
              exact ⟨fun heq => (List.cons.inj heq).2, fun heq => congrArg _ heq⟩
            · obtain ⟨next, hstep, hnext⟩ := long_write_sleeps header h (Nat.lt_of_not_le hshort)
              obtain ⟨last, messages, hrun, hmessages⟩ :=
                run_bounded header (Or.inr ⟨_, hnext⟩) events
              refine ⟨last, _, run_of_step header hstep hrun, ?_⟩
              refine iff_of_false (fun heq => ?_) fun h => hshort h.1
              -- the message of the long write is missing
              have hlength := congrArg List.length heq
              rw [List.length_append, List.length_cons, Option.toList_none, List.length_nil]
                at hlength
              omega

/-- While the buffer is full, a run without empty writes gives no message. -/
theorem blocked_run (h : pipe.Blocked items) {events : List PipeEvent}
    (hevents : ∀ bytes ∈ writes events, bytes ≠ []) :
    ∃ last, Pipe.run header pipe events = some (last, []) := by
  induction events generalizing pipe with
  | nil => exact ⟨pipe, rfl⟩
  | cons event events ih =>
      rw [writes_cons] at hevents
      have hevent : event ≠ .write [] := by
        rintro rfl
        exact hevents [] (List.mem_append_left _ List.mem_cons_self) rfl
      obtain ⟨next, hstep, hnext⟩ := blocked_step header h hevent
      obtain ⟨last, hrun⟩ := ih hnext fun bytes hmem =>
        hevents bytes (List.mem_append_right _ hmem)
      exact ⟨last, run_of_step header hstep hrun⟩

/-- After short writes, one long write keeps everything after it from the handler. -/
theorem idle_run_long (h : pipe.Idle) {before after : List PipeEvent}
    (hbefore : ∀ bytes ∈ writes before, bytes.length ≤ 100) (hlong : 100 < bytes.length)
    (hafter : ∀ bytes ∈ writes after, bytes ≠ []) :
    ∃ last, Pipe.run header pipe (before ++ .write bytes :: after) =
      some (last, writes before) := by
  induction before generalizing pipe with
  | nil =>
      obtain ⟨next, hstep, hnext⟩ := long_write_sleeps header h hlong
      obtain ⟨last, hrun⟩ := blocked_run header hnext hafter
      exact ⟨last, run_of_step header hstep hrun⟩
  | cons event before ih =>
      rw [writes_cons] at hbefore
      have hrest := fun bytes hmem => hbefore bytes (List.mem_append_right _ hmem)
      cases event with
      | write first =>
          have hshort := hbefore first (List.mem_append_left _ List.mem_cons_self)
          obtain ⟨next, hstep, hnext⟩ := short_write_delivered header h hshort
          obtain ⟨last, hrun⟩ := ih hnext hrest
          exact ⟨last, run_of_step header hstep hrun⟩
      | wake =>
          obtain ⟨next, hstep, hnext⟩ := idle_step header h .wake rfl
          obtain ⟨last, hrun⟩ := ih hnext hrest
          exact ⟨last, run_of_step header hstep hrun⟩
      | signal =>
          obtain ⟨next, hstep, hnext⟩ := idle_step header h .signal rfl
          obtain ⟨last, hrun⟩ := ih hnext hrest
          exact ⟨last, run_of_step header hstep hrun⟩

/-- In every run of a pipe no copy leaves the buffer, and the messages of the handler are the
writes to the pipe, each of them once, whole and in order, exactly when no write is longer than
100 bytes. -/
theorem delivered_iff_short (events : List PipeEvent) :
    ∃ last messages, Pipe.run header Pipe.create events = some (last, messages) ∧
      (messages = writes events ↔ ∀ bytes ∈ writes events, bytes.length ≤ 100) :=
  idle_run header idle_create events

/-- After a write of more than 100 bytes the handler of the pipe is not called any more, whatever is
written, unless a process writes nothing at all; killing the process that sleeps does not help. -/
theorem long_write_blocks (before after : List PipeEvent) (bytes : List Byte)
    (hbefore : ∀ bytes ∈ writes before, bytes.length ≤ 100) (hlong : 100 < bytes.length)
    (hafter : ∀ bytes ∈ writes after, bytes ≠ []) :
    ∃ last, Pipe.run header Pipe.create (before ++ .write bytes :: after) =
      some (last, writes before) :=
  idle_run_long header idle_create hbefore hlong hafter

/-- A line, a text of 101 bytes, and another line after the process that wrote it was killed. -/
theorem killed_writer_blocks :
    ∃ last, Pipe.run .plain Pipe.create
        ([.write (Command.bytes "home 0\n")] ++ .write (List.replicate 101 0) ::
          [.wake, .signal, .write (Command.bytes "home 1\n"), .wake]) =
      some (last, [Command.bytes "home 0\n"]) :=
  long_write_blocks .plain [.write (Command.bytes "home 0\n")]
    [.wake, .signal, .write (Command.bytes "home 1\n"), .wake] (List.replicate 101 0) (by decide)
    (by rw [List.length_replicate]; decide) (by decide)

end FoosballTable.Pipes
