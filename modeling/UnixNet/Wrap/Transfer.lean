import UnixNet.Lib.Execution
import UnixNet.Lib.Pipe
import UnixNet.Lib.Text

/-!
# Exact transfers: `Writen` and `Readn`

Two processes at the ends of one channel: one is in `Writen(fd, m, n)`, the other in
`Readn(fd, buf, n)` with the same `n`. Each call of `write` and `read` moves some bytes, is
interrupted or fails, and the two sides take turns in any order; the writer's end may be closed at
any time. `Call` is where a function is in its loop, `writenBody` and `readnBody` are the loop
bodies, and `System.step` is one event. Read `exact_transfer` first; `Invariant` is what makes it
work: what was moved is the part of the text, and of the buffer, before the pointer.
-/

namespace UnixNet.Wrap

open NetLib

/-- What `read` and `write` return: a count, or -1 with EINTR or with another error. -/
inductive IoReturn where
  | count (n : Nat)
  | interrupted
  | failed

/-- Where a call of `Writen` or `Readn` is: at the test of its loop with `nleft` and `ptr`, which is
an offset, or done with a return value. -/
inductive Call where
  | looping (nleft ptr : Nat)
  | returned (ret : Int)
  deriving DecidableEq

/-- The body of the loop of `Writen`, for what `write` returns. -/
def writenBody (nleft ptr : Nat) : IoReturn → Call
  | .count 0 => .returned (-1)
  | .count nwritten => .looping (nleft - nwritten) (ptr + nwritten)
  | .interrupted => .looping nleft ptr
  | .failed => .returned (-1)

/-- The body of the loop of `Readn`, for what `read` returns. At end of file the loop ends with
`return n - nleft`. -/
def readnBody (n nleft ptr : Nat) : IoReturn → Call
  | .count 0 => .returned (n - nleft : Nat)
  | .count nread => .looping (nleft - nread) (ptr + nread)
  | .interrupted => .looping nleft ptr
  | .failed => .returned (-1)

/-- Both processes, the reader's buffer, and the channel between them. -/
structure System where
  writer : Call
  reader : Call
  buf : Bytes
  channel : Pipe UInt8

/-- Both functions have been called for the text `m`. -/
def System.start (m buf : Bytes) : System where
  writer := .looping m.length 0
  reader := .looping m.length 0
  buf := buf
  channel := .empty

/-- What can happen: a call of `write` or `read` returns, a function returns because nothing is left
to do, or the writer's end is closed. `write` and `read` carry the number of bytes moved. -/
inductive Event where
  | write (k : Nat)
  | writeInterrupted
  | writeFailed
  | writenReturns
  | close
  | read (k : Nat)
  | readEof
  | readInterrupted
  | readFailed
  | readnReturns
  deriving DecidableEq

/-- What an event does to the writer. -/
def System.writerStep (m : Bytes) (s : System) (nleft ptr : Nat) : Event → Option System
  | .write k =>
      if 0 < nleft ∧ k ≤ nleft ∧ s.channel.closed = false then
        some { s with writer := writenBody nleft ptr (.count k)
                      channel := s.channel.put ((m.drop ptr).take k) }
      else none
  | .writeInterrupted =>
      if 0 < nleft then some { s with writer := writenBody nleft ptr .interrupted } else none
  | .writeFailed =>
      if 0 < nleft then some { s with writer := writenBody nleft ptr .failed } else none
  | .writenReturns => if nleft = 0 then some { s with writer := .returned m.length } else none
  | _ => none

/-- What an event does to the reader. `read` waits while the channel is empty and not closed. -/
def System.readerStep (m : Bytes) (s : System) (nleft ptr : Nat) : Event → Option System
  | .read k =>
      if 0 < k ∧ k ≤ nleft ∧ k ≤ s.channel.queue.length then
        some { s with reader := readnBody m.length nleft ptr (.count k)
                      buf := s.buf.take ptr ++ overwrite (s.channel.get k).1 (s.buf.drop ptr)
                      channel := (s.channel.get k).2 }
      else none
  | .readEof =>
      if 0 < nleft ∧ s.channel.queue = [] ∧ s.channel.closed = true then
        some { s with reader := readnBody m.length nleft ptr (.count 0) }
      else none
  | .readInterrupted =>
      if 0 < nleft then some { s with reader := readnBody m.length nleft ptr .interrupted }
      else none
  | .readFailed =>
      if 0 < nleft then some { s with reader := readnBody m.length nleft ptr .failed } else none
  | .readnReturns =>
      if nleft = 0 then some { s with reader := .returned (m.length - nleft : Nat) } else none
  | _ => none

/-- Which process an event is about. -/
inductive Side where
  | writer
  | reader
  | channel
  deriving DecidableEq

/-- The process that an event is about. -/
def Event.side : Event → Side
  | .write _ | .writeInterrupted | .writeFailed | .writenReturns => .writer
  | .close => .channel
  | .read _ | .readEof | .readInterrupted | .readFailed | .readnReturns => .reader

/-- One event. There is no result when it cannot happen. -/
def System.step (m : Bytes) (s : System) (event : Event) : Option System :=
  match event.side, s.writer, s.reader with
  | .writer, .looping nleft ptr, _ => s.writerStep m nleft ptr event
  | .reader, _, .looping nleft ptr => s.readerStep m nleft ptr event
  | .channel, _, _ =>
      if s.channel.closed = false then some { s with channel := s.channel.close } else none
  | _, _, _ => none

/-- A call that moves bytes or ends the loop: all but the interrupted ones. -/
def Event.isReaderMove : Event → Bool
  | .read _ | .readEof | .readFailed | .readnReturns => true
  | _ => false

/-- Where `Writen` is, after the given events, and what it has put into the channel. -/
def WriterAt (m : Bytes) (events : List Event) (sent : Bytes) : Call → Prop
  | .looping nleft ptr => ptr + nleft = m.length ∧ sent = m.take ptr
  | .returned ret => (ret = m.length ∧ sent = m) ∨
      (ret = -1 ∧ sent <+: m ∧ (.writeFailed ∈ events ∨ .write 0 ∈ events))

/-- Where `Readn` is, after the given events, and what it has taken out of the channel. -/
def ReaderAt (m : Bytes) (events : List Event) (buf : Bytes) (channel : Pipe UInt8) : Call → Prop
  | .looping nleft ptr => ptr + nleft = m.length ∧ ptr = channel.received.length ∧
      buf.take ptr = channel.received
  | .returned ret => (ret = m.length ∧ buf = channel.received) ∨
      (ret = channel.received.length ∧ channel.received.length < m.length ∧
        channel.closed = true ∧ channel.queue = [] ∧
        buf.take channel.received.length = channel.received) ∨
      (ret = -1 ∧ .readFailed ∈ events)

/-- What holds after any events. -/
structure Invariant (m : Bytes) (events : List Event) (s : System) : Prop where
  size : s.buf.length = m.length
  writer : WriterAt m events s.channel.sent s.writer
  reader : ReaderAt m events s.buf s.channel s.reader

variable {m : Bytes} {done events : List Event} {s next : System}

/-- One more event does not change what is known of the writer. -/
theorem WriterAt.more {sent : Bytes} {call : Call} (h : WriterAt m done sent call)
    (event : Event) : WriterAt m (done ++ [event]) sent call := by
  cases call with
  | looping nleft ptr => exact h
  | returned ret =>
      rcases h with h | ⟨hret, hsent, hcause⟩
      · exact .inl h
      · exact .inr ⟨hret, hsent, hcause.imp (List.mem_append_left _) (List.mem_append_left _)⟩

/-- One more event does not change what is known of the reader. -/
theorem ReaderAt.more {buf : Bytes} {channel : Pipe UInt8} {call : Call}
    (h : ReaderAt m done buf channel call) (event : Event) :
    ReaderAt m (done ++ [event]) buf channel call := by
  cases call with
  | looping nleft ptr => exact h
  | returned ret =>
      rcases h with h | h | ⟨hret, hcause⟩
      · exact .inl h
      · exact .inr (.inl h)
      · exact .inr (.inr ⟨hret, List.mem_append_left _ hcause⟩)

/-- What the writer put into the channel is the beginning of its text. -/
theorem WriterAt.sent_prefix {sent : Bytes} {call : Call} (h : WriterAt m done sent call) :
    sent <+: m := by
  cases call with
  | looping nleft ptr =>
      rw [h.2]
      exact List.take_prefix ptr m
  | returned ret =>
      rcases h with ⟨-, hsent⟩ | ⟨-, hsent, -⟩
      · rw [hsent]
      · exact hsent

/-- Putting more into a channel that is not closed does not matter to the reader. -/
theorem ReaderAt.put {buf : Bytes} {channel : Pipe UInt8} {call : Call}
    (h : ReaderAt m done buf channel call) (hopen : channel.closed = false) (xs : Bytes) :
    ReaderAt m done buf (channel.put xs) call := by
  cases call with
  | looping nleft ptr => exact h
  | returned ret =>
      rcases h with h | ⟨-, -, hclosed, -⟩ | h
      · exact .inl h
      · rw [hopen] at hclosed
        cases hclosed
      · exact .inr (.inr h)

/-- Closing the channel does not matter to a reader that has not seen its end. -/
theorem ReaderAt.close {buf : Bytes} {channel : Pipe UInt8} {call : Call}
    (h : ReaderAt m done buf channel call) (hopen : channel.closed = false) :
    ReaderAt m done buf channel.close call := by
  cases call with
  | looping nleft ptr => exact h
  | returned ret =>
      rcases h with h | ⟨-, -, hclosed, -⟩ | h
      · exact .inl h
      · rw [hopen] at hclosed
        cases hclosed
      · exact .inr (.inr h)

/-- Storing bytes behind the first `ptr` ones of a buffer. -/
theorem take_store (data : Bytes) {buf : Bytes} {ptr : Nat} (hptr : ptr ≤ buf.length) :
    (buf.take ptr ++ overwrite data (buf.drop ptr)).take (ptr + data.length) =
      buf.take ptr ++ data := by
  rw [overwrite, ← List.append_assoc]
  refine List.take_left' ?_
  rw [List.length_append, List.length_take, Nat.min_eq_left hptr]

/-- An event of the writer keeps the invariant. -/
theorem Invariant.writer_step {nleft ptr : Nat} {event : Event} (h : Invariant m done s)
    (hat : s.writer = .looping nleft ptr) (hstep : s.writerStep m nleft ptr event = some next) :
    Invariant m (done ++ [event]) next := by
  have hwriter : ptr + nleft = m.length ∧ s.channel.sent = m.take ptr := by
    have := h.writer
    rwa [hat] at this
  obtain ⟨hsum, hsent⟩ := hwriter
  have hreader := h.reader.more event
  cases event with
  | write k =>
      obtain ⟨⟨-, hk, hopen⟩, rfl⟩ : (0 < nleft ∧ k ≤ nleft ∧ s.channel.closed = false) ∧ _ :=
        eq_of_guarded hstep
      have hmore : (s.channel.put ((m.drop ptr).take k)).sent = m.take (ptr + k) := by
        show s.channel.sent ++ (m.drop ptr).take k = _
        rw [hsent, List.take_add]
      refine ⟨h.size, ?_, hreader.put hopen _⟩
      show WriterAt m _ (s.channel.put ((m.drop ptr).take k)).sent _
      rw [hmore]
      -- a call that writes nothing ends the loop
      cases k with
      | zero => exact .inr ⟨rfl, List.take_prefix _ m, .inr (List.mem_append_right _ (by simp))⟩
      | succ k => exact ⟨by omega, rfl⟩
  | writeInterrupted =>
      obtain ⟨-, rfl⟩ := eq_of_guarded hstep
      exact ⟨h.size, ⟨hsum, hsent⟩, hreader⟩
  | writeFailed =>
      obtain ⟨-, rfl⟩ := eq_of_guarded hstep
      refine ⟨h.size, .inr ⟨rfl, ?_, .inl (List.mem_append_right _ (by simp))⟩, hreader⟩
      rw [hsent]
      exact List.take_prefix ptr m
  | writenReturns =>
      obtain ⟨hzero, rfl⟩ := eq_of_guarded hstep
      refine ⟨h.size, .inl ⟨rfl, ?_⟩, hreader⟩
      rw [hsent]
      exact List.take_of_length_le (by omega)
  | close | read | readEof | readInterrupted | readFailed | readnReturns => cases hstep

/-- An event of the reader keeps the invariant. -/
theorem Invariant.reader_step {nleft ptr : Nat} {event : Event} (h : Invariant m done s)
    (hat : s.reader = .looping nleft ptr) (hstep : s.readerStep m nleft ptr event = some next) :
    Invariant m (done ++ [event]) next := by
  have hreader : ptr + nleft = m.length ∧ ptr = s.channel.received.length ∧
      s.buf.take ptr = s.channel.received := by
    have := h.reader
    rwa [hat] at this
  obtain ⟨hsum, hptr, htake⟩ := hreader
  have hwriter := h.writer.more event
  have hsize := h.size
  cases event with
  | read k =>
      obtain ⟨⟨hpos, hk, hqueue⟩, rfl⟩ :
          (0 < k ∧ k ≤ nleft ∧ k ≤ s.channel.queue.length) ∧ _ :=
        eq_of_guarded hstep
      have hdata : (s.channel.get k).1.length = k := by
        show (s.channel.queue.take k).length = k
        rw [List.length_take, Nat.min_eq_left hqueue]
      have hreceived : (s.channel.get k).2.received =
          s.channel.received ++ (s.channel.get k).1 := rfl
      refine ⟨?_, hwriter, ?_⟩
      · show (s.buf.take ptr ++ overwrite _ (s.buf.drop ptr)).length = m.length
        rw [List.length_append, length_overwrite (by rw [hdata, List.length_drop]; omega),
          List.length_take, List.length_drop]
        omega
      · -- the loop goes on behind the bytes that were stored
        obtain ⟨k, rfl⟩ : ∃ j, k = j + 1 := ⟨k - 1, by omega⟩
        refine ⟨by omega, ?_, ?_⟩
        · rw [hreceived, List.length_append, hdata, hptr]
        · have hstore := take_store (s.channel.get (k + 1)).1 (show ptr ≤ s.buf.length by omega)
          rw [hdata] at hstore
          rw [hstore, hreceived, htake]
  | readEof =>
      obtain ⟨⟨hpos, hqueue, hclosed⟩, rfl⟩ :
          (0 < nleft ∧ s.channel.queue = [] ∧ s.channel.closed = true) ∧ _ :=
        eq_of_guarded hstep
      -- `n - nleft` is the number of bytes read so far
      have hret : m.length - nleft = s.channel.received.length := by omega
      have hlt : s.channel.received.length < m.length := by omega
      refine ⟨h.size, hwriter, .inr (.inl ⟨congrArg _ hret, hlt, hclosed, hqueue, ?_⟩)⟩
      rw [← hptr]
      exact htake
  | readInterrupted =>
      obtain ⟨-, rfl⟩ := eq_of_guarded hstep
      exact ⟨h.size, hwriter, ⟨hsum, hptr, htake⟩⟩
  | readFailed =>
      obtain ⟨-, rfl⟩ := eq_of_guarded hstep
      exact ⟨h.size, hwriter, .inr (.inr ⟨rfl, List.mem_append_right _ (by simp)⟩)⟩
  | readnReturns =>
      obtain ⟨hzero, rfl⟩ := eq_of_guarded hstep
      have hfull : s.buf.take ptr = s.buf := List.take_of_length_le (by omega)
      refine ⟨h.size, hwriter, .inl ⟨?_, hfull.symm.trans htake⟩⟩
      rw [hzero, Nat.sub_zero]
  | write | writeInterrupted | writeFailed | writenReturns | close => cases hstep

/-- An event is one of the writer in its loop, one of the reader in its loop, or the closing of the
channel. -/
theorem System.step_cases {event : Event} (h : s.step m event = some next) :
    (∃ nleft ptr, event.side = .writer ∧ s.writer = .looping nleft ptr ∧
        s.writerStep m nleft ptr event = some next) ∨
      (∃ nleft ptr, event.side = .reader ∧ s.reader = .looping nleft ptr ∧
        s.readerStep m nleft ptr event = some next) ∨
      (event = .close ∧ s.channel.closed = false ∧
        next = { s with channel := s.channel.close }) := by
  unfold step at h
  split at h
  · next hside hat => exact .inl ⟨_, _, hside, hat, h⟩
  · next hside hat => exact .inr (.inl ⟨_, _, hside, hat, h⟩)
  · next hside =>
      obtain ⟨hopen, hnext⟩ := eq_of_guarded h
      refine .inr (.inr ⟨?_, hopen, hnext.symm⟩)
      cases event <;> first | rfl | cases hside
  · cases h

/-- Every event keeps the invariant. -/
theorem Invariant.step {event : Event} (h : Invariant m done s)
    (hstep : s.step m event = some next) : Invariant m (done ++ [event]) next := by
  rcases System.step_cases hstep with ⟨_, _, -, hat, hnext⟩ | ⟨_, _, -, hat, hnext⟩ |
    ⟨rfl, hopen, rfl⟩
  · exact h.writer_step hat hnext
  · exact h.reader_step hat hnext
  · exact ⟨h.size, h.writer.more _, (h.reader.more _).close hopen⟩

/-- The invariant holds after any events. -/
theorem invariant_run {buf : Bytes} (hbuf : buf.length = m.length)
    (h : runEvents (System.step m) (.start m buf) events = some s) : Invariant m events s := by
  refine run_events_induction (Invariant m) ?_ (fun done s event next => Invariant.step) h
  exact ⟨hbuf, ⟨Nat.zero_add _, rfl⟩, ⟨Nat.zero_add _, rfl, rfl⟩⟩

/-! ## The transfer -/

/-- How many more calls of `read` that are not interrupted a reader can make, the return counted. -/
def Call.budget : Call → Nat
  | .looping nleft _ => nleft + 1
  | .returned _ => 0

/-- Every call of `read` that is not interrupted uses up a part of the budget. -/
theorem reader_budget {event : Event} (h : s.step m event = some next) :
    next.reader.budget + (if event.isReaderMove = true then 1 else 0) ≤ s.reader.budget := by
  rcases System.step_cases h with ⟨nleft, ptr, hside, -, hnext⟩ | ⟨nleft, ptr, -, hat, hnext⟩ |
    ⟨rfl, -, rfl⟩
  · have hreader : next.reader = s.reader := by
      cases event with
      | write | writeInterrupted | writeFailed | writenReturns =>
          obtain ⟨-, rfl⟩ := eq_of_guarded hnext
          rfl
      | close | read | readEof | readInterrupted | readFailed | readnReturns => cases hnext
    have hmove : event.isReaderMove = false := by
      cases event <;> first | rfl | cases hside
    simp [hreader, hmove]
  · rw [hat]
    cases event with
    | read k =>
        obtain ⟨⟨hpos, hk, -⟩, rfl⟩ :
            (0 < k ∧ k ≤ nleft ∧ k ≤ s.channel.queue.length) ∧ _ := eq_of_guarded hnext
        obtain ⟨k, rfl⟩ : ∃ j, k = j + 1 := ⟨k - 1, by omega⟩
        simp only [readnBody, Call.budget, Event.isReaderMove, if_true]
        omega
    | readEof | readFailed | readnReturns =>
        obtain ⟨-, rfl⟩ := eq_of_guarded hnext
        simp [readnBody, Call.budget, Event.isReaderMove]
    | readInterrupted =>
        obtain ⟨-, rfl⟩ := eq_of_guarded hnext
        simp [readnBody, Call.budget, Event.isReaderMove]
    | write | writeInterrupted | writeFailed | writenReturns | close => cases hnext
  · simp [Event.isReaderMove]

/-- The reader ends after at most one more call of `read` than there are bytes, not counting those
that are interrupted. -/
theorem reader_moves_le {buf : Bytes}
    (h : runEvents (System.step m) (.start m buf) events = some s) :
    events.countP Event.isReaderMove ≤ m.length + 1 := by
  have hbudget : events.countP Event.isReaderMove + s.reader.budget ≤ m.length + 1 := by
    refine run_events_induction
      (fun done s => done.countP Event.isReaderMove + s.reader.budget ≤ m.length + 1) ?_ ?_ h
    · exact Nat.le_of_eq (Nat.zero_add _)
    · intro done s event next hdone hstep
      have := reader_budget hstep
      rw [List.countP_append, List.countP_singleton]
      omega
  omega

/-- When `Writen` has returned `n`, the reader does not have to wait. -/
theorem Invariant.reader_ready (h : Invariant m events s) (hwriter : s.writer = .returned m.length)
    (hreader : ∀ ret, s.reader ≠ .returned ret) :
    ∃ event : Event, event.isReaderMove = true ∧ event ≠ .readFailed ∧
      (s.step m event).isSome = true := by
  have hsent : s.channel.sent = m := by
    have hat := h.writer
    rw [hwriter] at hat
    rcases hat with ⟨-, hsent⟩ | ⟨hret, -, -⟩
    · exact hsent
    · omega
  cases hat : s.reader with
  | returned ret => exact absurd hat (hreader ret)
  | looping nleft ptr =>
      have hloop := h.reader
      rw [hat] at hloop
      obtain ⟨hsum, hptr, -⟩ := hloop
      have hqueue := s.channel.length_sent
      rw [hsent] at hqueue
      by_cases hzero : nleft = 0
      · refine ⟨.readnReturns, rfl, by decide, ?_⟩
        simp [System.step, Event.side, hat, System.readerStep, hzero]
      · have hguard : 0 < nleft ∧ nleft ≤ nleft ∧ nleft ≤ s.channel.queue.length := by omega
        refine ⟨.read nleft, rfl, by simp, ?_⟩
        simp [System.step, Event.side, hat, System.readerStep, hguard]

/-- What `Writen` and `Readn` promise, after any events. When `Writen` has returned `n`, the channel
got the text, and `Readn` returns `n` with the text in its buffer: it does not have to wait, and
ends after a bounded number of calls. A smaller count means that the writer's end was closed after
so many bytes, and -1 that a call failed. -/
structure ExactTransfer (m : Bytes) (events : List Event) (s : System) : Prop where
  written : s.writer = .returned m.length → s.channel.sent = m
  read : s.writer = .returned m.length → .readFailed ∉ events →
    ∀ ret, s.reader = .returned ret → ret = m.length ∧ s.buf = m
  ready : s.writer = .returned m.length → (∀ ret, s.reader ≠ .returned ret) →
    ∃ event : Event, event.isReaderMove = true ∧ event ≠ .readFailed ∧
      (s.step m event).isSome = true
  bounded : events.countP Event.isReaderMove ≤ m.length + 1
  short : ∀ k : Nat, k < m.length → s.reader = .returned k →
    s.channel.closed = true ∧ s.channel.sent = m.take k ∧ s.buf.take k = m.take k
  writerFailed : s.writer = .returned (-1) → .writeFailed ∈ events ∨ .write 0 ∈ events
  readerFailed : s.reader = .returned (-1) → .readFailed ∈ events

/-- Whatever the order in which the two sides move, however many bytes each call moves, and however
often calls are interrupted, the transfer is exact. -/
theorem exact_transfer {buf : Bytes} (hbuf : buf.length = m.length)
    (h : runEvents (System.step m) (.start m buf) events = some s) : ExactTransfer m events s := by
  have hinv := invariant_run hbuf h
  have hprefix := hinv.writer.sent_prefix
  have hwriter : ∀ ret, s.writer = .returned ret →
      WriterAt m events s.channel.sent (.returned ret) := by
    intro ret hat
    rw [← hat]
    exact hinv.writer
  have hreader : ∀ ret, s.reader = .returned ret →
      ReaderAt m events s.buf s.channel (.returned ret) := by
    intro ret hat
    rw [← hat]
    exact hinv.reader
  have hwritten : s.writer = .returned m.length → s.channel.sent = m := by
    intro hat
    rcases hwriter _ hat with ⟨-, hsent⟩ | ⟨hret, -, -⟩
    · exact hsent
    · omega
  refine ⟨hwritten, ?_, hinv.reader_ready, reader_moves_le h, ?_, ?_, ?_⟩
  · -- the reader can neither have met the end of the stream too early nor have failed
    intro hat hfailed ret hret
    have hsent := hwritten hat
    rcases hreader ret hret with ⟨hn, hbufeq⟩ | ⟨-, hlt, -, hqueue, -⟩ | ⟨-, hcause⟩
    · refine ⟨hn, hbufeq.trans (Pipe.received_eq hprefix ?_)⟩
      rw [← hbufeq, hinv.size]
    · have hlength := s.channel.length_sent
      rw [hsent, hqueue, List.length_nil] at hlength
      omega
    · exact absurd hcause hfailed
  · -- a short count means that the writer has closed behind what was sent
    intro k hk hret
    rcases hreader k hret with ⟨hn, -⟩ | ⟨hcount, -, hclosed, hqueue, htake⟩ | ⟨hneg, -⟩
    · omega
    · obtain rfl : k = s.channel.received.length := by omega
      have hsent : s.channel.sent = s.channel.received := by
        rw [s.channel.fifo, hqueue, List.append_nil]
      have hreceived : m.take s.channel.received.length = s.channel.received :=
        (List.prefix_iff_eq_take.mp (hsent ▸ hprefix)).symm
      exact ⟨hclosed, hsent.trans hreceived.symm, htake.trans hreceived.symm⟩
    · omega
  · intro hat
    rcases hwriter _ hat with ⟨hret, -⟩ | ⟨-, -, hcause⟩
    · omega
    · exact hcause
  · intro hat
    rcases hreader _ hat with ⟨hret, -⟩ | ⟨hret, -⟩ | ⟨-, hcause⟩
    · omega
    · omega
    · exact hcause

/-- Short calls and interruptions on both sides. -/
def shortCalls : List Event :=
  [.writeInterrupted, .write 2, .read 1, .readInterrupted, .write 1, .writenReturns, .read 2,
    .readnReturns]

/-- A transfer of three bytes with these calls. -/
theorem exact_transfer_short_calls :
    ∃ s, runEvents (System.step [97, 98, 99]) (.start [97, 98, 99] (zeros 3)) shortCalls = some s ∧
      s.channel.sent = [97, 98, 99] ∧ s.buf = [97, 98, 99] := by
  refine ⟨_, rfl, ?_⟩
  have hrun : ExactTransfer [97, 98, 99] shortCalls _ := exact_transfer rfl rfl
  exact ⟨hrun.written rfl, (hrun.read rfl (by decide) 3 rfl).2⟩

end UnixNet.Wrap
