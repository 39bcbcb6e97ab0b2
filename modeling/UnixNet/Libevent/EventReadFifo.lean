import UnixNet.Lib.Execution
import UnixNet.Lib.Pipe
import UnixNet.Lib.Text

/-!
# The reader of a FIFO

`event-read-fifo.c` makes a FIFO and hands its end for reading to libevent, which calls `fifo_read`
when there is something to read or the last writer has closed its end. Any number of writers may
open the FIFO, write and close it, at any time. `fifo_printed` says what the program has printed,
and what is left when it ends.
-/

namespace UnixNet.Libevent.EventReadFifo

open NetLib

/-- `sizeof(buf) - 1`, the number of bytes that `fifo_read` asks for. -/
def room : Nat := 254

/-- Where the program is: in `event_base_dispatch`, in `fifo_read`, or behind the loop. -/
inductive Point where
  | dispatching
  | reading
  | ended
  deriving DecidableEq

/-- Why the loop was left: `read` has returned 0, `read` has failed, or SIGINT came. -/
inductive Outcome where
  | closed
  | failed
  | interrupted
  deriving DecidableEq

/-- The FIFO, the number of its writers and whether the last one has left, the program, and what it
has printed. -/
structure System where
  fifo : Pipe UInt8
  writers : Nat
  hungUp : Bool
  point : Point
  output : Bytes
  outcome : Option Outcome

/-- The program in front of its loop. -/
def System.start : System :=
  ⟨.empty, 0, false, .dispatching, [], none⟩

/-- `printf("Read: %s\n", buf)` for a chunk of the FIFO, behind which there is a NUL. -/
def readLine (chunk : Bytes) : Bytes :=
  ascii "Read: " ++ cstr chunk ++ ascii "\n"

/-- `fifo_read` when there is something to read. -/
def System.fifoRead (s : System) : System :=
  { s with
    fifo := (s.fifo.get room).2
    point := .dispatching
    output := s.output ++ readLine (s.fifo.get room).1 }

/-- `event_base_loopbreak`, which ends the program. -/
def System.leave (s : System) (outcome : Outcome) : System :=
  { s with point := .ended, outcome := some outcome }

/-- What happens. `fifo_read` is called when something is in the FIFO, or the last writer has left;
by the time of its `read` there may be other writers again, and then the `read` fails. -/
inductive Step : System → System → Prop
  | opens {s} : Step s { s with writers := s.writers + 1, hungUp := false }
  | writes {s} (data : Bytes) : 0 < s.writers → s.point ≠ .ended →
      Step s { s with fifo := s.fifo.put data }
  | closes {s} : 0 < s.writers →
      Step s { s with writers := s.writers - 1, hungUp := s.writers = 1 }
  | called {s} : s.point = .dispatching → s.fifo.queue ≠ [] ∨ s.hungUp = true →
      Step s { s with point := .reading }
  | read {s} : s.point = .reading → s.fifo.queue ≠ [] → Step s s.fifoRead
  | readEnd {s} : s.point = .reading → s.fifo.queue = [] → s.writers = 0 → Step s (s.leave .closed)
  | readFails {s} : s.point = .reading → s.fifo.queue = [] → 0 < s.writers →
      Step s (s.leave .failed)
  | interrupt {s} : s.point = .dispatching → Step s (s.leave .interrupted)

/-- The states that the program and its writers can get into. -/
def Reachable : System → Prop :=
  Relation.ReflTransGen Step .start

/-- What has been printed: a line for each chunk that was read. When the program has ended because
of the writers, nothing was left in the FIFO. -/
structure Printed (s : System) (chunks : List Bytes) : Prop where
  sizes : ∀ c ∈ chunks, c ≠ [] ∧ c.length ≤ room
  output : s.output = (chunks.map readLine).flatten
  received : chunks.flatten = s.fifo.received
  ended : s.point = .ended ↔ s.outcome ≠ none
  left : s.outcome = some .closed ∨ s.outcome = some .failed → s.fifo.queue = []

variable {s s' : System} {chunks : List Bytes}

/-- A program that has not ended has no outcome. -/
theorem Printed.running (h : Printed s chunks) (hpoint : s.point ≠ .ended) : s.outcome = none := by
  by_contra hne
  exact hpoint (h.ended.mpr hne)

/-- `fifo_read` prints one chunk more, no longer than what was asked for. -/
theorem Printed.fifo_read (h : Printed s chunks) (hpoint : s.point = .reading)
    (hqueue : s.fifo.queue ≠ []) : Printed s.fifoRead (chunks ++ [(s.fifo.get room).1]) := by
  have hnone : s.fifoRead.outcome = none := h.running (by rw [hpoint]; decide)
  refine ⟨fun c hc => ?_, ?_, ?_, ?_, fun hout => ?_⟩
  · rcases List.mem_append.mp hc with hold | hnew
    · exact h.sizes c hold
    · obtain rfl := List.mem_singleton.mp hnew
      exact ⟨List.take_eq_nil_iff.not.mpr (not_or.mpr ⟨by decide, hqueue⟩),
        List.length_take_le room s.fifo.queue⟩
  · rw [List.map_append, List.flatten_append, ← h.output]
    exact congrArg (s.output ++ ·) (List.flatten_singleton).symm
  · rw [List.flatten_append, h.received, List.flatten_singleton]
    rfl
  · exact iff_of_false nofun (not_not_intro hnone)
  · rw [hnone] at hout
    rcases hout with hout | hout <;> cases hout

/-- The program leaves its loop. -/
theorem Printed.leave (h : Printed s chunks) {outcome : Outcome}
    (hleft : outcome ≠ .interrupted → s.fifo.queue = []) :
    Printed (s.leave outcome) chunks := by
  refine ⟨h.sizes, h.output, h.received, iff_of_true rfl nofun, fun hout => hleft ?_⟩
  rintro rfl
  rcases hout with hout | hout <;> cases hout

/-- Each step keeps what has been printed, or adds a line to it. -/
theorem Printed.step (h : Printed s chunks) (hstep : Step s s') : ∃ later, Printed s' later := by
  cases hstep with
  | opens => exact ⟨chunks, h.sizes, h.output, h.received, h.ended, h.left⟩
  | writes data hwriters hpoint =>
      refine ⟨chunks, h.sizes, h.output, h.received, h.ended, fun hout => ?_⟩
      rw [show s.outcome = none from h.running hpoint] at hout
      rcases hout with hout | hout <;> cases hout
  | closes hwriters => exact ⟨chunks, h.sizes, h.output, h.received, h.ended, h.left⟩
  | called hpoint hready =>
      have hnone : s.outcome = none := h.running (by rw [hpoint]; decide)
      exact ⟨chunks, h.sizes, h.output, h.received, iff_of_false nofun (not_not_intro hnone),
        h.left⟩
  | read hpoint hqueue => exact ⟨_, h.fifo_read hpoint hqueue⟩
  | readEnd hpoint hqueue hwriters => exact ⟨chunks, h.leave fun _ => hqueue⟩
  | readFails hpoint hqueue hwriters => exact ⟨chunks, h.leave fun _ => hqueue⟩
  | interrupt hpoint => exact ⟨chunks, h.leave fun hne => absurd rfl hne⟩

/-- What has been printed in any state. -/
theorem reachable_printed (h : Reachable s) : ∃ chunks, Printed s chunks := by
  induction h with
  | refl => exact ⟨[], nofun, rfl, rfl, iff_of_false nofun (not_not_intro rfl), fun _ => rfl⟩
  | tail _ hstep ih =>
      obtain ⟨chunks, hprinted⟩ := ih
      exact hprinted.step hstep

/-- Whatever the writers do: the program has printed a line for each chunk that it has read, the
chunks are the beginning of all that was written, in order, and of a size for which `buf` has room
with a NUL behind it. When it ends because there is nothing to read any more, or because another
writer has come, they are all that was written. A chunk is printed as it is if no NUL was
written. -/
theorem fifo_printed {s : System} (h : Reachable s) :
    ∃ chunks : List Bytes, (∀ c ∈ chunks, c ≠ [] ∧ c.length ≤ 254) ∧
      s.output = (chunks.map readLine).flatten ∧ chunks.flatten <+: s.fifo.sent ∧
      (s.outcome = some .closed ∨ s.outcome = some .failed → chunks.flatten = s.fifo.sent) ∧
      (0 ∉ s.fifo.sent → ∀ c ∈ chunks, readLine c = ascii "Read: " ++ c ++ ascii "\n") := by
  obtain ⟨chunks, hprinted⟩ := reachable_printed h
  have hpre : chunks.flatten <+: s.fifo.sent := by
    rw [hprinted.received]
    exact s.fifo.received_prefix_sent
  refine ⟨chunks, hprinted.sizes, hprinted.output, hpre, fun hout => ?_, fun hzero c hc => ?_⟩
  · rw [hprinted.received, s.fifo.fifo, hprinted.left hout, List.append_nil]
  · rw [readLine, cstr_eq_self]
    exact fun hmem => hzero (hpre.subset (List.mem_flatten.mpr ⟨c, hc, hmem⟩))

/-- A writer that writes `hi` and leaves. -/
theorem fifo_printed_hi :
    ∃ s : System, s.outcome = some .closed ∧ s.fifo.sent = [104, 105] ∧
      ∃ chunks : List Bytes, (∀ c ∈ chunks, c ≠ [] ∧ c.length ≤ 254) ∧
        s.output = (chunks.map readLine).flatten ∧ chunks.flatten <+: s.fifo.sent ∧
        (s.outcome = some .closed ∨ s.outcome = some .failed → chunks.flatten = s.fifo.sent) ∧
        (0 ∉ s.fifo.sent → ∀ c ∈ chunks, readLine c = ascii "Read: " ++ c ++ ascii "\n") := by
  have h0 : Reachable .start := .refl
  have h1 := h0.tail .opens
  have h2 := h1.tail (.writes [104, 105] (by decide) nofun)
  have h3 := h2.tail (.called rfl (.inl nofun))
  have h4 := h3.tail (.read rfl nofun)
  have h5 := h4.tail (.closes (by decide))
  have h6 := h5.tail (.called rfl (.inr rfl))
  have h7 := h6.tail (.readEnd rfl rfl rfl)
  exact ⟨_, rfl, rfl, fifo_printed h7⟩

end UnixNet.Libevent.EventReadFifo
