import Mathlib.Data.List.Basic
import Mathlib.Data.List.Infix
import Mathlib.Tactic.Common

/-!
# A channel between two parties

A first-in first-out channel of elements of any type, with one end that puts elements in and can be
closed, and one that takes them out. A `Pipe` also knows the whole of what was put in (`sent`) and
of what was taken out (`received`), and carries the law of the channel: nothing is lost,
duplicated or reordered.
-/

namespace NetLib

/-- A channel. `queue` are the elements on their way. -/
structure Pipe (α : Type*) where
  sent : List α
  received : List α
  queue : List α
  closed : Bool
  fifo : sent = received ++ queue

variable {α : Type*}

/-- A channel that was not used yet. -/
def Pipe.empty : Pipe α where
  sent := []
  received := []
  queue := []
  closed := false
  fifo := rfl

/-- Put elements in. -/
def Pipe.put (p : Pipe α) (xs : List α) : Pipe α where
  sent := p.sent ++ xs
  received := p.received
  queue := p.queue ++ xs
  closed := p.closed
  fifo := by rw [p.fifo, List.append_assoc]

/-- Take the first `k` elements out. -/
def Pipe.get (p : Pipe α) (k : Nat) : List α × Pipe α :=
  (p.queue.take k,
    { sent := p.sent
      received := p.received ++ p.queue.take k
      queue := p.queue.drop k
      closed := p.closed
      fifo := by rw [List.append_assoc, List.take_append_drop, p.fifo] })

/-- Close the end that puts elements in. -/
def Pipe.close (p : Pipe α) : Pipe α :=
  { p with closed := true }

/-- What was taken out is the beginning of what was put in. -/
theorem Pipe.received_prefix_sent (p : Pipe α) : p.received <+: p.sent :=
  ⟨p.queue, p.fifo.symm⟩

/-- Everything put in was taken out or is on its way. -/
theorem Pipe.length_sent (p : Pipe α) : p.sent.length = p.received.length + p.queue.length := by
  rw [p.fifo, List.length_append]

/-- When as many elements were taken out as a text has whose beginning was put in, the whole text
was. -/
theorem Pipe.received_eq {p : Pipe α} {text : List α} (hsent : p.sent <+: text)
    (hlength : p.received.length = text.length) : p.received = text :=
  (p.received_prefix_sent.trans hsent).eq_of_length hlength

/-- While whole records are on their way, as many elements as a record has are the first record. -/
theorem Pipe.get_record {p : Pipe α} {record : List α} {rest : List (List α)}
    (h : p.queue = (record :: rest).flatten) :
    (p.get record.length).1 = record ∧ (p.get record.length).2.queue = rest.flatten := by
  rw [List.flatten_cons] at h
  have htake : p.queue.take record.length = record := by rw [h, List.take_left]
  have hdrop : p.queue.drop record.length = rest.flatten := by rw [h, List.drop_left]
  exact ⟨htake, hdrop⟩

end NetLib
