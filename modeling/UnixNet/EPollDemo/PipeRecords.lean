import UnixNet.Lib.JsNumber
import UnixNet.Lib.Pipe

/-!
# Records over a pipe

`test.c` forks a child that writes the same record of 128 bytes into a pipe over and over, and a
parent that waits with `epoll_wait` and prints what one `read` of 128 bytes returns. A pipe keeps no
boundaries, but a write of that size is atomic, so that whole records are on their way at any time.
`records_whole` says what the parent prints.
-/

namespace UnixNet.EPollDemo.Demo01

open NetLib

/-- `sizeof(buf)` -/
def bufSize : Nat := 128

/-- The buffer of the child. -/
def record : Bytes :=
  overwrite (ascii "Child Write Data") (zeros bufSize)

/-- What the parent writes behind a record, with the NUL that `sizeof` counts. -/
def lineEnd : Bytes := [10, 0]

/-- What the parent writes when it ends. -/
def closingText : Bytes :=
  utf8 "所监听的描述符关闭\n".toList ++ [0]

/-- Where the parent is: in `epoll_wait`, in `read`, or behind its loop. -/
inductive ParentPoint where
  | waiting
  | reading
  | ended
  deriving DecidableEq

/-- Both processes. The pipe is closed when the child is gone; `output` is what the parent has
written to the terminal. -/
structure System where
  pipe : Pipe UInt8
  parent : ParentPoint
  output : Bytes

/-- Both processes in front of their loops. -/
def System.start : System :=
  ⟨.empty, .waiting, []⟩

/-- The parent writes its last line. -/
def System.finish (s : System) : System :=
  { s with parent := .ended, output := s.output ++ closingText }

/-- What happens. A pipe has room for `capacity` bytes; a write that does not fit waits, and one
that nobody will read kills the child. -/
inductive Step (capacity : Nat) : System → System → Prop
  | write {s} : s.pipe.closed = false → s.parent ≠ .ended →
      s.pipe.queue.length + record.length ≤ capacity →
      Step capacity s { s with pipe := s.pipe.put record }
  | childEnds {s} : Step capacity s { s with pipe := s.pipe.close }
  | wait {s} : s.parent = .waiting → s.pipe.queue ≠ [] ∨ s.pipe.closed = true →
      Step capacity s { s with parent := .reading }
  | read {s} : s.parent = .reading → s.pipe.queue ≠ [] →
      Step capacity s { s with
        parent := .waiting
        pipe := (s.pipe.get bufSize).2
        output := s.output ++ overwrite (s.pipe.get bufSize).1 (zeros bufSize) ++ lineEnd }
  | readEnd {s} : s.parent = .reading → s.pipe.queue = [] → s.pipe.closed = true →
      Step capacity s s.finish
  | readFails {s} : s.parent = .reading → Step capacity s s.finish

/-- The states that both processes can get into. -/
def Reachable (capacity : Nat) : System → Prop :=
  Relation.ReflTransGen (Step capacity) .start

variable {capacity : Nat} {s s' : System}

theorem length_zeros : (zeros bufSize).length = bufSize :=
  List.length_replicate

theorem length_record : record.length = bufSize := by
  have htext : (ascii "Child Write Data").length ≤ bufSize := by decide
  rw [record, length_overwrite, length_zeros]
  rw [length_zeros]
  exact htext

/-- A record fills the buffer of the parent. -/
theorem overwrite_record : overwrite record (zeros bufSize) = record := by
  rw [overwrite, length_record, List.drop_eq_nil_of_le length_zeros.le, List.append_nil]

/-- The text that is printed after a number of records. -/
def recordLines (printed : Nat) : Bytes :=
  (List.replicate printed (record ++ lineEnd)).flatten

/-- The records that were printed, and those that are on their way. -/
structure Aligned (capacity : Nat) (s : System) (printed waiting : Nat) : Prop where
  sent : s.pipe.sent = (List.replicate (printed + waiting) record).flatten
  queue : s.pipe.queue = (List.replicate waiting record).flatten
  fits : waiting * bufSize ≤ capacity
  output : s.output = recordLines printed ++ if s.parent = .ended then closingText else []

/-- One more record. -/
theorem flatten_replicate_succ (n : Nat) (text : Bytes) :
    (List.replicate (n + 1) text).flatten = (List.replicate n text).flatten ++ text := by
  rw [List.replicate_succ', List.flatten_append, List.flatten_singleton]

theorem length_flatten_replicate (n : Nat) (text : Bytes) :
    (List.replicate n text).flatten.length = n * text.length := by
  rw [List.length_flatten, List.map_replicate, List.sum_replicate_nat]

/-- Every step moves whole records. -/
theorem Aligned.step {printed waiting : Nat} (h : Aligned capacity s printed waiting)
    (hstep : Step capacity s s') : ∃ printed waiting, Aligned capacity s' printed waiting := by
  have houtput := h.output
  cases hstep with
  | write hopen hparent hroom =>
      refine ⟨printed, waiting + 1, ?_, ?_, ?_, houtput⟩
      · rw [← Nat.add_assoc, flatten_replicate_succ, ← h.sent]
        rfl
      · rw [flatten_replicate_succ, ← h.queue]
        rfl
      · rw [h.queue, length_flatten_replicate, length_record] at hroom
        rw [Nat.succ_mul]
        exact hroom
  | childEnds => exact ⟨printed, waiting, h.sent, h.queue, h.fits, houtput⟩
  | wait hpoint =>
      rw [hpoint] at houtput
      exact ⟨printed, waiting, h.sent, h.queue, h.fits, houtput⟩
  | read hpoint hsome =>
      rw [hpoint] at houtput
      cases waiting with
      | zero => exact absurd h.queue hsome
      | succ waiting =>
          have hqueue := h.queue
          rw [List.replicate_succ] at hqueue
          obtain ⟨hfirst, hrest⟩ := Pipe.get_record hqueue
          rw [length_record] at hfirst hrest
          refine ⟨printed + 1, waiting, ?_, hrest, ?_, ?_⟩
          · rw [Nat.add_right_comm]
            exact h.sent
          · exact (Nat.mul_le_mul_right bufSize (Nat.le_succ waiting)).trans h.fits
          · show s.output ++ overwrite (s.pipe.get bufSize).1 (zeros bufSize) ++ lineEnd = _
            rw [hfirst, overwrite_record, houtput, recordLines, recordLines, flatten_replicate_succ]
            simp
  | readEnd hpoint =>
      rw [hpoint] at houtput
      refine ⟨printed, waiting, h.sent, h.queue, h.fits, ?_⟩
      rw [System.finish, houtput]
      simp
  | readFails hpoint =>
      rw [hpoint] at houtput
      refine ⟨printed, waiting, h.sent, h.queue, h.fits, ?_⟩
      rw [System.finish, houtput]
      simp

/-- Whatever the order in which the processes run, every record is printed whole and once, and those
that the parent has not printed are on their way. -/
theorem records_whole (h : Reachable capacity s) :
    ∃ printed waiting, s.pipe.sent = (List.replicate (printed + waiting) record).flatten ∧
      s.pipe.queue = (List.replicate waiting record).flatten ∧ waiting * bufSize ≤ capacity ∧
        s.output = recordLines printed ++ if s.parent = .ended then closingText else [] := by
  have haligned : ∃ printed waiting, Aligned capacity s printed waiting := by
    induction h with
    | refl => exact ⟨0, 0, rfl, rfl, (Nat.zero_mul bufSize).le.trans (Nat.zero_le capacity), rfl⟩
    | tail _ hstep ih =>
        obtain ⟨printed, waiting, haligned⟩ := ih
        exact haligned.step hstep
  obtain ⟨printed, waiting, hsent, hqueue, hfits, houtput⟩ := haligned
  exact ⟨printed, waiting, hsent, hqueue, hfits, houtput⟩

/-- A record is written, and read before the child writes the next one. -/
theorem record_printed : ∃ s, Reachable 65536 s ∧ s.pipe.sent = record ∧
    s.parent = .waiting := by
  have hempty : System.start.pipe.queue = [] := rfl
  have hroom : System.start.pipe.queue.length + record.length ≤ 65536 := by
    rw [hempty, List.length_nil, length_record]
    decide
  have hsome : record ≠ [] := by
    rw [← List.length_pos_iff, length_record]
    decide
  have hstart : Reachable 65536 .start := .refl
  have hwrite := hstart.tail (.write rfl nofun hroom)
  have hwait := hwrite.tail (.wait rfl (.inl hsome))
  have hread := hwait.tail (.read rfl hsome)
  exact ⟨_, hread, rfl, rfl⟩

theorem records_whole_one_record : ∃ s, Reachable 65536 s ∧ s.pipe.sent = record ∧
    ∃ printed, s.output = recordLines printed := by
  obtain ⟨s, hrun, hsent, hparent⟩ := record_printed
  obtain ⟨printed, waiting, -, -, -, houtput⟩ := records_whole hrun
  rw [hparent] at houtput
  exact ⟨s, hrun, hsent, printed, by simpa using houtput⟩

end UnixNet.EPollDemo.Demo01
