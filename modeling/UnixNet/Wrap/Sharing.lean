import Mathlib.Logic.Function.Basic
import UnixNet.Wrap.Splitting

/-!
# `Readline` on several descriptors

The static buffer of `my_read` belongs to no descriptor: what one call read ahead, the next call
hands out, whatever its descriptor is. `Shared` is the buffer with the sources behind all
descriptors, and `runCalls` a sequence of calls of `Readline` on any of them. The strings of a
descriptor come from its own stream if the buffer is used up whenever a call is about another
descriptor than the call before (`strings_prefix`), and not always otherwise.
-/

namespace UnixNet.Wrap

open NetLib

/-- The static buffer, and the sources behind the descriptors. -/
structure Shared where
  rb : ReadBuffer
  sources : Nat → Source UInt8 100

/-- The process before its first call, with a stream behind each descriptor. -/
def Shared.start (streams : Nat → List (Option (Chunk UInt8 100))) (endings : Nat → Ending) :
    Shared where
  rb := .initial
  sources fd := .ofStream (streams fd) (endings fd)

/-- What `Readline` on a descriptor works on. -/
def Shared.reader (s : Shared) (fd : Nat) : Reader :=
  ⟨s.rb, s.sources fd⟩

/-- `Readline(fd, vptr, maxlen)` -/
def Shared.call (s : Shared) (fd maxlen : Nat) : Line × Shared :=
  ((readline maxlen (s.reader fd)).1,
    { rb := (readline maxlen (s.reader fd)).2.rb
      sources := Function.update s.sources fd (readline maxlen (s.reader fd)).2.src })

/-- A sequence of calls, each on a descriptor and with a buffer size, and what they return. -/
def runCalls : Shared → List (Nat × Nat) → List (Nat × Line)
  | _, [] => []
  | s, (fd, maxlen) :: rest => (fd, (s.call fd maxlen).1) :: runCalls (s.call fd maxlen).2 rest

/-- The string of a call on a descriptor that did not fail. -/
def stringOf (fd : Nat) (result : Nat × Line) : Bytes :=
  if result.1 = fd ∧ 0 ≤ result.2.ret then result.2.stored else []

/-- The strings that the calls return for a descriptor, one behind the other. -/
def strings (fd : Nat) (results : List (Nat × Line)) : Bytes :=
  results.flatMap (stringOf fd)

/-- When a call is about another descriptor than the call before, nothing is left in the buffer.
`last` is the descriptor of the call before. -/
def SwitchesDrained : Option Nat → Shared → List (Nat × Nat) → Prop
  | _, _, [] => True
  | last, s, (fd, maxlen) :: rest =>
      (last = some fd ∨ s.rb.readCnt ≤ 0) ∧ SwitchesDrained (some fd) (s.call fd maxlen).2 rest

/-- What the calls to come can get from the stream of a descriptor: the bytes read ahead, if the
last call was about it, and what its source hands over next. -/
def Shared.avail (s : Shared) (last : Option Nat) (fd : Nat) : Bytes :=
  (if last = some fd then s.rb.unread else []) ++ (s.sources fd).ready

/-- A failing call has taken all there was. -/
theorem readline_failed {maxlen : Nat} {r : Reader} (hplain : r.src.Plain)
    (h : (readline maxlen r).1.ret < 0) : (readline maxlen r).2.avail = [] := by
  have hsplit := (readline_took maxlen r).avail_eq hplain
  cases hline : lineComplete isNewline (maxlen - 1) r.avail with
  | true =>
      rw [(readline_complete hline).1] at h
      simp only at h
      omega
  | false =>
      have hstored : (readline maxlen r).1.stored = r.avail := by
        rw [readline_incomplete hline]
      rw [hstored] at hsplit
      exact List.self_eq_append_right.mp hsplit

/-- A call on another descriptor does not change what a descriptor can get. -/
theorem Shared.avail_call_of_ne {s : Shared} {last : Option Nat} {fd d maxlen : Nat} (hne : d ≠ fd)
    (h : last = some fd ∨ s.rb.readCnt ≤ 0) :
    (s.call fd maxlen).2.avail (some fd) d = s.avail last d := by
  have hsource : (s.call fd maxlen).2.sources d = s.sources d := Function.update_of_ne hne _ _
  have hself : ¬ some fd = some d := fun heq => hne (Option.some.inj heq).symm
  rw [avail, avail, hsource, if_neg hself]
  congr 1
  split
  · next hlast =>
      rcases h with h | h
      · exact absurd (h.symm.trans hlast) hself
      · rw [ReadBuffer.unread_of_cnt_nonpos h]
  · rfl

/-- A call on a descriptor that read ahead itself, or finds nothing read ahead, takes the stored
bytes off what the descriptor can get. -/
theorem Shared.avail_call_self {s : Shared} {last : Option Nat} {fd : Nat} (maxlen : Nat)
    (hplain : (s.sources fd).Plain) (h : last = some fd ∨ s.rb.readCnt ≤ 0) :
    s.avail last fd = (s.call fd maxlen).1.stored ++ (s.call fd maxlen).2.avail (some fd) fd ∧
      ((s.call fd maxlen).1.ret < 0 → (s.call fd maxlen).2.avail (some fd) fd = []) := by
  have hbefore : s.avail last fd = (s.reader fd).avail := by
    rw [avail, Reader.avail]
    rcases h with h | h
    · rw [if_pos h]
      rfl
    · have hunread := ReadBuffer.unread_of_cnt_nonpos h
      show _ = s.rb.unread ++ _
      rw [hunread, ite_self]
      rfl
  have hafter : (s.call fd maxlen).2.avail (some fd) fd =
      (readline maxlen (s.reader fd)).2.avail := by
    have hsource : (s.call fd maxlen).2.sources fd = (readline maxlen (s.reader fd)).2.src :=
      Function.update_self _ _ _
    rw [avail, if_pos rfl, hsource]
    rfl
  rw [hbefore, hafter]
  exact ⟨(readline_took maxlen (s.reader fd)).avail_eq hplain, readline_failed hplain⟩

/-- All sources stay plain. -/
theorem Shared.plain_call {s : Shared} {fd maxlen : Nat} (h : ∀ d, (s.sources d).Plain) (d : Nat) :
    ((s.call fd maxlen).2.sources d).Plain := by
  by_cases hd : d = fd
  · rw [hd]
    show (Function.update s.sources fd _ fd).Plain
    rw [Function.update_self]
    exact ((readline_took maxlen (s.reader fd)).plain (h fd)).1
  · show (Function.update s.sources fd _ d).Plain
    rw [Function.update_of_ne hd]
    exact h d

/-- The strings of a descriptor are a beginning of what it can get. -/
theorem strings_prefix_avail {s : Shared} {last : Option Nat} {calls : List (Nat × Nat)}
    (hplain : ∀ d, (s.sources d).Plain) (h : SwitchesDrained last s calls) (fd : Nat) :
    strings fd (runCalls s calls) <+: s.avail last fd := by
  induction calls generalizing s last with
  | nil => exact List.nil_prefix
  | cons call rest ih =>
      obtain ⟨d, maxlen⟩ := call
      obtain ⟨hswitch, hrest⟩ := h
      have hnext := ih (Shared.plain_call hplain) hrest
      show stringOf fd (d, (s.call d maxlen).1) ++
        strings fd (runCalls (s.call d maxlen).2 rest) <+: s.avail last fd
      by_cases hd : d = fd
      · subst hd
        obtain ⟨havail, hfailed⟩ := Shared.avail_call_self maxlen (hplain d) hswitch
        by_cases hret : 0 ≤ (s.call d maxlen).1.ret
        · -- the line comes off the front of what the descriptor can get
          rw [stringOf, if_pos ⟨rfl, hret⟩, havail]
          exact (List.prefix_append_right_inj _).mpr hnext
        · -- nothing is left after a call that failed
          have hnil : strings d (runCalls (s.call d maxlen).2 rest) = [] := by
            rw [hfailed (by omega)] at hnext
            exact List.prefix_nil.mp hnext
          rw [stringOf, if_neg (fun hboth => hret hboth.2), hnil]
          exact List.nil_prefix
      · -- a call on another descriptor, which finds nothing of this one in the buffer
        rw [Shared.avail_call_of_ne (Ne.symm hd) hswitch] at hnext
        rw [stringOf, if_neg (fun hboth => hd hboth.1)]
        exact hnext

/-- In a sequence of calls that uses up the buffer before it turns to another descriptor, the
strings of each descriptor are a beginning of its own stream. -/
theorem strings_prefix (streams : Nat → List (Option (Chunk UInt8 100))) (endings : Nat → Ending)
    {calls : List (Nat × Nat)} (h : SwitchesDrained none (.start streams endings) calls)
    (fd : Nat) :
    strings fd (runCalls (.start streams endings) calls) <+: streamData (streams fd) := by
  have hplain : ∀ d, ((Shared.start streams endings).sources d).Plain :=
    fun d => Source.of_stream_plain (streams d) (endings d)
  have havail : (Shared.start streams endings).avail none fd = streamData (streams fd) := by
    show [] ++ (Source.ofStream (streams fd) (endings fd)).ready = _
    rw [List.nil_append, Source.of_stream_ready]
  rw [← havail]
  exact strings_prefix_avail hplain h fd

/-- A call that finds bytes read ahead hands them out, whichever descriptor they were read from. -/
theorem call_of_unread {s : Shared} {c : UInt8} {unread : Bytes} (fd : Nat) {maxlen : Nat}
    (hlen : 2 ≤ maxlen) (h : s.rb.unread = c :: unread) :
    ∃ more, (s.call fd maxlen).1.stored = c :: more := by
  obtain ⟨left, hleft⟩ : ∃ left, maxlen - 1 = left + 1 := ⟨maxlen - 2, by omega⟩
  have hstored := readline_line maxlen (s.reader fd)
  have havail : (s.reader fd).avail = c :: (unread ++ (s.sources fd).ready) := by
    show s.rb.unread ++ _ = _
    rw [h, List.cons_append]
    rfl
  rw [havail, hleft, take_line_cons] at hstored
  split at hstored
  · exact ⟨[], hstored⟩
  · exact ⟨_, hstored⟩

/-- Two lines that arrive at once on descriptor 3, and one line on every other descriptor. -/
def twoLinesOnThree (fd : Nat) : List (Option (Chunk UInt8 100)) :=
  if fd = 3 then [some ⟨ascii "a\nb\n", by decide, by decide⟩]
  else [some ⟨ascii "c\n", by decide, by decide⟩]

/-- Reading descriptor 3 to its end before turning to descriptor 4 keeps the two apart. -/
theorem strings_prefix_drained :
    strings 4 (runCalls (.start twoLinesOnThree fun _ => .eof)
      [(3, 100), (3, 100), (3, 100), (4, 100)]) <+: streamData (twoLinesOnThree 4) :=
  strings_prefix twoLinesOnThree (fun _ => .eof) (by simp only [SwitchesDrained]; decide) 4

/-- Reading one line of descriptor 3 and then one of descriptor 4 returns the second line of
descriptor 3 for descriptor 4. -/
theorem strings_not_prefix :
    ¬ ∀ fd, strings fd (runCalls (.start twoLinesOnThree fun _ => .eof) [(3, 100), (4, 100)]) <+:
      streamData (twoLinesOnThree fd) := by
  intro h
  exact absurd (h 4) (by decide)

end UnixNet.Wrap
