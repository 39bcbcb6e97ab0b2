import UnixNet.Wrap.Readline

/-!
# What the return value of `Readline` counts

The counter of `Readline` starts at 1 and is returned at three places. At a newline and at the end
of the stream it is the number of bytes in the buffer. When the loop comes to the end of the buffer
it is one more (`readline_counts_iff`).
-/

namespace UnixNet.Wrap

open NetLib

/-- The caller's buffer `buf` after `Readline(fd, buf, maxlen)`: the bytes that were stored, and a
terminator behind them unless the call failed. -/
def readlineInto (maxlen : Nat) (r : Reader) (buf : Bytes) : Bytes :=
  let line := (readline maxlen r).1
  if 0 ≤ line.ret then overwrite (line.stored ++ [0]) buf else overwrite line.stored buf

/-- A call that does not fail has put as many bytes into the buffer as it returns, and a NUL behind
them; these bytes, and no others, were taken from the stream, and there is room for them. -/
def CountsStored (maxlen : Nat) (r : Reader) (buf : Bytes) : Prop :=
  0 ≤ (readline maxlen r).1.ret →
    ∃ line : Bytes, (line.length : Int) = (readline maxlen r).1.ret ∧ line.length + 1 ≤ maxlen ∧
      readlineInto maxlen r buf = line ++ 0 :: buf.drop (line.length + 1) ∧
      r.Took (readline maxlen r).2 line

/-- A newline comes before the buffer is full, or the stream stops before that. -/
def LineFits (maxlen : Nat) (r : Reader) : Prop :=
  maxlen - 1 ≤ r.avail.length → ∃ c ∈ r.avail.take (maxlen - 1), isNewline c = true

variable {maxlen : Nat} {r : Reader} {buf : Bytes}

/-- A return value that is the number of bytes stored. -/
theorem counts_stored_of_ret
    (hret : (readline maxlen r).1.ret = (readline maxlen r).1.stored.length)
    (hroom : (readline maxlen r).1.stored.length + 1 ≤ maxlen) : CountsStored maxlen r buf := by
  intro hnonneg
  refine ⟨(readline maxlen r).1.stored, hret.symm, hroom, ?_, readline_took maxlen r⟩
  rw [readlineInto, if_pos hnonneg, overwrite, List.length_append, List.append_assoc]
  rfl

/-- The line that is stored leaves room for its terminator. -/
theorem length_stored_lt (hmaxlen : 1 ≤ maxlen) :
    (readline maxlen r).1.stored.length + 1 ≤ maxlen := by
  have hle := length_take_line_le isNewline (maxlen - 1) r.avail
  rw [readline_line]
  omega

/-- `Readline` counts what it stored exactly if the line fits the buffer. For every reader, which is
every stream and every split of it into read results, and every buffer of at least one byte: when
the return value is not negative, the buffer holds that many bytes of the stream and a NUL behind
them, they fit into it, and they are what the call took from the stream, if and only if one of the
first `maxlen - 1` bytes is a newline, or the stream stops before there are so many. -/
theorem readline_counts_iff (maxlen : Nat) (r : Reader) (buf : Bytes) (hmaxlen : 1 ≤ maxlen) :
    CountsStored maxlen r buf ↔ LineFits maxlen r := by
  have hroom := length_stored_lt (r := r) hmaxlen
  unfold LineFits
  rw [← exists_mark_take_line_iff]
  cases hcomplete : lineComplete isNewline (maxlen - 1) r.avail with
  | false =>
      -- everything in store is stored, and that is less than the buffer takes
      have hline := readline_incomplete hcomplete
      have hshort := length_lt_of_incomplete hcomplete
      refine iff_of_true ?_ fun hge => absurd hge (Nat.not_le.mpr hshort)
      by_cases hstop : r.src.stop = .eof
      · refine counts_stored_of_ret ?_ hroom
        rw [hline, if_pos hstop]
      · intro hnonneg
        rw [hline, if_neg hstop] at hnonneg
        have hneg : (0 : Int) ≤ -1 := hnonneg
        omega
  | true =>
      obtain ⟨hline, -, -⟩ := readline_complete hcomplete
      by_cases hmark : ∃ c ∈ takeLine isNewline (maxlen - 1) r.avail, isNewline c = true
      · have hcount := count_unmarked hmark
        refine iff_of_true (counts_stored_of_ret ?_ hroom) fun _ => hmark
        rw [hline, ← hcount]
        push_cast
        rfl
      · -- the loop is exhausted, and the counter is one ahead
        obtain ⟨hlength, hcount⟩ := length_of_unmarked hcomplete hmark
        refine iff_of_false (fun hcounts => ?_) fun hfits => hmark (hfits ?_)
        · have hret : (readline maxlen r).1.ret = maxlen := by
            rw [hline, hcount]
            show 1 + ((maxlen - 1 : Nat) : Int) = maxlen
            omega
          obtain ⟨line, hlen, hfit, -⟩ := hcounts (by omega)
          omega
        · have hle := (take_line_prefix_self isNewline (maxlen - 1) r.avail).length_le
          omega

/-- A reader with the three bytes `abc`. -/
def threeBytes : Reader :=
  ⟨.initial, ⟨[.data ⟨ascii "abc", by decide, by decide⟩], .eof⟩⟩

/-- With room for four bytes and the terminator, the end of the stream comes in time. -/
theorem readline_counts_five : CountsStored 5 threeBytes (zeros 5) :=
  (readline_counts_iff 5 threeBytes (zeros 5) (by decide)).mpr fun h => absurd h (by decide)

/-- With room for three bytes and the terminator, three bytes are stored and four returned. -/
theorem readline_miscounts :
    ¬ ∀ (maxlen : Nat) (r : Reader) (buf : Bytes), 1 ≤ maxlen → CountsStored maxlen r buf := by
  intro h
  obtain ⟨line, hlen, hroom, -⟩ := h 4 threeBytes (zeros 4) (by decide) (by decide)
  have hret : (readline 4 threeBytes).1.ret = 4 := by decide
  omega

end UnixNet.Wrap
