import UnixNet.Wrap.Splitting

/-!
# Lines over a connection

One side writes lines one behind the other, each with a newline at its end, and closes. The other
side calls `Readline` until it returns 0. `readlines_lines` says that the calls give the lines, one
for each call, however `read` cuts the stream, if the buffer of each call has room for its line.
-/

namespace UnixNet.Wrap

open NetLib

/-- Lines as they are written. -/
def lineText (ls : List Bytes) : Bytes :=
  (ls.map fun l => l ++ [10]).flatten

/-- The line is one for which a buffer of that size has room: it has no newline in it, and with its
newline and the NUL it is no longer than the buffer. -/
def Fits (line : Bytes) (maxlen : Nat) : Prop :=
  10 ∉ line ∧ line.length + 2 ≤ maxlen

variable {line : Bytes} {maxlen : Nat} {r : Reader}

/-- The first line of a stream of lines. -/
theorem first_line (h : Fits line maxlen) (rest : Bytes) :
    lineComplete isNewline (maxlen - 1) (line ++ [10] ++ rest) = true ∧
      takeLine isNewline (maxlen - 1) (line ++ [10] ++ rest) = line ++ [10] := by
  obtain ⟨hnewline, hroom⟩ := h
  have hunmarked : ∀ c ∈ line, isNewline c = false := by
    intro c hc
    have hne : c ≠ 10 := fun heq => hnewline (heq ▸ hc)
    simpa [isNewline] using hne
  have hmarked : isNewline 10 = true := rfl
  have hlength : (line ++ [10]).length ≤ maxlen - 1 := by
    rw [List.length_append, List.length_singleton]
    omega
  obtain ⟨htake, hcomplete⟩ := take_line_append_mark hunmarked hmarked (maxlen - 1)
  rw [List.take_of_length_le hlength] at htake
  have hline := take_line_append hcomplete rest
  rw [htake] at hline
  exact ⟨line_complete_append hcomplete rest, hline⟩

/-- A line counts as its bytes and one for the newline. -/
theorem count_line (h : 10 ∉ line) :
    1 + (line ++ [10]).countP (!isNewline ·) = line.length + 1 := by
  have hall : line.countP (!isNewline ·) = line.length := by
    refine List.countP_eq_length.mpr fun c hc => ?_
    have hne : c ≠ 10 := fun heq => h (heq ▸ hc)
    simpa [isNewline] using hne
  have hlast : ([10] : Bytes).countP (!isNewline ·) = 0 := rfl
  rw [List.countP_append, hall, hlast]
  omega

/-- A call on a stream of lines gives the first one. -/
theorem readline_first (h : Fits line maxlen) {rest : Bytes}
    (havail : r.avail = line ++ [10] ++ rest) :
    (readline maxlen r).1 = ⟨line.length + 1, line ++ [10]⟩ ∧
      (readline maxlen r).2.avail = rest := by
  obtain ⟨hcomplete, htake⟩ := first_line h rest
  rw [← havail] at hcomplete htake
  obtain ⟨hline, hrest, -⟩ := readline_complete hcomplete
  have hcount := count_line h.1
  constructor
  · rw [hline, htake]
    congr 1
    omega
  · rw [hrest, dropLine, htake, havail, List.drop_left]

/-- The calls on a reader that has lines in store. -/
theorem readlines_lines_avail {ls : List Bytes} {maxlens : List Nat} {last : Nat}
    (h : List.Forall₂ Fits ls maxlens) (hlast : 2 ≤ last) (hplain : r.src.Plain)
    (hend : r.src.ending = .eof) (havail : r.avail = lineText ls) :
    readlines (maxlens ++ [last]) r = (ls.map fun l => ⟨l.length + 1, l ++ [10]⟩, true) := by
  induction h generalizing r with
  | nil =>
      have heof := readline_eof hlast hplain hend havail
      simp [readlines, heof]
  | @cons line maxlen ls maxlens hfits _ ih =>
      have hsplit : r.avail = line ++ [10] ++ lineText ls := havail
      obtain ⟨hline, hrest⟩ := readline_first hfits hsplit
      obtain ⟨hnextPlain, hnextEnd⟩ := (readline_took maxlen r).plain hplain
      have hpos : 0 < (readline maxlen r).1.ret := by
        rw [hline]
        exact Int.natCast_pos.mpr (Nat.succ_pos _)
      rw [List.cons_append, readlines_cons hpos, ih hnextPlain (hnextEnd.trans hend) hrest, hline,
        List.map_cons]

/-- The lines that are written are those that are read. Let any lines be written one behind the
other, and let `read` cut the stream as it likes, with any number of EINTR failures in between. If
the buffer of each call has room for its line, the calls of `Readline` give the lines with their
newlines, in order, and return their lengths, and the next call returns 0. -/
theorem readlines_lines {ls : List Bytes} {maxlens : List Nat} {last : Nat}
    (h : List.Forall₂ Fits ls maxlens) (hlast : 2 ≤ last)
    (chunks : List (Option (Chunk UInt8 100))) (hchunks : streamData chunks = lineText ls) :
    readlines (maxlens ++ [last]) ⟨.initial, .ofStream chunks .eof⟩ =
      (ls.map fun l => ⟨l.length + 1, l ++ [10]⟩, true) := by
  refine readlines_lines_avail h hlast (Source.of_stream_plain chunks .eof) rfl ?_
  rw [Reader.avail, ReadBuffer.unread_initial, List.nil_append, Source.of_stream_ready, hchunks]

/-- Two lines in two chunks, the first of which ends within the second line. -/
theorem readlines_lines_two :
    readlines ([3, 4] ++ [2]) ⟨.initial, .ofStream
        [some ⟨[97, 10, 98], by decide, by decide⟩, none, some ⟨[99, 10], by decide, by decide⟩]
        .eof⟩ =
      ([[97], [98, 99]].map fun l => ⟨l.length + 1, l ++ [10]⟩, true) :=
  readlines_lines (.cons ⟨by decide, by decide⟩ (.cons ⟨by decide, by decide⟩ .nil))
    (Nat.le_refl 2) _ rfl

end UnixNet.Wrap
