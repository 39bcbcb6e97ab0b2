import UnixNet.Wrap.Readline

/-!
# Successive `Readline` calls split the stream

`readlines` calls `Readline` with one buffer size after another until a call returns 0. On a
stream that ends in end of file its lines are those of `cut`, whatever the results of the
single `read` calls were: the look-ahead buffer is not visible to the caller.
-/

namespace UnixNet.Wrap

open NetLib

/-- Call `Readline` once for each buffer size, until a call returns 0 or fails. The flag says
whether a call returned 0, that is, whether end of file was reached. -/
def readlines : List Nat → Reader → List Line × Bool
  | [], _ => ([], false)
  | maxlen :: rest, r =>
      let (line, next) := readline maxlen r
      if line.ret ≤ 0 then ([], line.ret = 0)
      else
        let (lines, eof) := readlines rest next
        (line :: lines, eof)

/-- A call that returns a positive number is followed by further calls. -/
theorem readlines_cons {maxlen : Nat} {rest : List Nat} {r : Reader}
    (h : 0 < (readline maxlen r).1.ret) :
    readlines (maxlen :: rest) r =
      ((readline maxlen r).1 :: (readlines rest (readline maxlen r).2).1,
        (readlines rest (readline maxlen r).2).2) := by
  have hret : ¬ (readline maxlen r).1.ret ≤ 0 := by omega
  simp only [readlines, hret, if_false]

/-- What a reader of a plain source hands out, and what it keeps, make up what it had. -/
theorem Reader.Took.avail_eq {r next : Reader} {line : Bytes} (h : r.Took next line)
    (hplain : r.src.Plain) : r.avail = line ++ next.avail := by
  obtain ⟨got, hgot, hline⟩ := h
  rw [Reader.avail, hplain.ready_of_delivered hgot, ← List.append_assoc, hline,
    List.append_assoc, Reader.avail]

/-- A reader of a plain source reads a plain source all along, with the same ending. -/
theorem Reader.Took.plain {r next : Reader} {line : Bytes} (h : r.Took next line)
    (hplain : r.src.Plain) : next.src.Plain ∧ next.src.ending = r.src.ending := by
  obtain ⟨got, hgot, -⟩ := h
  refine ⟨hplain.of_delivered hgot, ?_⟩
  obtain ⟨-, -, -, hending⟩ := hgot
  exact hending.symm

/-- Dropping the first line is what a reader of a plain source does. -/
theorem readline_avail (maxlen : Nat) {r : Reader} (hplain : r.src.Plain) :
    (readline maxlen r).2.avail = dropLine isNewline (maxlen - 1) r.avail := by
  have hsplit := (readline_took maxlen r).avail_eq hplain
  have hcut := take_line_append_drop_line isNewline (maxlen - 1) r.avail
  rw [readline_line] at hsplit
  exact List.append_cancel_left (hsplit.symm.trans hcut.symm)

/-- `Readline` returns a positive number as long as a stream that ends in end of file goes on. -/
theorem readline_ret_pos (maxlen : Nat) {r : Reader} (hplain : r.src.Plain)
    (hend : r.src.ending = .eof) (h : r.avail ≠ []) : 0 < (readline maxlen r).1.ret := by
  have hstop : r.src.stop = .eof := hplain.stop_eq.trans hend
  cases hline : lineComplete isNewline (maxlen - 1) r.avail with
  | true =>
      rw [(readline_complete hline).1]
      show 0 < 1 + _
      omega
  | false =>
      rw [readline_incomplete hline, hstop]
      simpa [List.length_pos_iff] using h

/-- At end of file `Readline` stores nothing and returns 0. -/
theorem readline_eof {maxlen : Nat} {r : Reader} (hlen : 2 ≤ maxlen) (hplain : r.src.Plain)
    (hend : r.src.ending = .eof) (h : r.avail = []) : (readline maxlen r).1 = ⟨0, []⟩ := by
  obtain ⟨left, hleft⟩ : ∃ left, maxlen - 1 = left + 1 := ⟨maxlen - 2, by omega⟩
  have hincomplete : lineComplete isNewline (maxlen - 1) r.avail = false := by
    rw [h, hleft, lineComplete]
  rw [readline_incomplete hincomplete, hplain.stop_eq.trans hend, h]
  rfl

/-- The lines of a reader are the cut of what it has in store. -/
theorem readlines_stored {maxlens : List Nat} {r : Reader} (hlens : ∀ m ∈ maxlens, 2 ≤ m)
    (hplain : r.src.Plain) (hend : r.src.ending = .eof) :
    (readlines maxlens r).1.map Line.stored = cut isNewline (maxlens.map (· - 1)) r.avail := by
  induction maxlens generalizing r with
  | nil => rfl
  | cons maxlen rest ih =>
      obtain ⟨hnextPlain, hnextEnd⟩ := (readline_took maxlen r).plain hplain
      have hrest := ih (fun m hm => hlens m (by simp [hm])) hnextPlain (hnextEnd.trans hend)
      cases havail : r.avail with
      | nil =>
          have heof := readline_eof (hlens maxlen (by simp)) hplain hend havail
          simp [readlines, heof]
      | cons c cs =>
          have hpos := readline_ret_pos maxlen hplain hend (havail ▸ List.cons_ne_nil c cs)
          rw [readline_avail maxlen hplain, havail] at hrest
          rw [readlines_cons hpos]
          simp only [List.map_cons, hrest, readline_line, havail, cut]

/-- With more calls than the stream has bytes, some call returns 0. -/
theorem readlines_eof {maxlens : List Nat} {r : Reader} (hlens : ∀ m ∈ maxlens, 2 ≤ m)
    (hplain : r.src.Plain) (hend : r.src.ending = .eof) (hlong : r.avail.length < maxlens.length) :
    (readlines maxlens r).2 = true := by
  induction maxlens generalizing r with
  | nil => simp at hlong
  | cons maxlen rest ih =>
      obtain ⟨hnextPlain, hnextEnd⟩ := (readline_took maxlen r).plain hplain
      have hlen := hlens maxlen (by simp)
      by_cases havail : r.avail = []
      · have heof := readline_eof hlen hplain hend havail
        simp [readlines, heof]
      · have hpos := readline_ret_pos maxlen hplain hend havail
        have hlt : (readline maxlen r).2.avail.length < r.avail.length := by
          rw [readline_avail maxlen hplain]
          exact length_drop_line_lt isNewline (by omega) havail
        rw [List.length_cons] at hlong
        rw [readlines_cons hpos]
        exact ih (fun m hm => hlens m (by simp [hm])) hnextPlain (hnextEnd.trans hend) (by omega)

/-- Buffered line reading is unbuffered line splitting: on a stream that ends in end of file the
stored strings are the stream cut after each newline and after each `maxlen - 1` bytes without
one, however `read` splits the stream. Once there were more calls than bytes, end of file has been
reached and the strings, joined, are the stream. -/
theorem readlines_eq_cut (chunks : List (Option (Chunk UInt8 100))) (maxlens : List Nat)
    (hlens : ∀ m ∈ maxlens, 2 ≤ m) :
    let lines := readlines maxlens ⟨.initial, .ofStream chunks .eof⟩
    lines.1.map Line.stored = cut isNewline (maxlens.map (· - 1)) (streamData chunks) ∧
      (∀ other : List (Option (Chunk UInt8 100)), streamData other = streamData chunks →
        (readlines maxlens ⟨.initial, .ofStream other .eof⟩).1.map Line.stored =
          lines.1.map Line.stored) ∧
      (lines.1.map Line.stored).flatten <+: streamData chunks ∧
      ((streamData chunks).length < maxlens.length →
        lines.2 = true ∧ (lines.1.map Line.stored).flatten = streamData chunks) := by
  have hstored : ∀ stream : List (Option (Chunk UInt8 100)),
      (readlines maxlens ⟨.initial, .ofStream stream .eof⟩).1.map Line.stored =
        cut isNewline (maxlens.map (· - 1)) (streamData stream) := by
    intro stream
    rw [readlines_stored hlens (Source.of_stream_plain stream .eof) rfl, Reader.avail,
      ReadBuffer.unread_initial, List.nil_append, Source.of_stream_ready]
  refine ⟨hstored chunks, ?_, ?_, ?_⟩
  · intro other hsame
    rw [hstored other, hstored chunks, hsame]
  · show (_ : List Bytes).flatten <+: streamData chunks
    rw [hstored chunks]
    exact cut_flatten_prefix_self isNewline _ _
  · intro hlong
    constructor
    · refine readlines_eof hlens (Source.of_stream_plain chunks .eof) rfl ?_
      rwa [Reader.avail, ReadBuffer.unread_initial, List.nil_append, Source.of_stream_ready]
    · rw [hstored chunks]
      refine cut_flatten ?_ (by rw [List.length_map]; omega)
      intro k hk
      obtain ⟨m, hm, rfl⟩ := List.mem_map.mp hk
      have := hlens m hm
      omega

/-- The stream `a`, newline, `c` in two chunks, with an EINTR failure between them. -/
def twoChunks : List (Option (Chunk UInt8 100)) :=
  [some ⟨[97], by decide, by decide⟩, none, some ⟨[10, 99], by decide, by decide⟩]

/-- Its two lines, read with buffers of three bytes. -/
theorem readlines_two_chunks :
    let lines := readlines [3, 3, 3, 3] ⟨.initial, .ofStream twoChunks .eof⟩
    lines.1.map Line.stored = cut isNewline ([3, 3, 3, 3].map (· - 1)) (streamData twoChunks) ∧
      (∀ other : List (Option (Chunk UInt8 100)), streamData other = streamData twoChunks →
        (readlines [3, 3, 3, 3] ⟨.initial, .ofStream other .eof⟩).1.map Line.stored =
          lines.1.map Line.stored) ∧
      (lines.1.map Line.stored).flatten <+: streamData twoChunks ∧
      ((streamData twoChunks).length < [3, 3, 3, 3].length →
        lines.2 = true ∧ (lines.1.map Line.stored).flatten = streamData twoChunks) :=
  readlines_eq_cut twoChunks [3, 3, 3, 3] (by decide)

end UnixNet.Wrap
