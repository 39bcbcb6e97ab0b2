import UnixNet.Lib.Lines
import UnixNet.Lib.Text

/-!
# `get_line`: lines with any terminator

`get_line` reads one line from a socket, one byte at a time, and hands it over with its
terminator LF, CR or CRLF replaced by LF; a CR is told from a CRLF by peeking at the next byte.
`normalize` is what that does to a whole stream, and successive calls return the lines of the
normalized stream (`get_lines_eq_cut`).
-/

namespace UnixNet.Pub

open NetLib

/-- What is left of the socket's bytes after the look at the byte behind a CR: an LF there is
consumed, anything else stays. -/
def dropLf : Bytes → Bytes
  | [] => []
  | c :: sock => if c = 10 then sock else c :: sock

/-- The loop of `get_line` with `left = size - 1 - i` rounds to go: the line in the buffer, and
what is left of the socket's bytes. A `recv` at the end of the stream returns 0. -/
def getLineLoop : Nat → Bytes → Bytes → Bytes × Bytes
  | 0, line, sock => (line, sock)
  | _ + 1, line, [] => (line, [])
  | left + 1, line, c :: sock =>
      if c = 13 then (line ++ [10], dropLf sock)
      else if c = 10 then (line ++ [10], sock)
      else getLineLoop left (line ++ [c]) sock

/-- The result of a call of `get_line`: the returned number, and the buffer. -/
structure GetLine where
  ret : Nat
  buf : Bytes
  deriving DecidableEq

/-- `get_line(sock, buf, size)` on a socket whose remaining bytes are `sock`. -/
def getLine (sock buf : Bytes) (size : Nat) : GetLine × Bytes :=
  let (line, rest) := getLineLoop (size - 1) [] sock
  (⟨line.length, overwrite (line ++ [0]) buf⟩, rest)

/-- Successive calls with one buffer, at most `calls` of them, up to the first that returns 0. -/
def getLines : Nat → Bytes → Bytes → Nat → List GetLine
  | 0, _, _, _ => []
  | calls + 1, sock, buf, size =>
      let call := getLine sock buf size
      if call.1.ret = 0 then [call.1] else call.1 :: getLines calls call.2 call.1.buf size

/-- The string a call handed over. -/
def GetLine.text (line : GetLine) : Bytes :=
  line.buf.take line.ret

/-- A stream with every CRLF and every lone CR replaced by LF. -/
def normalize : Bytes → Bytes
  | [] => []
  | [c] => [if c = 13 then 10 else c]
  | c :: d :: rest =>
      if c = 13 ∧ d = 10 then 10 :: normalize rest
      else (if c = 13 then 10 else c) :: normalize (d :: rest)

/-- The normalized stream, with the look-ahead of the code. -/
theorem normalize_cons (c : UInt8) (sock : Bytes) :
    normalize (c :: sock) =
      if c = 13 then 10 :: normalize (dropLf sock) else c :: normalize sock := by
  cases sock with
  | nil => by_cases hc : c = 13 <;> simp [normalize, dropLf, hc]
  | cons d rest =>
      by_cases hc : c = 13
      · by_cases hd : d = 10 <;> simp [normalize, dropLf, hc, hd]
      · simp [normalize, hc]

/-- Normalizing never makes a stream longer. -/
theorem length_normalize_le (sock : Bytes) : (normalize sock).length ≤ sock.length := by
  fun_induction normalize sock with
  | case1 => simp
  | case2 => simp
  | case3 c d rest h ih => simp only [List.length_cons]; omega
  | case4 c d rest h ih => simp only [List.length_cons] at ih ⊢; omega

/-- The loop hands over the first line of the normalized stream and leaves the rest of it. -/
theorem get_line_loop_eq (left : Nat) (line sock : Bytes) :
    (getLineLoop left line sock).1 = line ++ takeLine isNewline left (normalize sock) ∧
      normalize (getLineLoop left line sock).2 = dropLine isNewline left (normalize sock) := by
  induction left generalizing line sock with
  | zero => simp [getLineLoop]
  | succ left ih =>
      cases sock with
      | nil => simp [getLineLoop, normalize, dropLine]
      | cons c sock =>
          rw [getLineLoop, normalize_cons]
          by_cases hcr : c = 13
          · -- CR and CRLF both end the line with an LF
            rw [if_pos hcr, if_pos hcr, take_line_of_mark rfl]
            exact ⟨rfl, rfl⟩
          · rw [if_neg hcr, if_neg hcr]
            by_cases hlf : c = 10
            · rw [if_pos hlf, hlf, take_line_of_mark rfl]
              exact ⟨rfl, rfl⟩
            · have hmark : isNewline c = false := by simpa [isNewline] using hlf
              obtain ⟨hline, hrest⟩ := ih (line ++ [c]) sock
              rw [if_neg hlf, take_line_of_not_mark hmark, drop_line_of_not_mark hmark]
              exact ⟨by rw [hline, List.append_assoc, List.singleton_append], hrest⟩

/-- One call, with a buffer of the size it is told: it hands over the first line of the
normalized stream, terminated inside the buffer. -/
theorem get_line_eq (sock : Bytes) {buf : Bytes} {size : Nat} (hbuf : buf.length = size)
    (hsize : 2 ≤ size) :
    (getLine sock buf size).1.ret = (takeLine isNewline (size - 1) (normalize sock)).length ∧
      (getLine sock buf size).1.text = takeLine isNewline (size - 1) (normalize sock) ∧
      (getLine sock buf size).1.buf[(getLine sock buf size).1.ret]? = some 0 ∧
      (getLine sock buf size).1.buf.length = size ∧
      normalize (getLine sock buf size).2 = dropLine isNewline (size - 1) (normalize sock) := by
  obtain ⟨hline, hrest⟩ := get_line_loop_eq (size - 1) [] sock
  rw [List.nil_append] at hline
  have hle := length_take_line_le isNewline (size - 1) (normalize sock)
  simp only [getLine, GetLine.text, hline]
  refine ⟨trivial, ?_, ?_, ?_, hrest⟩
  · rw [take_overwrite (by simp), List.take_left]
  · rw [overwrite, List.append_assoc, List.getElem?_append_right (le_refl _), Nat.sub_self]
    rfl
  · rw [length_overwrite, hbuf]
    rw [List.length_append, List.length_singleton]
    omega

/-- Successive calls, more of them than the stream has bytes: a call returns 0 in the end, and
the strings before it are the lines of the normalized stream. -/
theorem get_lines_eq_cut {calls size : Nat} {sock buf : Bytes} (hbuf : buf.length = size)
    (hsize : 2 ≤ size) (hcalls : (normalize sock).length < calls) :
    ∃ last, last.ret = 0 ∧ ∃ lines, getLines calls sock buf size = lines ++ [last] ∧
      lines.map GetLine.text =
        cut isNewline (List.replicate (calls - 1) (size - 1)) (normalize sock) := by
  induction calls generalizing sock buf with
  | zero => omega
  | succ calls ih =>
      obtain ⟨hret, htext, -, hlen, hrest⟩ := get_line_eq sock hbuf hsize
      cases hnorm : normalize sock with
      | nil =>
          rw [hnorm, take_line_nil] at hret
          refine ⟨(getLine sock buf size).1, hret, [], ?_, by simp⟩
          simp [getLines, hret]
      | cons c cs =>
          rw [hnorm] at hret htext hrest hcalls
          have hpos := List.length_pos_iff.mpr
            (take_line_ne_nil isNewline (show 0 < size - 1 by omega) (List.cons_ne_nil c cs))
          have hlt := length_drop_line_lt isNewline (show 0 < size - 1 by omega)
            (List.cons_ne_nil c cs)
          have hne : (getLine sock buf size).1.ret ≠ 0 := by omega
          obtain ⟨calls, rfl⟩ : ∃ k, calls = k + 1 := ⟨calls - 1, by simp at hcalls; omega⟩
          obtain ⟨last, hlast, lines, hlines, hcut⟩ :=
            ih hlen (by rw [hrest]; omega)
          refine ⟨last, hlast, (getLine sock buf size).1 :: lines, ?_, ?_⟩
          · rw [getLines]
            simp only [hne, if_false, hlines, List.cons_append]
          · rw [List.map_cons, hcut, htext, hrest]
            rfl

/-- Every call of a run terminates its string inside the buffer. -/
theorem get_lines_terminated {calls : Nat} {sock buf : Bytes} {size : Nat}
    (hbuf : buf.length = size) (hsize : 2 ≤ size) {line : GetLine}
    (h : line ∈ getLines calls sock buf size) :
    line.ret ≤ size - 1 ∧ line.buf[line.ret]? = some 0 ∧ line.buf.length = size ∧
      ∀ c ∈ line.text.dropLast, c ≠ 10 := by
  induction calls generalizing sock buf with
  | zero => cases h
  | succ calls ih =>
      obtain ⟨hret, htext, hnul, hlen, -⟩ := get_line_eq sock hbuf hsize
      have hfirst : (getLine sock buf size).1.ret ≤ size - 1 ∧
          (getLine sock buf size).1.buf[(getLine sock buf size).1.ret]? = some 0 ∧
          (getLine sock buf size).1.buf.length = size ∧
          ∀ c ∈ (getLine sock buf size).1.text.dropLast, c ≠ 10 := by
        refine ⟨?_, hnul, hlen, ?_⟩
        · rw [hret]
          exact length_take_line_le isNewline _ _
        · intro c hc
          rw [htext] at hc
          simpa [isNewline] using not_mark_of_mem_dropLast hc
      rw [getLines] at h
      split at h
      · obtain rfl := List.mem_singleton.mp h
        exact hfirst
      · rcases List.mem_cons.mp h with rfl | h
        · exact hfirst
        · exact ih hlen h

/-- `get_line` normalizes a whole stream. For every stream and every size of at least 2, calling
it until it returns 0 takes finitely many calls; the strings handed over, joined, are the stream
with every CRLF and every lone CR replaced by LF; each is at most `size - 1` long, terminated at
the returned length inside the buffer, and contains LF at most at its end; and one that does not
end in LF is `size - 1` long or followed by the call that returns 0 only. -/
theorem get_lines_normalize (sock buf : Bytes) (size : Nat) (hbuf : buf.length = size)
    (hsize : 2 ≤ size) :
    ∃ last, last.ret = 0 ∧ ∃ lines, getLines (sock.length + 1) sock buf size = lines ++ [last] ∧
      (∀ line ∈ lines, line.ret ≠ 0) ∧
      (lines.map GetLine.text).flatten = normalize sock ∧
      (∀ line ∈ lines ++ [last], line.ret ≤ size - 1 ∧ line.text.length = line.ret ∧
        line.buf[line.ret]? = some 0 ∧ line.buf.length = size ∧
        ∀ c ∈ line.text.dropLast, c ≠ 10) ∧
      (∀ front line back, lines = front ++ line :: back → line.text.getLast? ≠ some 10 →
        line.ret = size - 1 ∨ back = []) := by
  have hle := length_normalize_le sock
  have hcalls : (normalize sock).length < sock.length + 1 := by omega
  obtain ⟨last, hlast, lines, hlines, hcut⟩ := get_lines_eq_cut hbuf hsize hcalls
  have hall : ∀ line ∈ lines ++ [last], line.ret ≤ size - 1 ∧ line.text.length = line.ret ∧
      line.buf[line.ret]? = some 0 ∧ line.buf.length = size ∧
      ∀ c ∈ line.text.dropLast, c ≠ 10 := by
    intro line hline
    obtain ⟨hret, hnul, hlen, hmark⟩ := get_lines_terminated hbuf hsize (hlines ▸ hline)
    refine ⟨hret, ?_, hnul, hlen, hmark⟩
    rw [GetLine.text, List.length_take]
    omega
  refine ⟨last, hlast, lines, hlines, ?_, ?_, hall, ?_⟩
  · intro line hline hzero
    have htext : line.text ∈ cut isNewline _ (normalize sock) :=
      hcut ▸ List.mem_map_of_mem hline
    obtain ⟨k, hk, ys, hys, heq⟩ := exists_take_line_of_mem_cut htext
    obtain rfl := List.eq_of_mem_replicate hk
    have hpos := List.length_pos_iff.mpr
      (take_line_ne_nil isNewline (show 0 < size - 1 by omega) hys)
    rw [← heq, (hall line (by simp [hline])).2.1] at hpos
    omega
  · show (lines.map GetLine.text).flatten = normalize sock
    rw [hcut]
    refine cut_flatten ?_ (by rw [List.length_replicate]; omega)
    intro k hk
    rw [List.eq_of_mem_replicate hk]
    omega
  · intro front line back hsplit hend
    by_cases hfull : line.ret = size - 1
    · exact .inl hfull
    · right
      obtain ⟨-, hlen, -, -, hmark⟩ := hall line (by simp [hsplit])
      rw [hsplit, List.map_append, List.map_cons] at hcut
      -- the line is neither full nor closed by an LF, so the stream ends with it
      refine List.map_eq_nil_iff.mp (cut_last_of_incomplete hcut.symm (by rwa [hlen])
        (not_mark_of_dropLast (fun c hc => ?_) fun c hc => ?_))
      · simpa [isNewline] using hmark c hc
      · have hne : c ≠ 10 := fun heq => hend (heq ▸ hc)
        simpa [isNewline] using hne

/-- A stream with a CRLF and a lone CR, read into a buffer of four bytes. -/
theorem get_lines_normalize_mixed :
    ∃ last, last.ret = 0 ∧
      ∃ lines, getLines ((ascii "a\r\nb\rc").length + 1) (ascii "a\r\nb\rc") (zeros 4) 4 =
          lines ++ [last] ∧
        (∀ line ∈ lines, line.ret ≠ 0) ∧
        (lines.map GetLine.text).flatten = normalize (ascii "a\r\nb\rc") ∧
        (∀ line ∈ lines ++ [last], line.ret ≤ 4 - 1 ∧ line.text.length = line.ret ∧
          line.buf[line.ret]? = some 0 ∧ line.buf.length = 4 ∧
          ∀ c ∈ line.text.dropLast, c ≠ 10) ∧
        (∀ front line back, lines = front ++ line :: back → line.text.getLast? ≠ some 10 →
          line.ret = 4 - 1 ∨ back = []) :=
  get_lines_normalize (ascii "a\r\nb\rc") (zeros 4) 4 rfl (by decide)

end UnixNet.Pub
