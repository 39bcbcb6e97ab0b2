import UnixNet.Lib.Lines
import UnixNet.Lib.Source
import UnixNet.Lib.Text

/-!
# Buffered line reading: `my_read` and `Readline`

`wrap.c` reads lines one byte at a time out of a static buffer of 100 bytes. `ReadBuffer` is
that buffer with its two bookkeeping variables, and `Reader` pairs it with the source behind
the descriptor that is being read. What a reader has in store is `Reader.avail`: the unread
part of the buffer, then what the source hands over next. `readline` returns the first line of
that (`readline_line`), and its return value says whether the line is complete.
-/

namespace UnixNet.Wrap

open NetLib

/-- The static variables of `my_read`. `readPtr` is an index into `readBuf`; the unread bytes
lie inside the buffer. -/
structure ReadBuffer where
  readCnt : Int
  readPtr : Nat
  readBuf : Bytes
  size : readBuf.length = 100
  bound : readPtr + readCnt.toNat ≤ 100

/-- The static buffer when the process starts. -/
def ReadBuffer.initial : ReadBuffer where
  readCnt := 0
  readPtr := 0
  readBuf := zeros 100
  size := List.length_replicate
  bound := by decide

/-- The bytes taken out of the socket and not yet handed to a caller. -/
def ReadBuffer.unread (rb : ReadBuffer) : Bytes :=
  (rb.readBuf.drop rb.readPtr).take rb.readCnt.toNat

/-- The buffer after a successful `read(fd, read_buf, sizeof(read_buf))`. -/
def ReadBuffer.fill (rb : ReadBuffer) (chunk : Chunk UInt8 100) : ReadBuffer where
  readCnt := chunk.data.length
  readPtr := 0
  readBuf := overwrite chunk.data rb.readBuf
  size := by rw [length_overwrite (by rw [rb.size]; exact chunk.bounded), rb.size]
  bound := by simpa using chunk.bounded

/-- A successful `read` leaves something to hand out. -/
theorem ReadBuffer.fill_cnt_pos (rb : ReadBuffer) (chunk : Chunk UInt8 100) :
    0 < (rb.fill chunk).readCnt :=
  Int.natCast_pos.mpr (List.length_pos_iff.mpr chunk.nonempty)

/-- The buffer after a `read` that returned 0 or -1, which goes into `read_cnt`. -/
def ReadBuffer.setCnt (rb : ReadBuffer) (cnt : Int) (h : cnt ≤ 0) : ReadBuffer where
  readCnt := cnt
  readPtr := rb.readPtr
  readBuf := rb.readBuf
  size := rb.size
  bound := by
    have := rb.bound
    omega

/-- `read_cnt--; *ptr = *read_ptr++;` -/
def ReadBuffer.pop (rb : ReadBuffer) (h : 0 < rb.readCnt) : UInt8 × ReadBuffer :=
  (rb.readBuf.get ⟨rb.readPtr, by have := rb.size; have := rb.bound; omega⟩,
    { readCnt := rb.readCnt - 1
      readPtr := rb.readPtr + 1
      readBuf := rb.readBuf
      size := rb.size
      bound := by have := rb.bound; omega })

/-- The static buffer together with the source behind the descriptor being read. -/
structure Reader where
  rb : ReadBuffer
  src : Source UInt8 100

/-- What `my_read` returns: 1 with a byte in `*ptr`, 0, or -1. -/
inductive MyRead where
  | byte (c : UInt8)
  | eof
  | error

/-- `my_read(fd, ptr)`: a byte of the buffer, which is filled again when it is used up. -/
def myRead (r : Reader) : MyRead × Reader :=
  if h : r.rb.readCnt ≤ 0 then
    match r.src.readRetry with
    | (.error (.fail _), src) => (.error, ⟨r.rb.setCnt (-1) (by decide), src⟩)
    | (.error .eof, src) => (.eof, ⟨r.rb.setCnt 0 (by decide), src⟩)
    | (.ok chunk, src) =>
        let popped := (r.rb.fill chunk).pop (r.rb.fill_cnt_pos chunk)
        (.byte popped.1, ⟨popped.2, src⟩)
  else
    let popped := r.rb.pop (by omega)
    (.byte popped.1, ⟨popped.2, r.src⟩)

/-- What `Readline` returns, and the bytes it stored; a terminator follows them when the
return value is not negative. -/
structure Line where
  ret : Int
  stored : Bytes
  deriving DecidableEq

/-- The loop of `Readline` with the counter at `n`, `left` rounds to go and `stored` already in
the caller's buffer. -/
def readlineLoop : Nat → Int → Bytes → Reader → Line × Reader
  | 0, n, stored, r => (⟨n, stored⟩, r)
  | left + 1, n, stored, r =>
      match myRead r with
      | (.byte c, r) =>
          if isNewline c then (⟨n, stored ++ [c]⟩, r)
          else readlineLoop left (n + 1) (stored ++ [c]) r
      | (.eof, r) => (⟨n - 1, stored⟩, r)
      | (.error, r) => (⟨-1, stored⟩, r)

/-- `Readline(fd, vptr, maxlen)`, where `maxlen` is the size of the caller's buffer. -/
def readline (maxlen : Nat) (r : Reader) : Line × Reader :=
  readlineLoop (maxlen - 1) 1 [] r

/-! ## The buffer -/

@[simp] theorem ReadBuffer.unread_initial : ReadBuffer.initial.unread = [] := rfl

/-- A buffer with no positive count has nothing unread. -/
theorem ReadBuffer.unread_of_cnt_nonpos {rb : ReadBuffer} (h : rb.readCnt ≤ 0) :
    rb.unread = [] := by
  rw [unread, Int.toNat_of_nonpos h, List.take_zero]

@[simp] theorem ReadBuffer.unread_set_cnt (rb : ReadBuffer) {cnt : Int} (h : cnt ≤ 0) :
    (rb.setCnt cnt h).unread = [] :=
  unread_of_cnt_nonpos h

@[simp] theorem ReadBuffer.unread_fill (rb : ReadBuffer) (chunk : Chunk UInt8 100) :
    (rb.fill chunk).unread = chunk.data := by
  simp [unread, fill, overwrite]

/-- The byte that is popped is the first unread one. -/
theorem ReadBuffer.unread_eq_cons (rb : ReadBuffer) (h : 0 < rb.readCnt) :
    rb.unread = (rb.pop h).1 :: (rb.pop h).2.unread := by
  have hptr : rb.readPtr < rb.readBuf.length := by
    have := rb.size
    have := rb.bound
    omega
  have hcnt : rb.readCnt.toNat = (rb.readCnt - 1).toNat + 1 := by omega
  simp only [unread, pop, hcnt]
  rw [List.drop_eq_getElem_cons hptr, List.take_succ_cons, List.get_eq_getElem]

/-! ## The reader -/

/-- The bytes a reader has in store: the unread part of the buffer, then what the source hands
over before something stops it. -/
def Reader.avail (r : Reader) : Bytes :=
  r.rb.unread ++ r.src.ready

/-- Between two states of a reader the bytes `line` were handed to the caller: they were
unread before, or the source delivered them in between. -/
def Reader.Took (r next : Reader) (line : Bytes) : Prop :=
  ∃ got, r.src.Delivered next.src got ∧ r.rb.unread ++ got = line ++ next.rb.unread

theorem Reader.Took.refl (r : Reader) : r.Took r [] :=
  ⟨[], .refl _, List.append_nil _⟩

theorem Reader.Took.trans {first second third : Reader} {line more : Bytes}
    (h : first.Took second line) (hnext : second.Took third more) :
    first.Took third (line ++ more) := by
  obtain ⟨got, hgot, hline⟩ := h
  obtain ⟨gotNext, hgotNext, hmore⟩ := hnext
  refine ⟨got ++ gotNext, hgot.trans hgotNext, ?_⟩
  rw [← List.append_assoc, hline, List.append_assoc, hmore, List.append_assoc]

/-- The bytes `my_read` hands to its caller. -/
def MyRead.bytes : MyRead → Bytes
  | .byte c => [c]
  | .eof => []
  | .error => []

/-- `my_read` hands out the bytes of the source in their order, through the buffer. -/
theorem my_read_took (r : Reader) : r.Took (myRead r).2 (myRead r).1.bytes := by
  unfold myRead
  split
  · next hcnt =>
      have hunread := ReadBuffer.unread_of_cnt_nonpos hcnt
      have hdelivered := r.src.read_retry_delivered
      split
      · next heq =>
          rw [heq] at hdelivered
          exact ⟨[], hdelivered, by simp [hunread, MyRead.bytes]⟩
      · next heq =>
          rw [heq] at hdelivered
          exact ⟨[], hdelivered, by simp [hunread, MyRead.bytes]⟩
      · next chunk src heq =>
          rw [heq] at hdelivered
          refine ⟨chunk.data, hdelivered, ?_⟩
          rw [hunread, List.nil_append, ← r.rb.unread_fill chunk]
          exact ReadBuffer.unread_eq_cons _ (r.rb.fill_cnt_pos chunk)
  · next hcnt =>
      refine ⟨[], .refl _, ?_⟩
      rw [List.append_nil]
      exact ReadBuffer.unread_eq_cons _ (by omega)

/-- With bytes in store, `my_read` returns the first of them. -/
theorem my_read_cons {r : Reader} {c : UInt8} {rest : Bytes} (h : r.avail = c :: rest) :
    ∃ next, myRead r = (.byte c, next) ∧ next.avail = rest ∧ next.src.stop = r.src.stop := by
  unfold myRead
  split
  · next hcnt =>
      rw [Reader.avail, ReadBuffer.unread_of_cnt_nonpos hcnt, List.nil_append] at h
      split
      · next heq => simp [(Source.read_retry_error heq).1] at h
      · next heq => simp [(Source.read_retry_error heq).1] at h
      · next chunk src heq =>
          obtain ⟨hready, hstop⟩ := Source.read_retry_ok heq
          have hpop := ReadBuffer.unread_eq_cons _ (r.rb.fill_cnt_pos chunk)
          rw [ReadBuffer.unread_fill] at hpop
          rw [hready, hpop, List.cons_append] at h
          obtain ⟨rfl, hrest⟩ := List.cons.inj h
          exact ⟨_, rfl, hrest, hstop.symm⟩
  · next hcnt =>
      rw [Reader.avail, ReadBuffer.unread_eq_cons r.rb (by omega), List.cons_append] at h
      obtain ⟨rfl, hrest⟩ := List.cons.inj h
      exact ⟨_, rfl, hrest, rfl⟩

/-- With nothing in store, `my_read` reports what stopped the source. -/
theorem my_read_nil {r : Reader} (h : r.avail = []) :
    ∃ next, myRead r = (if r.src.stop = .eof then .eof else .error, next) := by
  obtain ⟨hunread, hready⟩ := List.append_eq_nil_iff.mp h
  have hcnt : r.rb.readCnt ≤ 0 := by
    by_contra hpos
    rw [ReadBuffer.unread_eq_cons r.rb (by omega)] at hunread
    cases hunread
  unfold myRead
  rw [dif_pos hcnt]
  split
  · next heq => exact ⟨_, by rw [(Source.read_retry_error heq).2]; rfl⟩
  · next heq => exact ⟨_, by rw [(Source.read_retry_error heq).2]; rfl⟩
  · next chunk src heq =>
      have hdata := (Source.read_retry_ok heq).1
      rw [hready] at hdata
      exact absurd (List.append_eq_nil_iff.mp hdata.symm).1 chunk.nonempty

/-- When `my_read` returns no byte, the count it leaves is 0 at end of file and -1 otherwise. -/
theorem my_read_cnt (r : Reader) :
    ((myRead r).1 = .eof → (myRead r).2.rb.readCnt = 0) ∧
      ((myRead r).1 = .error → (myRead r).2.rb.readCnt = -1) := by
  unfold myRead
  split
  · split <;> simp [ReadBuffer.setCnt]
  · simp

/-! ## `Readline` -/

/-- The loop stores what it took from the reader. -/
theorem readline_loop_took (left : Nat) (n : Int) (stored : Bytes) (r : Reader) :
    ∃ line, (readlineLoop left n stored r).1.stored = stored ++ line ∧
      r.Took (readlineLoop left n stored r).2 line := by
  induction left generalizing n stored r with
  | zero => exact ⟨[], by simp [readlineLoop], .refl r⟩
  | succ left ih =>
      have htook := my_read_took r
      rw [readlineLoop]
      split
      · next c next heq =>
          rw [heq] at htook
          split
          · exact ⟨[c], rfl, htook⟩
          · obtain ⟨line, hstored, hline⟩ := ih (n + 1) (stored ++ [c]) next
            exact ⟨c :: line, by rw [hstored, List.append_assoc, List.singleton_append],
              htook.trans hline⟩
      · next next heq =>
          rw [heq] at htook
          exact ⟨[], (List.append_nil stored).symm, htook⟩
      · next next heq =>
          rw [heq] at htook
          exact ⟨[], (List.append_nil stored).symm, htook⟩

/-- A newline ends the loop. -/
theorem readline_loop_newline {left : Nat} {n : Int} {stored : Bytes} {r next : Reader} {c : UInt8}
    (hread : myRead r = (.byte c, next)) (hc : isNewline c = true) :
    readlineLoop (left + 1) n stored r = (⟨n, stored ++ [c]⟩, next) := by
  simp [readlineLoop, hread, hc]

/-- Any other byte is stored and counted. -/
theorem readline_loop_byte {left : Nat} {n : Int} {stored : Bytes} {r next : Reader} {c : UInt8}
    (hread : myRead r = (.byte c, next)) (hc : isNewline c = false) :
    readlineLoop (left + 1) n stored r = readlineLoop left (n + 1) (stored ++ [c]) next := by
  simp [readlineLoop, hread, hc]

/-- The loop on a reader that has the whole line in store: it stores the line, leaves the rest,
and has counted the bytes that are no newline. -/
theorem readline_loop_complete {left : Nat} {r : Reader} (n : Int) (stored : Bytes)
    (h : lineComplete isNewline left r.avail = true) :
    (readlineLoop left n stored r).1 =
        ⟨n + (takeLine isNewline left r.avail).countP (!isNewline ·),
          stored ++ takeLine isNewline left r.avail⟩ ∧
      (readlineLoop left n stored r).2.avail = dropLine isNewline left r.avail ∧
      (readlineLoop left n stored r).2.src.stop = r.src.stop := by
  induction left generalizing n stored r with
  | zero => simp [readlineLoop]
  | succ left ih =>
      cases havail : r.avail with
      | nil => simp [havail, lineComplete] at h
      | cons c rest =>
          obtain ⟨next, hread, rfl, hstop⟩ := my_read_cons havail
          cases hc : isNewline c with
          | true => simp [readline_loop_newline hread hc, take_line_of_mark hc, dropLine, hc, hstop]
          | false =>
              have hcomplete : lineComplete isNewline left next.avail = true := by
                simpa [havail, lineComplete, hc] using h
              obtain ⟨hline, hdrop, hnext⟩ := ih (n + 1) (stored ++ [c]) hcomplete
              rw [readline_loop_byte hread hc, take_line_of_not_mark hc, drop_line_of_not_mark hc]
              refine ⟨?_, hdrop, hnext.trans hstop⟩
              rw [hline]
              simp only [Line.mk.injEq, List.countP_cons, hc, Bool.not_false, if_true,
                List.append_assoc, List.singleton_append, and_true]
              omega

/-- The loop on a reader that does not have the whole line in store: everything in store is
taken out, and the return value says what stopped the source. -/
theorem readline_loop_incomplete {left : Nat} {r : Reader} (n : Int) (stored : Bytes)
    (h : lineComplete isNewline left r.avail = false) :
    (readlineLoop left n stored r).1 =
      ⟨if r.src.stop = .eof then n - 1 + r.avail.length else -1, stored ++ r.avail⟩ := by
  induction left generalizing n stored r with
  | zero => simp at h
  | succ left ih =>
      cases havail : r.avail with
      | nil =>
          obtain ⟨next, hread⟩ := my_read_nil havail
          by_cases hstop : r.src.stop = .eof <;> simp [readlineLoop, hread, hstop]
      | cons c rest =>
          obtain ⟨next, hread, rfl, hstop⟩ := my_read_cons havail
          simp only [havail, lineComplete, Bool.or_eq_false_iff] at h
          rw [readline_loop_byte hread h.1, ih (n + 1) (stored ++ [c]) h.2, hstop]
          simp only [Line.mk.injEq, List.append_assoc, List.singleton_append, List.length_cons,
            and_true]
          split
          · push_cast
            omega
          · rfl

/-- `Readline` on a reader that has the whole line in store. -/
theorem readline_complete {maxlen : Nat} {r : Reader}
    (h : lineComplete isNewline (maxlen - 1) r.avail = true) :
    (readline maxlen r).1 =
        ⟨1 + (takeLine isNewline (maxlen - 1) r.avail).countP (!isNewline ·),
          takeLine isNewline (maxlen - 1) r.avail⟩ ∧
      (readline maxlen r).2.avail = dropLine isNewline (maxlen - 1) r.avail ∧
      (readline maxlen r).2.src.stop = r.src.stop :=
  readline_loop_complete 1 [] h

/-- `Readline` on a reader that does not have the whole line in store. -/
theorem readline_incomplete {maxlen : Nat} {r : Reader}
    (h : lineComplete isNewline (maxlen - 1) r.avail = false) :
    (readline maxlen r).1 =
      ⟨if r.src.stop = .eof then r.avail.length else -1, r.avail⟩ := by
  simpa [readline] using readline_loop_incomplete 1 [] h

/-- `Readline` stores the first line of what the reader has in store. -/
theorem readline_line (maxlen : Nat) (r : Reader) :
    (readline maxlen r).1.stored = takeLine isNewline (maxlen - 1) r.avail := by
  cases h : lineComplete isNewline (maxlen - 1) r.avail with
  | true => rw [(readline_complete h).1]
  | false => rw [readline_incomplete h, take_line_of_incomplete h]

/-- What `Readline` stores was unread before, or the source delivered it during the call. -/
theorem readline_took (maxlen : Nat) (r : Reader) :
    r.Took (readline maxlen r).2 (readline maxlen r).1.stored := by
  obtain ⟨line, hstored, htook⟩ := readline_loop_took (maxlen - 1) 1 [] r
  rw [readline, hstored]
  exact htook

/-- A failing `Readline` leaves the buffer without unread bytes. -/
theorem readline_loop_cnt {left : Nat} {n : Int} {stored : Bytes} {r : Reader} (hn : 0 < n)
    (h : (readlineLoop left n stored r).1.ret < 0) :
    (readlineLoop left n stored r).2.rb.readCnt ≤ 0 := by
  induction left generalizing n stored r with
  | zero => simp [readlineLoop] at h; omega
  | succ left ih =>
      obtain ⟨-, herror⟩ := my_read_cnt r
      rw [readlineLoop] at h ⊢
      split at h
      · split at h
        · simp at h; omega
        · next hc => simpa [hc] using ih (by omega) h
      · simp at h; omega
      · next next heq =>
          rw [heq] at herror
          have := herror rfl
          simp only at this ⊢
          omega

/-- After a failing `Readline` the count of unread bytes is not positive. -/
theorem readline_cnt {maxlen : Nat} {r : Reader} (h : (readline maxlen r).1.ret < 0) :
    (readline maxlen r).2.rb.readCnt ≤ 0 :=
  readline_loop_cnt (by decide) h

end UnixNet.Wrap
