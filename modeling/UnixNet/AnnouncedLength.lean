import UnixNet.EpollWeb.SendLengths
import UnixNet.LibeventWeb.Framing

/-!
# The length of a file in its header

Both web servers hand the `st_size` of a file, which is an `off_t`, to the `int` parameter of the
function that writes the header. The header announces the size of the file exactly if that is an
`int` (`announced_length_iff`): another size is announced with other digits, or not at all.
-/

namespace UnixNet

open NetLib UnixNet.Pub

/-- The length that is left of a size after the conversion to `int` and the test for a positive
one. -/
def intLength (size : Nat) : Option Nat :=
  if toInt size > 0 then some (toInt size).natAbs else none

/-- That is the size exactly if the size is an `int`. -/
theorem int_length_iff (size : Nat) :
    ((intLength size).map some).toList = (if 0 < size then [some size] else []) ↔
      size < 2 ^ 31 := by
  unfold intLength
  constructor
  · intro h
    by_contra hlarge
    have hbound := toInt_bound size
    rw [if_pos (by omega : 0 < size)] at h
    by_cases hpos : toInt size > 0
    · rw [if_pos hpos] at h
      have hsame : (toInt size).natAbs = size := by
        simpa using h
      omega
    · rw [if_neg hpos] at h
      cases h
  · intro hsmall
    rw [toInt_eq_self (by omega), Int.natAbs_natCast]
    by_cases hpos : 0 < size
    · rw [if_pos hpos, if_pos (by omega)]
      rfl
    · rw [if_neg hpos, if_neg (by omega)]
      rfl

/-- The field of the line with the content type is another one. -/
theorem field_content_type (type : Bytes) :
    field (ascii "content-length") (ascii "Content-Type:" ++ type) = none := by
  have hwritten : ascii "Content-Type:" = ascii "Content-Type" ++ [58] := rfl
  rw [field_of_written _ type hwritten (by decide), if_neg (by decide)]

namespace EpollWeb

/-- The lines of a header, without their line ends. -/
def headerLines (code : Int) (type : Bytes) (length : Int) : List Bytes :=
  [ascii "HTTP/1.1 " ++ decimalInt code ++ ascii " " ++ state code,
    ascii "Content-Type:" ++ type] ++
    (if length > 0 then [ascii "Content-length:" ++ decimalInt length] else [])

/-- The header that `send_header` hands to `send` for a regular file. -/
def headerBlock (env : Env) (path : Bytes) (size : Nat) : Bytes :=
  (asked (sendHeader env 200 (getMimeType path) (toInt size) .start).calls).flatMap given

/-- The parts of a header are its lines and the blank line. -/
theorem header_parts_eq (code : Int) (type : Bytes) (length : Int) :
    (headerParts code type length).flatten = renderHead (headerLines code type length) ++ crlf := by
  unfold headerParts headerLines
  by_cases hpos : length > 0
  · simp [hpos, renderHead, statusLine, typeLine, lengthLine]
  · simp [hpos, renderHead, statusLine, typeLine]

/-- The lines of the header of a file can stand in a header. -/
theorem header_lines_safe (path : Bytes) (size : Nat) :
    ∀ line ∈ headerLines 200 (getMimeType path) (toInt size), IsHeaderLine line := by
  have hstatus : IsHeaderLine (ascii "HTTP/1.1 " ++ decimalInt 200 ++ ascii " " ++ state 200) := by
    decide
  have htype : IsHeaderLine (ascii "Content-Type:" ++ getMimeType path) :=
    .of_label (by decide) (cr_not_mem_mime_type path)
  refine List.forall_mem_append.mpr ⟨List.forall_mem_cons.mpr ⟨hstatus, by simp [htype]⟩, ?_⟩
  split
  · next hpos =>
      intro line hline
      rw [List.mem_singleton.mp hline, decimalInt, if_neg (by omega)]
      exact .of_label (by decide) (cr_not_mem_decimal _)
  · simp

/-- The field of the line with the content length. -/
theorem field_length_line (n : Nat) :
    field (ascii "content-length") (ascii "Content-length:" ++ decimal n) = some (decimal n) := by
  have hwritten : ascii "Content-length:" = ascii "Content-length" ++ [58] := rfl
  exact field_length_label hwritten (by decide) (by decide) n

/-- The length that the lines announce. -/
theorem announced_header_lines (path : Bytes) (size : Nat) :
    announcedLengths (headerLines 200 (getMimeType path) (toInt size)) =
      ((intLength size).map some).toList := by
  have hstatus : (58 : UInt8) ∉ ascii "HTTP/1.1 " ++ decimalInt 200 ++ ascii " " ++ state 200 := by
    decide
  have hlines := announced_lengths_eq (intLength size) (field_of_no_colon _ hstatus)
    (field_content_type (getMimeType path)) field_length_line
  unfold intLength at hlines ⊢
  unfold headerLines
  by_cases hpos : toInt size > 0
  · have hdecimal : decimalInt (toInt size) = decimal (toInt size).natAbs := by
      rw [decimalInt, if_neg (by omega)]
    simpa only [hpos, if_true, hdecimal, Option.map_some, Option.toList_some] using hlines
  · simpa only [hpos, if_false, Option.map_none, Option.toList_none] using hlines

/-- The header announces the size exactly if the size is an `int`. -/
theorem header_block_announces (env : Env) (path : Bytes) (size : Nat) :
    Announces (headerBlock env path size) size ↔ size < 2 ^ 31 := by
  have hcode : (statusLine 200).length < 1024 := by decide
  obtain ⟨made, hasked, hparts, -⟩ := send_header_asks env .start hcode
    (mime_type_header_safe path).2.1 (toInt_natAbs_lt size)
  have hblock : headerBlock env path size =
      renderHead (headerLines 200 (getMimeType path) (toInt size)) ++ crlf := by
    rw [← header_parts_eq, ← hparts, headerBlock, hasked, List.flatMap_def]
    rfl
  rw [hblock, announces_lines_iff (header_lines_safe path size), announced_header_lines,
    int_length_iff]

end EpollWeb

namespace LibeventWeb

open UnixNet.Bufferevent

/-- The header that `sendHeader` queues for a regular file. -/
def headerBlock (env : Env) (path : Bytes) (size : Nat) : Bytes :=
  queued (sendHeader env 200 (ascii "OK") (getMimeType path) (toInt size) .start).calls

/-- The number of writes for the header of a file: one for each line, and one for the blank line. -/
def headerWrites (size : Nat) : Nat :=
  if 0 < size then 4 else 3

/-- The length that the lines announce. -/
theorem announced_header_lines (path : Bytes) (size : Nat) :
    announcedLengths (headerLines 200 (ascii "OK") (getMimeType path) (toInt size)) =
      ((intLength size).map some).toList :=
  announced_lengths_eq (intLength size) (field_of_no_colon _ (by decide)) (field_content_type _)
    field_content_length

/-- The number of lines for a size that is an `int`. -/
theorem length_header_lines (path : Bytes) {size : Nat} (hsmall : size < 2 ^ 31) :
    (headerLines 200 (ascii "OK") (getMimeType path) (toInt size)).length + 1 =
      headerWrites size := by
  rw [toInt_eq_self (by omega), headerLines, headerWrites]
  by_cases hpos : 0 < size
  · rw [if_pos hpos, if_pos (by omega)]
    rfl
  · rw [if_neg hpos, if_neg (by omega)]
    rfl

/-- The header announces the size exactly if the size is an `int` and no write fails. -/
theorem header_block_announces (env : Env) (path : Bytes) (size : Nat) :
    Announces (headerBlock env path size) size ↔
      size < 2 ^ 31 ∧ ∀ i < headerWrites size, env.write i = true := by
  have hsafe := header_lines_safe path (toInt size)
  have hnumber : ∀ i, Progress.start.writes + i = i := Nat.zero_add
  rw [headerBlock, send_header_eq env .start (by decide) (mime_type_header_safe path).2.1
    (by have := toInt_bound size; omega), header_texts_eq]
  generalize hlines : headerLines 200 (ascii "OK") (getMimeType path) (toInt size) = lines at hsafe
  have hcount : size < 2 ^ 31 → lines.length + 1 = headerWrites size :=
    fun hsmall => hlines ▸ length_header_lines path hsmall
  by_cases hwrites : ∀ i < lines.length + 1, env.write (Progress.start.writes + i) = true
  · obtain ⟨-, hhead⟩ := write_header_queued env rfl hwrites
    rw [hhead, announces_lines_iff hsafe, ← hlines, announced_header_lines, int_length_iff]
    refine (and_iff_left_of_imp fun hsmall i hi => ?_).symm
    rw [← hnumber i]
    exact hwrites i (hcount hsmall ▸ hi)
  · -- the header ends before the blank line
    obtain ⟨k, hhead⟩ := write_header_stopped env rfl hwrites
    rw [hhead]
    refine iff_of_false (not_announces_of_no_blank fun line hline =>
      hsafe line (List.mem_of_mem_take hline)) fun h => hwrites fun i hi => ?_
    rw [hnumber]
    exact h.2 i (hcount h.1 ▸ hi)

end LibeventWeb

/-- The announced length is the length of the file exactly if that is an `int`. For every path and
every size of a regular file: the header that the epoll server hands to `send` can be read to its
blank line, and announces the size if it is positive and nothing if it is 0, if and only if the size
is less than 2 ^ 31. The same holds of the header that the libevent server queues when the writes
for it succeed; if one of them fails, there is no header up to its blank line. -/
theorem announced_length_iff (epoll : EpollWeb.Env) (libevent : Bufferevent.Env) (path : Bytes)
    (size : Nat) :
    (Announces (EpollWeb.headerBlock epoll path size) size ↔ size < 2 ^ 31) ∧
      ((∀ i < LibeventWeb.headerWrites size, libevent.write i = true) →
        (Announces (LibeventWeb.headerBlock libevent path size) size ↔ size < 2 ^ 31)) ∧
      (Announces (LibeventWeb.headerBlock libevent path size) size →
        ∀ i < LibeventWeb.headerWrites size, libevent.write i = true) := by
  have hlibevent := LibeventWeb.header_block_announces libevent path size
  refine ⟨EpollWeb.header_block_announces epoll path size, fun hwrites => ?_,
    fun hannounces => (hlibevent.mp hannounces).2⟩
  rw [hlibevent, and_iff_left hwrites]

/-- A file of 4 GiB and 5 bytes is announced with 5 bytes, by both servers. -/
theorem large_file_announced_short :
    ¬ ∀ (epoll : EpollWeb.Env) (libevent : Bufferevent.Env) (path : Bytes) (size : Nat),
      size < 2 ^ 63 → (∀ i, libevent.write i = true) →
      Announces (EpollWeb.headerBlock epoll path size) size ∧
        Announces (LibeventWeb.headerBlock libevent path size) size := by
  intro h
  obtain ⟨⟨lines, hparse, hlengths⟩, -⟩ := h EpollWeb.roomyEnv LibeventWeb.smallEnv (ascii "/a")
    (2 ^ 32 + 5) (by decide) fun _ => rfl
  have hannounced :
      (parseHead (EpollWeb.headerBlock EpollWeb.roomyEnv (ascii "/a") (2 ^ 32 + 5))).map
        (fun head => announcedLengths head.1) = some [some 5] := by
    decide +kernel
  rw [hparse, Option.map_some, hlengths] at hannounced
  exact absurd hannounced (by decide)

end UnixNet
