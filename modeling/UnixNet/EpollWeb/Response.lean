import UnixNet.EpollWeb.SendData

/-!
# File responses of the epoll web server

What the client has received when `SendData` reaches the normal end of its branch for regular
files and closes the connection. The code ignores how many bytes `send` accepted, so the response
is complete exactly when every `send` took all it was given (`regular_reply_complete_iff`).
-/

namespace UnixNet.EpollWeb

open NetLib UnixNet.Pub

variable {env : Env}

/-- The parts in which the header and the content of a regular file are sent. -/
def replyParts (path : Bytes) (size : Int) (file : File) : List Bytes :=
  headerParts 200 (getMimeType path) (toInt size) ++ file.reads 2048

/-- The header that `send_header` composes for a regular file. -/
def replyHeader (path : Bytes) (size : Int) : Bytes :=
  (headerParts 200 (getMimeType path) (toInt size)).flatten

/-- Some `send` of a block of the file fails, which makes `SendData` return early. -/
def blockFails (env : Env) (path : Bytes) (size : Int) (file : File) : Prop :=
  ∃ i < (file.reads 2048).length,
    (env.send ((headerParts 200 (getMimeType path) (toInt size)).length + i)).fails = true

theorem toInt_natAbs_lt (x : Int) : (toInt x).natAbs < 10 ^ 10 := by
  have := toInt_bound x
  omega

/-- Every part of a reply is nonempty and of a size that `send` can be asked for. -/
theorem reply_part_bound {path part : Bytes} {size : Int} {file : File}
    (h : part ∈ replyParts path size file) : part ≠ [] ∧ part.length < 2 ^ 64 := by
  rcases List.mem_append.mp h with h | h
  · obtain ⟨hne, hlen⟩ := header_part_bound (by decide) (mime_type_header_safe path).2.1
      (toInt_natAbs_lt size) h
    exact ⟨hne, by omega⟩
  · obtain ⟨hne, hlen⟩ := File.reads_from_block h
    exact ⟨hne, by omega⟩

/-- `send_header` does not close the connection. -/
theorem send_header_close_not_mem {code length : Int} {type : Bytes} {p : Progress} :
    .close ∈ (sendHeader env code type length p).calls ↔ .close ∈ p.calls := by
  unfold sendHeader
  by_cases hpos : length > 0 <;> simp [hpos, Progress.sendText, Progress.send]

/-- Until a regular file is opened, the header is sent and nothing is closed. -/
theorem regular_opened (env : Env) (path : Bytes) (size : Int) :
    let header := sendHeader env 200 (getMimeType path) (toInt size)
      (Progress.start.call (.stat (repath path)))
    Sent env .start (headerParts 200 (getMimeType path) (toInt size))
        (header.call (.openFile (repath path) true)) ∧
      .close ∉ (header.call (.openFile (repath path) true)).calls := by
  intro header
  have hheader : Sent env .start (headerParts 200 (getMimeType path) (toInt size)) header :=
    (Sent.of_call _ rfl).trans (send_header_sent _ (by decide) (mime_type_header_safe path).2.1
      (toInt_natAbs_lt size))
  have hclose : .close ∉ header.calls := by
    rw [send_header_close_not_mem]
    simp [Progress.start, Progress.call]
  exact ⟨by simpa using hheader.trans (Sent.of_call header rfl),
    by simpa [Progress.call] using hclose⟩

/-- The loop of `SendData` behind the header: it comes to its end if no `send` of a block fails, and
then the socket has been given the header and the blocks. -/
theorem regular_loop {path : Bytes} {size : Int} {opened : Progress} (file : File)
    (hopened : Sent env .start (headerParts 200 (getMimeType path) (toInt size)) opened)
    (hclose : .close ∉ opened.calls) :
    let loop := sendLoop env file (file.content.length + 1) 0 (zeros 2048) opened
    (loop.1 = true ↔ ¬ blockFails env path size file) ∧
      (loop.1 = true → Sent env .start (replyParts path size file) loop.2) ∧
      .close ∉ loop.2.calls := by
  intro loop
  have hbuf : (zeros 2048).length = 2048 := List.length_replicate
  obtain ⟨hend, hblocks, hcloseLoop⟩ :=
    send_loop_spec env file (file.content.length + 1) 0 opened hbuf
  have hsends : opened.sends = (headerParts 200 (getMimeType path) (toInt size)).length :=
    hopened.1.trans (Nat.zero_add _)
  refine ⟨?_, fun h => hopened.trans (hblocks h), fun h => hclose (hcloseLoop.mp h)⟩
  show (sendLoop env file (file.content.length + 1) 0 (zeros 2048) opened).1 = true ↔ _
  rw [hend, hsends, blockFails, File.reads]
  simp

/-- The branch for regular files: it closes the connection exactly when no `send` of a block
fails, and the client's socket has then been given the header and the blocks of the file. -/
theorem send_data_regular {path : Bytes} {size : Int} {file : File}
    (hstat : env.stat (repath path) = some ⟨.regular, size⟩)
    (hopen : env.openFile (repath path) = some file) :
    (.close ∈ sendData env path ↔ ¬ blockFails env path size file) ∧
      (.close ∈ sendData env path →
        accepted (sendData env path) = acceptedParts env.send 0 (replyParts path size file)) := by
  obtain ⟨hopened, hclose⟩ := regular_opened env path size
  have hloop := regular_loop file hopened hclose
  have hdata : sendData env path = (sendRegular env path size
      (Progress.start.call (.stat (repath path)))).calls := by
    simp only [sendData, hstat]
  rw [hdata, sendRegular]
  simp only [hopen]
  generalize sendLoop env file (file.content.length + 1) 0 (zeros 2048)
    ((sendHeader env 200 (getMimeType path) (toInt size)
      (Progress.start.call (.stat (repath path)))).call (.openFile (repath path) true)) = loop
    at hloop
  obtain ⟨completed, final⟩ := loop
  obtain ⟨hfails, hblocks, hnot⟩ := hloop
  cases completed with
  | true =>
      -- the loop came to its end: the file and the connection are closed
      refine ⟨iff_of_true ?_ (hfails.mp rfl), fun _ => ?_⟩
      · simp [Progress.call]
      · have hsent := ((hblocks rfl).trans (Sent.of_call final rfl :
          Sent env final [] (final.call (.closeFile true)))).2
        simpa [accepted, Progress.call, Call.accepted, Progress.start] using hsent
  | false =>
      -- a `send` failed: only the file is closed
      have hcalls : .close ∉ (final.call (.closeFile true)).calls := by
        simpa [Progress.call] using hnot
      exact ⟨iff_of_false hcalls fun h => Bool.false_ne_true (hfails.mpr h),
        fun h => absurd h hcalls⟩

/-- A file response is complete exactly when nothing is cut short. For every regular file and every
sequence of outcomes of `send`: whenever `SendData` closes the connection at the end of its branch
for regular files, the client's socket has accepted the header and then the whole content, if and
only if the file could be read to its end and every `send`, of a header line or of a block, took
all the bytes it was given. (When the `send` of a block fails, the normal end is not reached.) -/
theorem regular_reply_complete_iff {path : Bytes} {size : Int} {file : File}
    (hstat : env.stat (repath path) = some ⟨.regular, size⟩)
    (hopen : env.openFile (repath path) = some file) :
    (.close ∈ sendData env path →
        accepted (sendData env path) = replyHeader path size ++ file.content) ↔
      blockFails env path size file ∨
        ((file.reads 2048).flatten = file.content ∧
          takesAll env.send 0 (replyParts path size file) = true) := by
  obtain ⟨hclose, haccepted⟩ := send_data_regular hstat hopen
  have hflatten : (replyParts path size file).flatten =
      replyHeader path size ++ (file.reads 2048).flatten := by
    rw [replyParts, List.flatten_append, replyHeader]
  have hparts :
      acceptedParts env.send 0 (replyParts path size file) = (replyParts path size file).flatten ↔
        takesAll env.send 0 (replyParts path size file) = true :=
    accepted_parts_eq_iff fun part hpart => reply_part_bound hpart
  by_cases hfails : blockFails env path size file
  · exact iff_of_true (fun h => absurd hfails (hclose.mp h)) (.inl hfails)
  · have hend : .close ∈ sendData env path := hclose.mpr hfails
    rw [haccepted hend]
    constructor
    · intro h
      have heq := h hend
      -- the accepted bytes are at most as long as the parts, and these as header and content
      have hle := length_accepted_parts_le env.send 0 (replyParts path size file)
      have hprefix := file.reads_flatten 2048
      have hreads : (file.reads 2048).flatten = file.content := by
        refine hprefix.eq_of_length_le ?_
        have hlen := congrArg List.length heq
        rw [hflatten, List.length_append] at hle
        rw [List.length_append] at hlen
        omega
      refine .inr ⟨hreads, hparts.mp ?_⟩
      show acceptedParts env.send 0 _ = (replyParts path size file).flatten
      rw [heq, hflatten, hreads]
    · rintro (h | ⟨hreads, htakes⟩) _
      · exact absurd h hfails
      · rw [hparts.mpr htakes, hflatten, hreads]

/-- The host of `smallRoot` with a socket that takes everything. -/
def roomyEnv : Env where
  toHost := smallRoot
  send _ := .accept 4095

/-- The host of `smallRoot` with a socket that is nearly full when the file is sent: the call after
the four header lines takes one byte. -/
def tightEnv : Env where
  toHost := smallRoot
  send i := if i = 4 then .accept 0 else .accept 4095

/-- With a socket that takes everything, the connection is closed after the client's socket has
accepted the header and the file. -/
theorem regular_reply_roomy :
    .close ∈ sendData roomyEnv (ascii "/a") ∧
      accepted (sendData roomyEnv (ascii "/a")) = replyHeader (ascii "/a") 2 ++ ascii "AB" := by
  have hclose : .close ∈ sendData roomyEnv (ascii "/a") := by
    decide +kernel
  refine ⟨hclose, ?_⟩
  exact (regular_reply_complete_iff (by decide)
    (rfl : roomyEnv.openFile (repath (ascii "/a")) = _)).mpr (.inr (by decide)) hclose

/-- A short `send` of a block loses a byte of the file, and the connection is closed all the
same. -/
theorem regular_reply_short_send :
    ¬ ∀ (env : Env) (path : Bytes) (size : Int) (file : File),
      env.stat (repath path) = some ⟨.regular, size⟩ → env.openFile (repath path) = some file →
      .close ∈ sendData env path →
      accepted (sendData env path) = replyHeader path size ++ file.content := by
  intro h
  have hreply := h tightEnv (ascii "/a") 2 ⟨ascii "AB", fun _ => false⟩ (by decide) rfl
    (by decide +kernel)
  exact absurd hreply (by decide +kernel)

end UnixNet.EpollWeb
