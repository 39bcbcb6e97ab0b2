import UnixNet.Host
import UnixNet.Lib.Sink
import UnixNet.Pub.MimeType

/-!
# `SendData` and `send_header` of the epoll web server

The reply to a GET request as the sequence of system calls it makes. `Env` is what the calls
return: the file system and the outcomes of `send` on the client's socket. `Progress` is the
sequence of calls made so far. The bytes the client's socket accepts are `accepted`, and the
connection is closed when `Call.close` is among the calls.
-/

namespace UnixNet.EpollWeb

open NetLib UnixNet.Pub

/-- The system calls of `SendData`. `send buf len ret` sends the first `len` bytes of `buf`;
`close` closes the client's socket, `closeFile` a file, which was opened if `opened` holds. -/
inductive Call where
  | stat (path : Bytes)
  | openFile (path : Bytes) (opened : Bool)
  | closeFile (opened : Bool)
  | scandir (path : Bytes)
  | send (buf : Bytes) (len ret : Int)
  | close
  | epollDel
  deriving DecidableEq

/-- What the system calls of one request return. The outcomes of `send` are numbered. -/
structure Env extends Host where
  send : Nat → SendOutcome

/-- The calls made so far, and how many of them were `send`. -/
structure Progress where
  sends : Nat
  calls : List Call

/-- No call has been made. -/
def Progress.start : Progress := ⟨0, []⟩

/-- One more call other than `send`. -/
def Progress.call (p : Progress) (c : Call) : Progress :=
  { p with calls := p.calls ++ [c] }

/-- What the next `send` of `len` bytes returns. -/
def Progress.sendRet (p : Progress) (env : Env) (len : Int) : Int :=
  (env.send p.sends).ret len

/-- `send(cfd, buf, len, 0)` -/
def Progress.send (p : Progress) (env : Env) (buf : Bytes) (len : Int) : Progress :=
  ⟨p.sends + 1, p.calls ++ [.send buf len (p.sendRet env len)]⟩

/-- Format `text` into `buf` with `snprintf` and send it with the returned length. -/
def Progress.sendText (p : Progress) (env : Env) (buf text : Bytes) : Progress :=
  p.send env (snprintf buf text).2 (snprintf buf text).1

/-- The reason phrase of `send_header`. -/
def state (code : Int) : Bytes :=
  if code = 200 then ascii "OK" else if code = 404 then ascii "Not Found" else []

/-- The status line. -/
def statusLine (code : Int) : Bytes :=
  ascii "HTTP/1.1 " ++ decimalInt code ++ ascii " " ++ state code ++ crlf

/-- The line with the content type. -/
def typeLine (type : Bytes) : Bytes :=
  ascii "Content-Type:" ++ type ++ crlf

/-- The line with the content length. -/
def lengthLine (length : Int) : Bytes :=
  ascii "Content-length:" ++ decimalInt length ++ crlf

/-- `send_header(cfd, code, type, length)` -/
def sendHeader (env : Env) (code : Int) (type : Bytes) (length : Int) (p : Progress) : Progress :=
  let buf := zeros 1024
  let p := p.sendText env buf (statusLine code)
  let buf := (snprintf buf (statusLine code)).2
  let p := p.sendText env buf (typeLine type)
  let buf := (snprintf buf (typeLine type)).2
  let p := if length > 0 then p.sendText env buf (lengthLine length) else p
  p.send env (crlf ++ [0]) 2

/-- `snprintf(repath, sizeof(repath), ".%s", path)`: the path handed to `stat` and `open`. -/
def repath (path : Bytes) : Bytes :=
  (46 :: path).take 1023

/-- The branch of `SendData` for a file that does not exist. -/
def sendNotFound (env : Env) (p : Progress) : Progress :=
  let p := sendHeader env 404 (getMimeType (ascii "*.html")) 0 p
  let file := env.openFile (ascii "./error.html")
  let p := p.call (.openFile (ascii "./error.html") file.isSome)
  let (n, buf) := readInto file 0 (zeros 2048)
  let p := p.send env buf n
  ((p.call (.closeFile file.isSome)).call .close).call .epollDel

/-- `while ((n = read(FileFd, buf, sizeof(buf))) > 0)` from offset `pos` on. The flag says that
the loop came to its end; a failing `send` leaves it early. -/
def sendLoop (env : Env) (file : File) : Nat → Nat → Bytes → Progress → Bool × Progress
  | 0, _, _, p => (true, p)
  | fuel + 1, pos, buf, p =>
      let (n, buf) := readInto (some file) pos buf
      if n > 0 then
        if p.sendRet env n < 0 then (false, p.send env buf n)
        else sendLoop env file fuel (pos + n.toNat) buf (p.send env buf n)
      else (true, p)

/-- The branch for a regular file of `size` bytes. -/
def sendRegular (env : Env) (path : Bytes) (size : Int) (p : Progress) : Progress :=
  let p := sendHeader env 200 (getMimeType path) (toInt size) p
  match env.openFile (repath path) with
  | none => p.call (.openFile (repath path) false)
  | some file =>
      let p := p.call (.openFile (repath path) true)
      -- each round reads at least one byte, so this fuel is enough
      match sendLoop env file (file.content.length + 1) 0 (zeros 2048) p with
      | (true, p) => ((p.call (.closeFile true)).call .close).call .epollDel
      | (false, p) => p.call (.closeFile true)

/-- The list item of a directory. -/
def dirItem (repath name : Bytes) : Bytes :=
  ascii "<li><a href = \"." ++ repath ++ name ++ ascii "/\">" ++ name ++ ascii "</a></li>"

/-- The list item of a regular file. -/
def fileItem (repath name : Bytes) : Bytes :=
  ascii "<li><a href = \"." ++ repath ++ name ++ ascii "\">" ++ name ++ ascii "</a></li>"

/-- The loop over the scanned entries; `j` and `cache` are what the round before left. -/
def sendEntries (env : Env) (repath : Bytes) : List DirEnt → Int → Bytes → Progress →
    Int × Bytes × Progress
  | [], j, cache, p => (j, cache, p)
  | entry :: rest, j, _, p =>
      let cache := zeros 2048
      let (j, cache) :=
        if entry.dType &&& dtDir = dtDir then snprintf cache (dirItem repath entry.dName)
        else if entry.dType &&& dtReg = dtReg then snprintf cache (fileItem repath entry.dName)
        else (j, cache)
      sendEntries env repath rest j cache (p.send env cache j)

/-- The branch for a directory. -/
def sendDirectory (env : Env) (path : Bytes) (p : Progress) : Progress :=
  let p := sendHeader env 200 (getMimeType (ascii "*.html")) 0 p
  let p := p.call (.scandir (repath path))
  match env.scandir (repath path) with
  | none => p
  | some namelist =>
      let front := env.openFile (ascii "./SanfDir/front.html")
      let p := p.call (.openFile (ascii "./SanfDir/front.html") front.isSome)
      let (j, cache) := readInto front 0 (zeros 2048)
      let p := p.send env cache j
      let p := p.call (.closeFile front.isSome)
      let (_, cache, p) := sendEntries env (repath path) namelist j cache p
      let behind := env.openFile (ascii "./SanfDir/behind.html")
      let p := p.call (.openFile (ascii "./SanfDir/behind.html") behind.isSome)
      let (_, cache) := readInto behind 0 cache
      -- the third argument of this `send` is `num`, the number of entries
      let p := p.send env cache namelist.length
      ((p.call (.closeFile behind.isSome)).call .close).call .epollDel

/-- `SendData(cfd, path, epFd, ev)`: the calls it makes. -/
def sendData (env : Env) (path : Bytes) : List Call :=
  let p := Progress.start.call (.stat (repath path))
  (match env.stat (repath path) with
    | none => sendNotFound env p
    | some ⟨.regular, size⟩ => sendRegular env path size p
    | some ⟨.directory, _⟩ => sendDirectory env path p
    | some ⟨.other, _⟩ => p).calls

/-! ## The bytes a client receives -/

/-- The bytes the client's socket accepted in one call. -/
def Call.accepted : Call → Bytes
  | .send buf _ ret => buf.take ret.toNat
  | _ => []

/-- The bytes the client's socket accepted. -/
def accepted (calls : List Call) : Bytes :=
  calls.flatMap Call.accepted

/-- Between two stages the parts were sent, one `send` call each. -/
def Sent (env : Env) (p : Progress) (parts : List Bytes) (next : Progress) : Prop :=
  next.sends = p.sends + parts.length ∧
    accepted next.calls = accepted p.calls ++ acceptedParts env.send p.sends parts

variable {env : Env}

/-- A call other than `send` sends nothing. -/
theorem Sent.of_call {c : Call} (p : Progress) (hc : c.accepted = []) :
    Sent env p [] (p.call c) := by
  refine ⟨rfl, ?_⟩
  simp [Progress.call, accepted, acceptedParts, hc]

theorem Sent.refl (p : Progress) : Sent env p [] p :=
  ⟨rfl, (List.append_nil _).symm⟩

theorem Sent.trans {first second third : Progress} {parts more : List Bytes}
    (h : Sent env first parts second) (hnext : Sent env second more third) :
    Sent env first (parts ++ more) third := by
  obtain ⟨hsends, haccepted⟩ := h
  obtain ⟨hsendsNext, hacceptedNext⟩ := hnext
  refine ⟨by rw [hsendsNext, hsends, List.length_append, Nat.add_assoc], ?_⟩
  rw [hacceptedNext, haccepted, hsends, accepted_parts_append, List.append_assoc]

/-- Sending a part that is at the start of the buffer. -/
theorem Sent.of_send {p : Progress} {buf part : Bytes} (hpart : part.length < 2 ^ 64)
    (hbuf : ∀ k ≤ part.length, buf.take k = part.take k) :
    Sent env p [part] (p.send env buf part.length) := by
  refine ⟨rfl, ?_⟩
  have hle := (env.send p.sends).ret_le hpart
  simp [Progress.send, Progress.sendRet, accepted, acceptedParts, Call.accepted, hbuf _ hle]

/-- Sending a formatted text that fits its buffer. -/
theorem Sent.of_text {p : Progress} {buf text : Bytes} (hfit : text.length < buf.length)
    (hsize : buf.length < 2 ^ 64) : Sent env p [text] (p.sendText env buf text) :=
  .of_send (by omega) fun _ hk => take_snprintf hk hfit

/-! ## What each piece of `SendData` sends -/

/-- The parts of a header, in the order in which they are sent. -/
def headerParts (code : Int) (type : Bytes) (length : Int) : List Bytes :=
  [statusLine code, typeLine type] ++ (if length > 0 then [lengthLine length] else []) ++ [crlf]

/-- The line with a content type of `get_mime_type` fits its buffer. -/
theorem length_type_line_lt {type : Bytes} (htype : type.length ≤ 40) :
    (typeLine type).length < 1024 := by
  have hname : (ascii "Content-Type:").length = 13 := rfl
  rw [typeLine, length_line, hname]
  omega

/-- The line with the content length fits its buffer. -/
theorem length_length_line_lt {length : Int} (hlength : length.natAbs < 10 ^ 10) :
    (lengthLine length).length < 1024 := by
  have hname : (ascii "Content-length:").length = 15 := rfl
  have hdigits := length_decimalInt_le hlength
  rw [lengthLine, length_line, hname]
  omega

/-- Every part of a header is a nonempty text that fits its buffer. -/
theorem header_part_bound {code length : Int} {type part : Bytes}
    (hcode : (statusLine code).length < 1024) (htype : type.length ≤ 40)
    (hlength : length.natAbs < 10 ^ 10) (h : part ∈ headerParts code type length) :
    part ≠ [] ∧ part.length < 1024 := by
  have hcrlf : ∀ s : Bytes, s ++ crlf ≠ [] := by
    intro s
    simp [crlf]
  have hstatus : statusLine code ≠ [] ∧ (statusLine code).length < 1024 := ⟨hcrlf _, hcode⟩
  have htypeLine : typeLine type ≠ [] ∧ (typeLine type).length < 1024 :=
    ⟨hcrlf _, length_type_line_lt htype⟩
  have hlengthLine : lengthLine length ≠ [] ∧ (lengthLine length).length < 1024 :=
    ⟨hcrlf _, length_length_line_lt hlength⟩
  have hend : crlf ≠ [] ∧ crlf.length < 1024 := by decide
  unfold headerParts at h
  by_cases hpos : length > 0
  · simp only [hpos, if_true, List.mem_append, List.mem_cons, List.not_mem_nil, or_false] at h
    rcases h with ((rfl | rfl) | rfl) | rfl
    · exact hstatus
    · exact htypeLine
    · exact hlengthLine
    · exact hend
  · simp only [hpos, if_false, List.append_nil, List.mem_append, List.mem_cons, List.not_mem_nil,
      or_false] at h
    rcases h with (rfl | rfl) | rfl
    · exact hstatus
    · exact htypeLine
    · exact hend

/-- The buffer of `send_header` keeps its size. -/
theorem length_header_buffer {buf : Bytes} (h : buf.length = 1024) (text : Bytes) :
    (snprintf buf text).2.length = 1024 := by
  rw [length_snprintf (by omega), h]

/-- `send_header` sends its parts. They fit the buffer for a status code of `SendData`, a content
type of `get_mime_type` and any `int`. -/
theorem send_header_sent {code length : Int} {type : Bytes} (p : Progress)
    (hcode : (statusLine code).length < 1024) (htype : type.length ≤ 40)
    (hlength : length.natAbs < 10 ^ 10) :
    Sent env p (headerParts code type length) (sendHeader env code type length p) := by
  have hzeros : (zeros 1024).length = 1024 := List.length_replicate
  have hstatus := length_header_buffer hzeros (statusLine code)
  have htypeBuf := length_header_buffer hstatus (typeLine type)
  have htypeLine := length_type_line_lt htype
  have hlengthLine := length_length_line_lt hlength
  have hend : ∀ q : Progress, Sent env q [crlf] (q.send env (crlf ++ [0]) 2) :=
    fun q => .of_send (by decide) fun k hk => List.take_append_of_le_length hk
  have hstatusSent : Sent env p [statusLine code] (p.sendText env (zeros 1024) (statusLine code)) :=
    .of_text (hcode.trans_eq hzeros.symm) (by omega)
  have htypeSent : ∀ q : Progress, Sent env q [typeLine type]
      (q.sendText env (snprintf (zeros 1024) (statusLine code)).2 (typeLine type)) :=
    fun q => .of_text (htypeLine.trans_eq hstatus.symm) (by omega)
  have hlengthSent : ∀ q : Progress, Sent env q [lengthLine length]
      (q.sendText env (snprintf (snprintf (zeros 1024) (statusLine code)).2 (typeLine type)).2
        (lengthLine length)) :=
    fun q => .of_text (hlengthLine.trans_eq htypeBuf.symm) (by omega)
  unfold sendHeader headerParts
  by_cases hpos : length > 0
  · simp only [hpos, if_true]
    exact ((hstatusSent.trans (htypeSent _)).trans (hlengthSent _)).trans (hend _)
  · simp only [hpos, if_false, List.append_nil]
    exact (hstatusSent.trans (htypeSent _)).trans (hend _)

/-- A round of the send loop with a block. -/
theorem send_loop_block {file : File} {fuel pos : Nat} {buf block : Bytes} {p : Progress}
    (hbuf : buf.length = 2048) (hread : file.read pos 2048 = some block) (hne : block ≠ []) :
    sendLoop env file (fuel + 1) pos buf p =
      if (env.send p.sends).fails then (false, p.send env (overwrite block buf) block.length)
      else sendLoop env file fuel (pos + block.length) (overwrite block buf)
        (p.send env (overwrite block buf) block.length) := by
  have hpos : 0 < (block.length : Int) := by
    exact_mod_cast List.length_pos_iff.mpr hne
  simp only [sendLoop, readInto, Option.bind_some, hbuf, hread, gt_iff_lt, hpos, if_true,
    Progress.sendRet, SendOutcome.ret_neg_iff, Int.toNat_natCast]

/-- The round in which the read returns 0 or fails. -/
theorem send_loop_end {file : File} {fuel pos : Nat} {buf : Bytes} {p : Progress}
    (hbuf : buf.length = 2048) (hread : ∀ b bs, file.read pos 2048 ≠ some (b :: bs)) :
    sendLoop env file (fuel + 1) pos buf p = (true, p) := by
  cases hdata : file.read pos 2048 with
  | none => simp [sendLoop, readInto, hbuf, hdata]
  | some data =>
      cases data with
      | nil => simp [sendLoop, readInto, hbuf, hdata]
      | cons b bs => exact absurd hdata (hread b bs)

variable (env) in
/-- The send loop comes to its end exactly when no `send` of a block fails, and has then sent the
blocks of the file. It does not close the connection. -/
theorem send_loop_spec (file : File) (fuel pos : Nat) (p : Progress) {buf : Bytes}
    (hbuf : buf.length = 2048) :
    ((sendLoop env file fuel pos buf p).1 = true ↔
        ∀ i < (file.readsFrom 2048 fuel pos).length, (env.send (p.sends + i)).fails = false) ∧
      ((sendLoop env file fuel pos buf p).1 = true →
        Sent env p (file.readsFrom 2048 fuel pos) (sendLoop env file fuel pos buf p).2) ∧
      (.close ∈ (sendLoop env file fuel pos buf p).2.calls ↔ .close ∈ p.calls) := by
  induction fuel generalizing pos p buf with
  | zero => exact ⟨by simp [sendLoop, File.readsFrom], fun _ => .refl p, Iff.rfl⟩
  | succ fuel ih =>
      rw [File.readsFrom]
      split
      · next b bs hread =>
          have hlen : (b :: bs).length ≤ 2048 := by
            rw [File.read_eq_some hread]
            exact List.length_take_le 2048 _
          have hsent : Sent env p [b :: bs]
              (p.send env (overwrite (b :: bs) buf) (b :: bs).length) :=
            .of_send (by omega) fun k hk => take_overwrite hk
          have hclose : .close ∈ (p.send env (overwrite (b :: bs) buf) (b :: bs).length).calls ↔
              .close ∈ p.calls := by
            simp [Progress.send]
          rw [send_loop_block hbuf hread (List.cons_ne_nil b bs)]
          -- the loop goes on with the next block if this `send` did not fail
          cases hfails : (env.send p.sends).fails with
          | true =>
              refine ⟨?_, fun h => absurd h (by simp), by simpa using hclose⟩
              refine iff_of_false (by simp) fun h => ?_
              have := h 0 (by simp)
              rw [Nat.add_zero, hfails] at this
              cases this
          | false =>
              obtain ⟨hend, hblocks, hcloseRest⟩ := ih (pos + (b :: bs).length)
                (p.send env (overwrite (b :: bs) buf) (b :: bs).length)
                (by rw [length_overwrite (hbuf.symm ▸ hlen), hbuf])
              rw [if_neg Bool.false_ne_true]
              refine ⟨?_, fun h => hsent.trans (hblocks h), hcloseRest.trans hclose⟩
              rw [hend]
              constructor
              · intro h i hi
                cases i with
                | zero => exact hfails
                | succ i =>
                    have := h i (by simpa using hi)
                    rwa [show p.sends + (i + 1) = p.sends + 1 + i by omega]
              · intro h i hi
                have := h (i + 1) (by simpa using hi)
                rwa [show p.sends + (i + 1) = p.sends + 1 + i by omega] at this
      · next hread =>
          rw [send_loop_end hbuf fun b bs hdata => hread b bs hdata]
          exact ⟨by simp, fun _ => .refl p, Iff.rfl⟩

end UnixNet.EpollWeb
