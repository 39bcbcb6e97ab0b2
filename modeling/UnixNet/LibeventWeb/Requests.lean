import UnixNet.Bufferevent
import UnixNet.Pub.MimeType

/-!
# `processingRequests`, `sendHeader` and `sendFile` of the libevent web server

The reply to a GET request as the calls it makes on the bufferevent and on the file system.
`send_header_eq` and `send_file_queued` say what the two helpers queue, and
`processing_requests_eq` which requests end in the `bufferevent_free`.
-/

namespace UnixNet.LibeventWeb

open NetLib UnixNet.Pub UnixNet.Bufferevent

/-- The status line. -/
def statusLine (code : Int) (msg : Bytes) : Bytes :=
  ascii "HTTP/1.1 " ++ decimalInt code ++ ascii " " ++ msg ++ crlf

/-- The line with the content type. -/
def typeLine (type : Bytes) : Bytes :=
  ascii "Content-Type:" ++ type ++ crlf

/-- The line with the content length. -/
def lengthLine (length : Int) : Bytes :=
  ascii "Content-Length:" ++ decimalInt length ++ crlf

/-- `sendHeader(bev, code, msg, type, length)`. Every write is checked, and the function returns at
the first that fails. Only what `snprintf` puts into `buf` is used of it. -/
def sendHeader (env : Env) (code : Int) (msg type : Bytes) (length : Int) (p : Progress) :
    Progress :=
  let (len, buf) := snprintf (zeros 1500) (statusLine code msg)
  let (state, p) := p.write env buf len
  if state < 0 then p
  else
    let (len, buf) := snprintf buf (typeLine type)
    let (state, p) := p.write env buf len
    if state < 0 then p
    else if length > 0 then
      let (len, buf) := snprintf buf (lengthLine length)
      let (state, p) := p.write env buf len
      if state < 0 then p else (p.write env crlf 2).2
    else (p.write env crlf 2).2

/-- `sendFile(bev, path)`: one `read` into a buffer of 5060 bytes. -/
def sendFile (env : Env) (path : Bytes) (p : Progress) : Progress :=
  match env.openFile path with
  | none => (p.call (.openFile path false)).call (.closeFile false)
  | some file =>
      let p := p.call (.openFile path true)
      let (len, buf) := readInto (some file) 0 (zeros 5060)
      if len < 0 then p.call (.closeFile true)
      else (p.write env buf len).2.call (.closeFile true)

/-- `snprintf(repath, sizeof(repath), ".%s", path)`: the path handed to `stat` and `open`. -/
def repath (path : Bytes) : Bytes :=
  (46 :: path).take 255

/-- The list item of a directory. -/
def dirItem (repath name : Bytes) : Bytes :=
  ascii "<li><a href = \"" ++ repath ++ ascii "/" ++ name ++ ascii "/\">" ++ name ++
    ascii "</a></li>"

/-- The list item of a regular file. -/
def fileItem (repath name : Bytes) : Bytes :=
  ascii "<li><a href = \"" ++ repath ++ ascii "/" ++ name ++ ascii "\">" ++ name ++
    ascii "</a></li>"

/-- The loop over the scanned entries; `n` is what the round before left. -/
def sendEntries (env : Env) (repath : Bytes) : List DirEnt → Int → Progress → Progress
  | [], _, p => p
  | entry :: rest, n, p =>
      let cache := zeros 2048
      let (n, cache) :=
        if entry.dType &&& dtDir = dtDir then snprintf cache (dirItem repath entry.dName)
        else if entry.dType &&& dtReg = dtReg then snprintf cache (fileItem repath entry.dName)
        else (n, cache)
      sendEntries env repath rest n (p.write env cache n).2

/-- The branch for a directory. -/
def sendDirectory (env : Env) (path : Bytes) (p : Progress) : Progress :=
  let p := sendHeader env 200 (ascii "OK") (getMimeType (ascii "*.html")) 0 p
  let p := sendFile env (ascii "./SanfDir/front.html") p
  let p := p.call (.scandir (repath path))
  match env.scandir (repath path) with
  | none => p
  | some namelist =>
      let p := sendEntries env (repath path) namelist 0 p
      (sendFile env (ascii "./SanfDir/behind.html") p).call .free

/-- `processingRequests(bev, path)`: the calls it makes. -/
def processingRequests (env : Env) (path : Bytes) : List Call :=
  let p := Progress.start.call (.stat (repath path))
  (match env.stat (repath path) with
    | none =>
        let p := sendHeader env 404 (ascii "Not Found") (getMimeType (ascii "*.html")) 0 p
        (sendFile env (ascii "./error.html") p).call .free
    | some ⟨.regular, size⟩ =>
        let p := sendHeader env 200 (ascii "OK") (getMimeType path) (toInt size) p
        (sendFile env (repath path) p).call .free
    | some ⟨.directory, _⟩ => sendDirectory env path p
    | some ⟨.other, _⟩ => p).calls

/-! ## What the helpers queue -/

variable (env : Env)

/-- The texts of a header, in the order in which they are written. -/
def headerTexts (code : Int) (msg type : Bytes) (length : Int) : List Bytes :=
  [statusLine code msg, typeLine type] ++ (if length > 0 then [lengthLine length] else []) ++
    [crlf]

/-- The line with a content type of `get_mime_type` fits its buffer. -/
theorem length_type_line_lt {type : Bytes} (htype : type.length ≤ 40) :
    (typeLine type).length < 1500 := by
  have hname : (ascii "Content-Type:").length = 13 := rfl
  rw [typeLine, length_line, hname]
  omega

/-- The line with the content length fits its buffer. -/
theorem length_length_line_lt {length : Int} (hlength : length.natAbs < 10 ^ 10) :
    (lengthLine length).length < 1500 := by
  have hname : (ascii "Content-Length:").length = 15 := rfl
  have hdigits := length_decimalInt_le hlength
  rw [lengthLine, length_line, hname]
  omega

/-- `sendHeader` writes its texts until a write fails. They fit the buffer for a status line of
`processingRequests`, a content type of `get_mime_type` and any `int`. -/
theorem send_header_eq {code length : Int} {msg type : Bytes} (p : Progress)
    (hstatus : (statusLine code msg).length < 1500) (htype : type.length ≤ 40)
    (hlength : length.natAbs < 10 ^ 10) :
    sendHeader env code msg type length p = writeAll env (headerTexts code msg type length) p := by
  have hzeros : (zeros 1500).length = 1500 := List.length_replicate
  have hbuf : (snprintf (zeros 1500) (statusLine code msg)).2.length = 1500 := by
    rw [length_snprintf (by omega), hzeros]
  have hbufNext : (snprintf (snprintf (zeros 1500) (statusLine code msg)).2
      (typeLine type)).2.length = 1500 := by
    rw [length_snprintf (by omega), hbuf]
  have htypeLine := length_type_line_lt htype
  have hlengthLine := length_length_line_lt hlength
  have hend : ∀ q : Progress, (q.write env crlf 2).2 = writeAll env [crlf] q := by
    intro q
    rw [writeAll, writeAll]
    split <;> rfl
  unfold sendHeader headerTexts
  simp only [write_text env (hzeros.symm ▸ hstatus), write_text env (hbuf.symm ▸ htypeLine),
    write_text env (hbufNext.symm ▸ hlengthLine), hend]
  by_cases hpos : length > 0
  · simp only [hpos, if_true]
    rfl
  · simp only [hpos, if_false]
    rfl

/-- `sendFile` queues the first 5060 bytes of a file that it can open and read, if the write
succeeds. -/
theorem send_file_queued {path : Bytes} {file : File} (hopen : env.openFile path = some file)
    (p : Progress) :
    queued (sendFile env path p).calls =
      queued p.calls ++
        (if file.readFails 0 = false ∧ env.write p.writes = true then file.content.take 5060
          else []) := by
  have hbuf : (zeros 5060).length = 5060 := List.length_replicate
  unfold sendFile
  simp only [hopen]
  cases hread : file.readFails 0 with
  | true =>
      have hfail : readInto (some file) 0 (zeros 5060) = (-1, zeros 5060) := by
        simp [readInto, File.read, hread]
      rw [hfail, if_pos (by decide), queued_call _ rfl, queued_call _ rfl]
      simp
  | false =>
      have hdata : readInto (some file) 0 (zeros 5060) =
          (((file.content.take 5060).length : Int),
            overwrite (file.content.take 5060) (zeros 5060)) := by
        simp [readInto, File.read, hread, hbuf]
      rw [hdata, if_neg (by omega), queued_call _ rfl, queued_write, queued_call _ rfl,
        Int.toNat_natCast, take_overwrite (Nat.le_refl _), List.take_length]
      show queued p.calls ++ (if env.write p.writes = true then _ else _) = _
      cases env.write p.writes <;> simp

/-! ## Which requests free the connection -/

/-- The request is answered to the end: the file does not exist, or it is a regular file, or a
directory that can be scanned. -/
def frees (env : Env) (path : Bytes) : Bool :=
  match env.stat (repath path) with
  | none => true
  | some ⟨.regular, _⟩ => true
  | some ⟨.directory, _⟩ => (env.scandir (repath path)).isSome
  | some ⟨.other, _⟩ => false

/-- `sendHeader` only writes, and the status line first. -/
theorem send_header_first (code length : Int) (msg type : Bytes) (p : Progress) :
    Working (p.write env (snprintf (zeros 1500) (statusLine code msg)).2
        (snprintf (zeros 1500) (statusLine code msg)).1).2
      (sendHeader env code msg type length p) := by
  have hwrite : ∀ (first q : Progress) (data : Bytes) (size : Int), Working first q →
      Working first (q.write env data size).2 := fun _ q data size h => h.trans (.write q data size)
  unfold sendHeader
  simp only
  split
  · exact .refl _
  · split
    · exact hwrite _ _ _ _ (.refl _)
    · split
      · split
        · exact hwrite _ _ _ _ (hwrite _ _ _ _ (.refl _))
        · exact hwrite _ _ _ _ (hwrite _ _ _ _ (hwrite _ _ _ _ (.refl _)))
      · exact hwrite _ _ _ _ (hwrite _ _ _ _ (.refl _))

/-- `sendHeader` does not free the connection. -/
theorem send_header_working (code length : Int) (msg type : Bytes) (p : Progress) :
    Working p (sendHeader env code msg type length p) :=
  (Working.write p _ _).trans (send_header_first env code length msg type p)

/-- `sendFile` opens a file, writes a part of it and closes it. -/
theorem send_file_working (path : Bytes) (p : Progress) :
    Working p (sendFile env path p) := by
  unfold sendFile
  cases env.openFile path with
  | none => exact (Working.call p (by simp)).trans (.call _ (by simp))
  | some file =>
      have hopened : Working p (p.call (.openFile path true)) := .call p (by simp)
      have hclosed : ∀ q : Progress, Working q (q.call (.closeFile true)) :=
        fun q => .call q (by simp)
      simp only
      split
      · exact hopened.trans (hclosed _)
      · exact (hopened.trans (.write _ _ _)).trans (hclosed _)

/-- The loop over the entries only writes. -/
theorem send_entries_working (repath : Bytes) (entries : List DirEnt) (n : Int) (p : Progress) :
    Working p (sendEntries env repath entries n p) := by
  induction entries generalizing n p with
  | nil => exact .refl p
  | cons entry rest ih =>
      rw [sendEntries]
      exact (Working.write p _ _).trans (ih _ _)

/-- The branch for a directory writes a header, and frees the connection if the directory can be
scanned. -/
theorem send_directory_eq (path : Bytes) (p : Progress) :
    ∃ next,
      Working (sendHeader env 200 (ascii "OK") (getMimeType (ascii "*.html")) 0 p) next ∧
      (sendDirectory env path p).calls =
        next.calls ++ if (env.scandir (repath path)).isSome then [.free] else [] := by
  have hscanned : ∀ q : Progress, Working q (q.call (.scandir (repath path))) :=
    fun q => .call q (by simp)
  have hfront := (send_file_working env (ascii "./SanfDir/front.html")
    (sendHeader env 200 (ascii "OK") (getMimeType (ascii "*.html")) 0 p)).trans (hscanned _)
  unfold sendDirectory
  cases env.scandir (repath path) with
  | none => exact ⟨_, hfront, (List.append_nil _).symm⟩
  | some namelist =>
      exact ⟨_, (hfront.trans (send_entries_working env _ namelist 0 _)).trans
        (send_file_working env (ascii "./SanfDir/behind.html") _), rfl⟩

/-- `processingRequests` first looks up the file. It then does nothing, or it writes a header with a
status line that fits its buffer, and goes on. It frees the connection at most once, with its last
call, and does so exactly for the requests of `frees`. -/
theorem processing_requests_eq (path : Bytes) :
    ∃ next,
      processingRequests env path = next.calls ++ (if frees env path then [.free] else []) ∧
      (frees env path = false ∧ next = Progress.start.call (.stat (repath path)) ∨
        ∃ code msg type length, (statusLine code msg).length < 1500 ∧
          Working (sendHeader env code msg type length
            (Progress.start.call (.stat (repath path)))) next) := by
  have hmissing : (statusLine 404 (ascii "Not Found")).length < 1500 := by decide
  have hok : (statusLine 200 (ascii "OK")).length < 1500 := by decide
  unfold processingRequests frees
  cases env.stat (repath path) with
  | none => exact ⟨_, rfl, .inr ⟨404, _, _, 0, hmissing, send_file_working env _ _⟩⟩
  | some fileStat =>
      obtain ⟨kind, size⟩ := fileStat
      cases kind with
      | regular => exact ⟨_, rfl, .inr ⟨200, _, _, toInt size, hok, send_file_working env _ _⟩⟩
      | directory =>
          obtain ⟨next, hworking, hcalls⟩ :=
            send_directory_eq env path (Progress.start.call (.stat (repath path)))
          exact ⟨next, hcalls, .inr ⟨200, _, _, 0, hok, hworking⟩⟩
      | other => exact ⟨_, (List.append_nil _).symm, .inl ⟨rfl, rfl⟩⟩

/-- The calls before the free. -/
theorem processing_requests_working (path : Bytes) :
    ∃ next, Working (Progress.start.call (.stat (repath path))) next ∧
      processingRequests env path = next.calls ++ if frees env path then [.free] else [] := by
  obtain ⟨next, hcalls, ⟨-, rfl⟩ | ⟨code, msg, type, length, -, hworking⟩⟩ :=
    processing_requests_eq env path
  · exact ⟨_, .refl _, hcalls⟩
  · exact ⟨next, (send_header_working env code length msg type _).trans hworking, hcalls⟩

/-- The only `bufferevent_free` of `processingRequests` is its last call. -/
theorem processing_requests_free (path : Bytes) :
    ∃ made, .free ∉ made ∧
      processingRequests env path = made ++ if frees env path then [.free] else [] := by
  obtain ⟨next, hworking, hcalls⟩ := processing_requests_working env path
  refine ⟨next.calls, ?_, hcalls⟩
  rw [hworking.free_iff]
  simp [Progress.start, Progress.call]

/-- The first call of `processingRequests`. -/
theorem processing_requests_head (path : Bytes) :
    (processingRequests env path).head? = some (.stat (repath path)) := by
  obtain ⟨next, hworking, hcalls⟩ := processing_requests_working env path
  have hhead := hworking.head (List.cons_ne_nil _ _)
  rw [hcalls, List.head?_append, hhead]
  rfl

end UnixNet.LibeventWeb
