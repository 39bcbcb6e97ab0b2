import UnixNet.EventWb.Requests

/-!
# Framing of the responses of the libevent test server

`http_request` leaves the connection open. Its response to a request for a file is delimited by the
length that the header announces. The header of the error page announces none, which `copy_header`
is told by a negative size; the header of a directory page announces the size of the directory,
which need not be the length of the page (`directory_delimited_iff`).
-/

namespace UnixNet.EventWb

open NetLib UnixNet.Pub UnixNet.Bufferevent

/-- The lines of the entries, from the entry number `i` on. -/
def entryLines (env : Env) : Nat → List DirEnt → Bytes
  | _, [] => []
  | i, dent :: rest => (entryLine env i dent).getD [] ++ entryLines env (i + 1) rest

/-- The page that `send_dir` composes for a directory. -/
def dirPage (env : Env) (strPath : Bytes) : Bytes :=
  readable env dirPrefixFile ++
    match env.openDir strPath with
    | none => []
    | some entries => entryLines env 0 entries ++ readable env dirTailFile

variable {env : Env}

/-! ## The connection stays open -/

/-- The header is one write. -/
theorem copy_header_working (op filesize : Int) (msg filetype : Bytes) (p : Progress) :
    Working p (copyHeader env op msg filetype filesize p) :=
  .write p _ _

/-- The calls of `copy_file`. -/
def OnFile : Call → Prop
  | .openFile _ _ | .closeFile _ | .write _ _ => True
  | _ => False

/-- The copy loop only writes. -/
theorem copy_loop_makes (file : File) (fuel pos : Nat) (buf : Bytes) (p : Progress) :
    Makes OnFile p (copyLoop env file fuel pos buf p) := by
  induction fuel generalizing pos buf p with
  | zero => exact .refl p
  | succ fuel ih =>
      rw [copyLoop]
      generalize readInto (some file) pos buf = read
      obtain ⟨ret, buf⟩ := read
      by_cases hret : ret > 0
      · simp only [hret, if_true]
        exact (Makes.write (fun _ _ => trivial) p buf ret).trans (ih _ _ _)
      · simp only [hret, if_false]
        exact .refl p

/-- `copy_file` opens a file, writes it and closes it. -/
theorem copy_file_makes (strFile : Bytes) (p : Progress) :
    Makes OnFile p (copyFile env strFile p) := by
  unfold copyFile
  cases env.openFile strFile with
  | none => exact (Makes.call p trivial).trans (.call _ trivial)
  | some file =>
      have hopened : Makes OnFile p (p.call (.openFile strFile true)) := .call p trivial
      exact (hopened.trans (copy_loop_makes file _ _ _ _)).trans (.call _ trivial)

theorem copy_file_working (strFile : Bytes) (p : Progress) :
    Working p (copyFile env strFile p) :=
  .of_makes (copy_file_makes strFile p) id

/-- The loop over the entries looks each of them up, and writes. -/
theorem send_entries_working (i : Nat) (entries : List DirEnt) (p : Progress) :
    Working p (sendEntries env i entries p) := by
  induction entries generalizing i p with
  | nil => exact .refl p
  | cons dent rest ih =>
      have hstat : Working p (p.call (.stat dent.dName)) := .call p (by simp)
      rw [sendEntries]
      refine (hstat.trans ?_).trans (ih _ _)
      cases entryLine env i dent with
      | none => exact .refl _
      | some line => exact .write _ line _

/-- `send_dir` writes a page. -/
theorem send_dir_working (strPath : Bytes) (p : Progress) :
    Working p (sendDir env strPath p) := by
  have hfront : Working p (copyFile env dirPrefixFile p) := copy_file_working dirPrefixFile p
  unfold sendDir
  cases env.openDir strPath with
  | none => exact hfront.trans (.call _ (by simp))
  | some entries =>
      have hentries : ∀ q, Working q (sendEntries env 0 entries q) := send_entries_working 0 entries
      have hopened : ∀ q : Progress, Working q (q.call (.openDir strPath true)) :=
        fun q => .call q (by simp)
      have hclosed : ∀ q : Progress, Working q (q.call .closeDir) := fun q => .call q (by simp)
      exact (((hfront.trans (hopened _)).trans (hentries _)).trans (hclosed _)).trans
        (copy_file_working dirTailFile _)

variable (env) in
/-- `http_request` first looks up the file, and the connection stays open whatever it does then. -/
theorem http_request_working (path : Bytes) :
    ∃ next, httpRequest env path = next.calls ∧
      Working (Progress.start.call (.stat (strPath path))) next := by
  refine ⟨_, rfl, ?_⟩
  cases hstat : env.stat (strPath path) with
  | none => exact (copy_header_working _ _ _ _ _).trans (copy_file_working _ _)
  | some fileStat =>
      obtain ⟨kind, size⟩ := fileStat
      cases kind with
      | regular => exact (copy_header_working _ _ _ _ _).trans (copy_file_working _ _)
      | directory => exact (copy_header_working _ _ _ _ _).trans (send_dir_working _ _)
      | other => exact .refl _

/-- The first call of `http_request`. -/
theorem http_request_head (env : Env) (path : Bytes) :
    (httpRequest env path).head? = some (.stat (strPath path)) := by
  obtain ⟨next, hcalls, hworking⟩ := http_request_working env path
  rw [hcalls]
  exact hworking.head (List.cons_ne_nil _ _)

/-- `http_request` never frees the connection. -/
theorem http_request_free (env : Env) (path : Bytes) : .free ∉ httpRequest env path := by
  obtain ⟨next, hcalls, hworking⟩ := http_request_working env path
  rw [hcalls, hworking.free_iff]
  simp [Progress.start, Progress.call]

/-! ## The response -/

/-- The loop over the entries queues their lines. -/
theorem send_entries_queued (hwrites : ∀ i, env.write i = true) (i : Nat) (entries : List DirEnt)
    (p : Progress) :
    queued (sendEntries env i entries p).calls = queued p.calls ++ entryLines env i entries := by
  induction entries generalizing i p with
  | nil => simp [sendEntries, entryLines]
  | cons dent rest ih =>
      rw [sendEntries, ih, entryLines]
      cases entryLine env i dent with
      | none =>
          show queued (p.call _).calls ++ _ = _
          rw [queued_call _ rfl]
          rfl
      | some bufline =>
          show queued ((p.call _).write env.toEnv bufline bufline.length).2.calls ++ _ = _
          rw [queued_write_text hwrites, queued_call _ rfl, List.append_assoc]
          rfl

/-- `send_dir` queues the page of the directory. -/
theorem send_dir_queued (hwrites : ∀ i, env.write i = true) (strPath : Bytes) (p : Progress) :
    queued (sendDir env strPath p).calls = queued p.calls ++ dirPage env strPath := by
  unfold sendDir dirPage
  cases env.openDir strPath with
  | none =>
      show queued ((copyFile env dirPrefixFile p).call _).calls = _
      rw [queued_call _ rfl, copy_file_queued hwrites, List.append_nil]
  | some entries =>
      show queued (copyFile env dirTailFile ((sendEntries env 0 entries
        ((copyFile env dirPrefixFile p).call _)).call _)).calls = _
      rw [copy_file_queued hwrites, queued_call _ rfl, send_entries_queued hwrites,
        queued_call _ rfl, copy_file_queued hwrites]
      simp only [List.append_assoc]

/-- A response that consists of a header and a body is read as these. The header announces a size
that is not negative, and no length for a negative one. -/
theorem response_read (op filesize : Int) (msg name body : Bytes)
    (hstatus : IsHeaderLine (ascii "HTTP/1.1 " ++ decimalInt op ++ ascii " " ++ msg) ∧
      (58 : UInt8) ∉ ascii "HTTP/1.1 " ++ decimalInt op ++ ascii " " ++ msg) :
    ∃ lines,
      parseHead (renderHead (headerLines op msg (getMimeType name) filesize) ++ crlf ++ body) =
          some (lines, body) ∧
        contentLength lines = if filesize ≥ 0 then some filesize.natAbs else none := by
  have htype : IsHeaderLine (ascii "Content-Type: " ++ getMimeType name) :=
    .of_label (by decide) (cr_not_mem_mime_type name)
  refine ⟨headerLines op msg (getMimeType name) filesize, ?_, ?_⟩
  · rw [List.append_assoc]
    exact parse_head_message body (response_lines_safe hstatus.1 htype)
  · have hblank : ascii "Content-Type: " = ascii "Content-Type:" ++ [32] := rfl
    have hwritten : ascii "Content-Type:" = ascii "Content-Type" ++ [58] := rfl
    rw [headerLines, hblank, List.append_assoc (ascii "Content-Type:")]
    exact content_length_response_lines _ _ hstatus.2 hwritten (by decide) (by decide)

/-- The response to a request for a path that does not exist: an error page. -/
theorem queued_not_found (hwrites : ∀ i, env.write i = true) {path : Bytes}
    (hstat : env.stat (strPath path) = none) :
    queued (httpRequest env path) =
      renderHead (headerLines 404 (ascii "NOT FOUND") (getMimeType (ascii "error.html")) (-1)) ++
        crlf ++ readable env (ascii "error.html") := by
  simp only [httpRequest, hstat]
  rw [copy_file_queued hwrites, copy_header_queued hwrites]
  rfl

/-- The response to a request for a regular file. -/
theorem queued_regular (hwrites : ∀ i, env.write i = true) {path : Bytes} {size : Int}
    (hstat : env.stat (strPath path) = some ⟨.regular, size⟩) :
    queued (httpRequest env path) =
      renderHead (headerLines 200 (ascii "OK") (getMimeType (strPath path)) size) ++ crlf ++
        readable env (strPath path) := by
  simp only [httpRequest, hstat]
  rw [copy_file_queued hwrites, copy_header_queued hwrites]
  rfl

/-- The response to a request for a directory. -/
theorem queued_directory (hwrites : ∀ i, env.write i = true) {path : Bytes} {size : Int}
    (hstat : env.stat (strPath path) = some ⟨.directory, size⟩) :
    queued (httpRequest env path) =
      renderHead (headerLines 200 (ascii "OK") (getMimeType (ascii "ww.html")) size) ++ crlf ++
        dirPage env (strPath path) := by
  simp only [httpRequest, hstat]
  rw [send_dir_queued hwrites, copy_header_queued hwrites]
  rfl

/-- The page of a directory is delimited exactly if its length happens to be the size of the
directory. -/
theorem directory_delimited_iff (hwrites : ∀ i, env.write i = true) {path : Bytes} {size : Int}
    (hstat : env.stat (strPath path) = some ⟨.directory, size⟩) :
    SelfDelimiting (queued (httpRequest env path)) ↔
      (dirPage env (strPath path)).length = size := by
  obtain ⟨lines, hlines, hlength⟩ := response_read 200 size (ascii "OK") (ascii "ww.html")
    (dirPage env (strPath path)) (by decide)
  rw [queued_directory hwrites hstat, SelfDelimiting, hlines]
  constructor
  · rintro ⟨found, body, hhead, hannounced⟩
    obtain ⟨rfl, rfl⟩ := Prod.mk.inj (Option.some.inj hhead)
    rw [hlength] at hannounced
    by_cases hsize : size ≥ 0
    · rw [if_pos hsize] at hannounced
      have := Option.some.inj hannounced
      omega
    · rw [if_neg hsize] at hannounced
      cases hannounced
  · intro hpage
    refine ⟨lines, _, rfl, ?_⟩
    rw [hlength, if_pos (by omega), ← hpage, Int.natAbs_natCast]

/-- Responses on a connection that stays open. For every request path, the connection is not freed,
whatever becomes of the writes. When libevent queues every write, the response to a request for a
regular file that can be opened and read is a header that announces the length of the body, and a
body that is the content of the file; and the response for a path that does not exist is a header
that announces no length, and what can be read of the error page. -/
theorem response_framing (env : Env) (path : Bytes) :
    .free ∉ httpRequest env path ∧ ((∀ i, env.write i = true) →
      (∀ file : File, env.stat (strPath path) = some ⟨.regular, file.content.length⟩ →
        env.openFile (strPath path) = some file → (∀ pos, file.readFails pos = false) →
        Carries (queued (httpRequest env path)) file.content) ∧
      (env.stat (strPath path) = none →
        ∃ lines, parseHead (queued (httpRequest env path)) =
            some (lines, readable env (ascii "error.html")) ∧ contentLength lines = none)) := by
  refine ⟨http_request_free env path, fun hwrites => ⟨?_, ?_⟩⟩
  · intro file hstat hopen hreads
    have hbody : readable env (strPath path) = file.content := by
      rw [readable, hopen]
      exact File.reads_flatten_eq (by decide) hreads
    obtain ⟨lines, hlines, hlength⟩ := response_read 200 file.content.length (ascii "OK")
      (strPath path) file.content (by decide)
    refine ⟨lines, ?_, ?_⟩
    · rw [queued_regular hwrites hstat, hbody]
      exact hlines
    · rw [hlength, if_pos (Int.natCast_nonneg _), Int.natAbs_natCast]
  · intro hstat
    obtain ⟨lines, hlines, hlength⟩ := response_read 404 (-1) (ascii "NOT FOUND")
      (ascii "error.html") (readable env (ascii "error.html")) (by decide)
    refine ⟨lines, ?_, ?_⟩
    · rw [queued_not_found hwrites hstat]
      exact hlines
    · rw [hlength, if_neg (by decide)]

/-- A document root with a file `a` of two bytes, a file `b` that cannot be opened, and a directory
without entries. -/
def eventRoot : Env where
  stat path :=
    if path = ascii "a" ∨ path = ascii "b" then some ⟨.regular, 2⟩
    else if path = ascii "./" then some ⟨.directory, 4096⟩
    else none
  openFile path := if path = ascii "a" then some ⟨ascii "AB", fun _ => false⟩ else none
  scandir _ := none
  write _ := true
  openDir path := if path = ascii "./" then some [] else none
  staleSize _ := 0

/-- The response for the file `a`. -/
theorem response_framing_file :
    Carries (queued (httpRequest eventRoot (ascii "/a"))) (ascii "AB") :=
  ((response_framing eventRoot (ascii "/a")).2 fun _ => rfl).1 ⟨ascii "AB", fun _ => false⟩
    (by decide) rfl fun _ => rfl

/-- The responses for a missing path, a directory and a file that cannot be opened are not
delimited. -/
theorem response_not_delimited :
    ¬ SelfDelimiting (queued (httpRequest eventRoot (ascii "/x"))) ∧
      ¬ SelfDelimiting (queued (httpRequest eventRoot (ascii "/"))) ∧
      ¬ SelfDelimiting (queued (httpRequest eventRoot (ascii "/b"))) := by
  refine ⟨?_, ?_, ?_⟩ <;> decide +kernel

end UnixNet.EventWb
