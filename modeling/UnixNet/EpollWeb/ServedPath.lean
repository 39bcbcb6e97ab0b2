import UnixNet.EpollWeb.Tokens

/-!
# The file that `SendData` looks for

The file name of a GET request goes through the 1500 bytes of the line's buffer and the 1024 bytes
of `repath`. `stat` and `open` are given the path that the client sent only if it fits into the
second (`path_served_iff`): a longer path is cut, and the cut path may be that of another file.
-/

namespace UnixNet.EpollWeb

open NetLib UnixNet.Pub UnixNet.Wrap

/-! ## The files of a reply -/

/-- The files of which the pages of `SendData` are made. -/
def pageFiles : List Bytes :=
  [ascii "./error.html", ascii "./SanfDir/front.html", ascii "./SanfDir/behind.html"]

/-- The call looks at no file but `target` and the page files. -/
def Call.LooksAt (target : Bytes) : Call → Prop
  | .stat path => path = target
  | .openFile path _ => path = target ∨ path ∈ pageFiles
  | .scandir path => path = target
  | _ => True

/-- The client is sent something. -/
def Answered (calls : List Call) : Prop :=
  ∃ c ∈ calls, c.IsSend

variable {env : Env}

/-- Calls of `send` look at no file. -/
theorem Makes.looks_at {p next : Progress} (h : Makes Call.IsSend p next) (target : Bytes) :
    Makes (Call.LooksAt target) p next := by
  obtain ⟨made, hcalls, hsends⟩ := h
  refine ⟨made, hcalls, fun c hc => ?_⟩
  cases c with
  | send => trivial
  | _ => exact (hsends _ hc).elim

/-- The client is answered, and since `p` only `target` and the page files were looked at. -/
def Replies (target : Bytes) (p next : Progress) : Prop :=
  Answered next.calls ∧ Makes (Call.LooksAt target) p next

theorem Replies.trans {target : Bytes} {p next last : Progress} (h : Replies target p next)
    (hnext : Makes (Call.LooksAt target) next last) : Replies target p last := by
  obtain ⟨⟨c, hc, hsend⟩, hmakes⟩ := h
  refine ⟨⟨c, ?_, hsend⟩, hmakes.trans hnext⟩
  obtain ⟨made, hcalls, -⟩ := hnext
  rw [hcalls]
  exact List.mem_append_left _ hc

theorem Replies.call {target : Bytes} {p next : Progress} (h : Replies target p next) {c : Call}
    (hc : c.LooksAt target) : Replies target p (next.call c) :=
  h.trans (.of_call next hc)

theorem Replies.sends {target : Bytes} {p next last : Progress} (h : Replies target p next)
    (hsends : Makes Call.IsSend next last) : Replies target p last :=
  h.trans (hsends.looks_at target)

variable (env) in
/-- A header is an answer. -/
theorem send_header_replies (target : Bytes) (code : Int) (type : Bytes) (length : Int)
    (p : Progress) : Replies target p (sendHeader env code type length p) := by
  refine ⟨?_, (send_header_only_sends env code type length p).looks_at target⟩
  unfold sendHeader
  exact ⟨_, List.mem_append_right _ List.mem_cons_self, trivial⟩

variable (env) in
theorem send_not_found_replies (target : Bytes) (p : Progress) :
    Replies target p (sendNotFound env p) := by
  have hheader := send_header_replies env target 404 (getMimeType (ascii "*.html")) 0 p
  refine ((((hheader.call ?_).sends (.of_send env _ _ _)).call ?_).call ?_).call ?_
  · exact .inr (by decide)
  all_goals trivial

variable (env) in
theorem send_regular_replies (path : Bytes) (size : Int) (p : Progress) :
    Replies (repath path) p (sendRegular env path size p) := by
  have hheader := send_header_replies env (repath path) 200 (getMimeType path) (toInt size) p
  unfold sendRegular
  cases env.openFile (repath path) with
  | none => exact hheader.call (.inl rfl)
  | some file =>
      simp only
      have hopened := hheader.call (c := .openFile (repath path) true) (.inl rfl)
      generalize (sendHeader env 200 (getMimeType path) (toInt size) p).call
        (.openFile (repath path) true) = opened at hopened
      have hloop := hopened.sends (send_loop_only_sends env file (file.content.length + 1) 0
        (zeros 2048) opened)
      generalize sendLoop env file (file.content.length + 1) 0 (zeros 2048) opened = final at hloop
      obtain ⟨completed, final⟩ := final
      cases completed with
      | true =>
          refine ((hloop.call ?_).call ?_).call ?_
          all_goals trivial
      | false => exact hloop.call (c := .closeFile true) trivial

variable (env) in
theorem send_directory_replies (path : Bytes) (p : Progress) :
    Replies (repath path) p (sendDirectory env path p) := by
  have hheader := send_header_replies env (repath path) 200 (getMimeType (ascii "*.html")) 0 p
  have hscan := hheader.call (c := .scandir (repath path)) rfl
  unfold sendDirectory
  cases env.scandir (repath path) with
  | none => exact hscan
  | some namelist =>
      refine (((((((hscan.call ?_).sends (.of_send env _ _ _)).call ?_).sends
        (send_entries_only_sends env (repath path) namelist _ _ _)).call ?_).sends
          (.of_send env _ _ _)).call ?_).call ?_ |>.call ?_
      · exact .inr (by decide)
      · trivial
      · exact .inr (by decide)
      all_goals trivial

/-- `SendData` asks for the status of the file, and looks at no file but that one and the page
files. It answers unless the file is neither a regular file nor a directory. -/
theorem send_data_replies (env : Env) (path : Bytes) :
    .stat (repath path) ∈ sendData env path ∧
      (∀ c ∈ sendData env path, c.LooksAt (repath path)) ∧
      (Answered (sendData env path) ↔ ∀ size, env.stat (repath path) ≠ some ⟨.other, size⟩) := by
  have hstat : Call.LooksAt (repath path) (.stat (repath path)) := rfl
  -- the first call is `stat`, and the rest of each branch is about the same path
  have hall : ∀ {next : Progress}, Replies (repath path)
      (Progress.start.call (.stat (repath path))) next →
      .stat (repath path) ∈ next.calls ∧ (∀ c ∈ next.calls, c.LooksAt (repath path)) ∧
        Answered next.calls := by
    intro next h
    obtain ⟨hanswered, made, hcalls, hlooks⟩ := h
    refine ⟨?_, ?_, hanswered⟩
    · rw [hcalls]
      exact List.mem_append_left _ List.mem_cons_self
    · rw [hcalls]
      exact List.forall_mem_append.mpr ⟨List.forall_mem_singleton.mpr hstat, hlooks⟩
  unfold sendData
  cases env.stat (repath path) with
  | none =>
      obtain ⟨hmem, hlooks, hanswered⟩ := hall (send_not_found_replies env _ _)
      exact ⟨hmem, hlooks, iff_of_true hanswered (by simp)⟩
  | some status =>
      obtain ⟨kind, size⟩ := status
      cases kind with
      | regular =>
          obtain ⟨hmem, hlooks, hanswered⟩ := hall (send_regular_replies env path size _)
          exact ⟨hmem, hlooks, iff_of_true hanswered (by simp)⟩
      | directory =>
          obtain ⟨hmem, hlooks, hanswered⟩ := hall (send_directory_replies env path _)
          exact ⟨hmem, hlooks, iff_of_true hanswered (by simp)⟩
      | other =>
          refine ⟨List.mem_cons_self, List.forall_mem_singleton.mpr hstat, iff_of_false ?_ ?_⟩
          · rintro ⟨c, hc, hsend⟩
            rw [List.mem_singleton.mp hc] at hsend
            exact hsend
          · intro h
            exact h size rfl

/-- `SendData` looks at `target` exactly if that is the path it composes. -/
theorem send_data_looks_at_iff (env : Env) (path target : Bytes) :
    (∀ c ∈ sendData env path, c.LooksAt target) ↔ repath path = target := by
  obtain ⟨hstat, hall, -⟩ := send_data_replies env path
  constructor
  · intro h
    exact h _ hstat
  · rintro rfl
    exact hall

/-! ## The request line -/

/-- A GET request line as a client sends it: the method, one blank and the path, which has no
blanks, NULs or newlines, then possibly another blank and the protocol version, and a line end. -/
structure GetRequestLine where
  path : Bytes
  version : Option Bytes
  eol : Bytes
  path_ne : path ≠ []
  path_bytes : ∀ c ∈ path, c ≠ 0 ∧ c ≠ 32 ∧ c ≠ 10
  version_bytes : ∀ v ∈ version, (10 : UInt8) ∉ v
  eol_eq : eol = [10] ∨ eol = crlf

/-- What follows the path. -/
def GetRequestLine.tail (line : GetRequestLine) : Bytes :=
  line.version.elim [] (32 :: ·) ++ line.eol

/-- The bytes of the line. -/
def GetRequestLine.bytes (line : GetRequestLine) : Bytes :=
  ascii "GET " ++ (line.path ++ line.tail)

/-- What is to be read of the line: the whole line and perhaps more, or a part of it while the rest
may still come. -/
def GetRequestLine.Arrives (line : GetRequestLine) (r : Reader) : Prop :=
  line.bytes <+: r.avail ∨ (r.avail <+: line.bytes ∧ r.src.stop ≠ .eof)

/-- The file name of the line: without a version it goes on to the end of the line. -/
def GetRequestLine.fileName (line : GetRequestLine) : Bytes :=
  line.path ++ if line.version = none then line.eol else []

/-- The path fits into `repath`, and nothing is taken for a part of it. -/
def GetRequestLine.Fits (line : GetRequestLine) : Prop :=
  line.path.length ≤ 1022 ∧ (line.version = none → line.path.length = 1022)

variable {line : GetRequestLine}

theorem GetRequestLine.eol_ne (line : GetRequestLine) : line.eol ≠ [] := by
  rcases line.eol_eq with h | h <;> rw [h] <;> simp [crlf]

/-- The only newline of the line is its last byte. -/
theorem GetRequestLine.bytes_eq (line : GetRequestLine) :
    ∃ front, line.bytes = front ++ [10] ∧ (10 : UInt8) ∉ front := by
  have hpath : (10 : UInt8) ∉ line.path := fun h => (line.path_bytes 10 h).2.2 rfl
  have hversion : (10 : UInt8) ∉ line.version.elim [] (32 :: ·) := by
    cases hversion : line.version with
    | none => simp
    | some v => simpa using line.version_bytes v hversion
  have hget : (10 : UInt8) ∉ ascii "GET " := by decide
  rcases line.eol_eq with h | h
  · refine ⟨ascii "GET " ++ (line.path ++ line.version.elim [] (32 :: ·)), ?_, ?_⟩
    · simp [bytes, tail, h]
    · simp only [List.mem_append, not_or]
      exact ⟨hget, hpath, hversion⟩
  · refine ⟨ascii "GET " ++ (line.path ++ (line.version.elim [] (32 :: ·) ++ [13])), ?_, ?_⟩
    · simp [bytes, tail, h, crlf]
    · simp only [List.mem_append, not_or]
      exact ⟨hget, hpath, hversion, by decide⟩

/-- The line is the first line of its bytes, cut to the size of the buffer. -/
theorem take_line_get_line (line : GetRequestLine) :
    takeLine isNewline 1499 line.bytes = line.bytes.take 1499 ∧
      lineComplete isNewline 1499 line.bytes = true := by
  obtain ⟨front, hbytes, hfront⟩ := line.bytes_eq
  rw [hbytes]
  have hnewline : ∀ c ∈ front, isNewline c = false := by
    intro c hc
    refine beq_eq_false_iff_ne.mpr fun heq => ?_
    exact hfront (heq ▸ hc)
  exact take_line_append_mark hnewline rfl 1499

/-- A line that is there is stored, cut to 1499 bytes. -/
theorem readline_get_line {r : Reader} (harrives : line.Arrives r)
    (hcomplete : lineComplete isNewline 1499 r.avail = true) :
    (readline 1500 r).1.stored = line.bytes.take 1499 := by
  obtain ⟨htake, hwhole⟩ := take_line_get_line line
  rw [readline_line, ← htake]
  rcases harrives with ⟨more, hmore⟩ | ⟨⟨rest, hrest⟩, -⟩
  · rw [← hmore]
    exact take_line_append hwhole more
  · rw [← hrest]
    exact (take_line_append hcomplete rest).symm

/-- A line that is not there is not followed by the end of the stream. -/
theorem stop_ne_of_incomplete {r : Reader} (harrives : line.Arrives r)
    (hcomplete : lineComplete isNewline 1499 r.avail = false) : r.src.stop ≠ .eof := by
  rcases harrives with ⟨more, hmore⟩ | ⟨-, hstop⟩
  · rw [← hmore, line_complete_append (take_line_get_line line).2] at hcomplete
    cases hcomplete
  · exact hstop

/-- The tokens of the line, as `strtok` sees them in the buffer. -/
theorem request_tokens_get_line (line : GetRequestLine) :
    requestTokens (cstr (line.bytes.take 1499)) =
      some (ascii "GET", line.fileName.take 1495) := by
  have hkeep : ∀ c ∈ line.path, c ≠ 0 ∧ c ≠ 32 :=
    fun c hc => ⟨(line.path_bytes c hc).1, (line.path_bytes c hc).2.1⟩
  have hget : cstr (line.bytes.take 1499) =
      71 :: 69 :: 84 :: 32 :: cstr ((line.path ++ line.tail).take 1495) := by
    show cstr ((71 :: 69 :: 84 :: 32 :: (line.path ++ line.tail)).take 1499) = _
    simp [cstr, List.take_succ_cons]
  have hword : (cstr ((line.path ++ line.tail).take 1495)).takeWhile (· ≠ 32) =
      line.fileName.take 1495 := by
    rw [cstr, ← List.take_takeWhile, ← List.take_takeWhile]
    congr 1
    rw [List.takeWhile_append_of_pos fun c hc => by simpa using (hkeep c hc).1,
      List.takeWhile_append_of_pos fun c hc => by simpa using (hkeep c hc).2,
      GetRequestLine.fileName, GetRequestLine.tail]
    congr 1
    cases hversion : line.version with
    | none => rcases line.eol_eq with h | h <;> simp [h, crlf]
    | some v => simp
  obtain ⟨c, rest, hpath⟩ := List.exists_cons_of_ne_nil line.path_ne
  have hfirst : ∃ s, cstr ((line.path ++ line.tail).take 1495) = c :: s := by
    have hc := (hkeep c (by simp [hpath])).1
    exact ⟨_, by rw [hpath, List.cons_append, List.take_succ_cons, cstr, List.takeWhile_cons,
      if_pos (by simpa using hc)]⟩
  obtain ⟨s, hs⟩ := hfirst
  have hc := (hkeep c (by simp [hpath])).2
  have hmethod : ∀ x : Bytes, strtok (71 :: 69 :: 84 :: 32 :: x) = some (ascii "GET", x) := by
    intro x
    rw [strtok_word (by decide)]
    rfl
  have hname : (strtok (c :: s)).map Prod.fst = some (line.fileName.take 1495) := by
    rw [strtok_word hc, ← hword, hs, List.takeWhile_cons, if_pos (by simpa using hc)]
    rfl
  rw [hget, requestTokens, hmethod, hs]
  simpa [Option.map_map, Function.comp_def] using congrArg (Option.map (ascii "GET", ·)) hname

/-- What `repath` makes of the file name is the path that was sent exactly if that fits. -/
theorem repath_file_name_iff (line : GetRequestLine) :
    repath (line.fileName.take 1495) = 46 :: line.path ↔ line.Fits := by
  have hpath : repath (line.fileName.take 1495) = 46 :: line.fileName.take 1022 := by
    show 46 :: (line.fileName.take 1495).take 1022 = _
    rw [List.take_take, Nat.min_eq_left (by decide)]
  rw [hpath, List.cons.injEq, GetRequestLine.fileName, GetRequestLine.Fits]
  by_cases hversion : line.version = none
  · have heol := List.length_pos_iff.mpr line.eol_ne
    simp only [hversion, if_true, true_and, forall_const]
    constructor
    · intro h
      have hlen := congrArg List.length h
      rw [List.length_take, List.length_append] at hlen
      omega
    · rintro ⟨-, h⟩
      rw [← h, List.take_left]
  · simp only [hversion, if_false, List.append_nil, false_implies, true_and, and_true]
    refine ⟨fun h => ?_, List.take_of_length_le⟩
    have hlen := congrArg List.length h
    rw [List.length_take] at hlen
    omega

/-- A request whose line is there calls `SendData` with the file name of the line. -/
theorem handle_get_line (env : Env) {r : Reader} (harrives : line.Arrives r)
    (hcomplete : lineComplete isNewline 1499 r.avail = true) :
    handleLine env (readline 1500 r).1 = .request (ascii "GET") (line.fileName.take 1495)
      (sendData env (line.fileName.take 1495)) := by
  have hret : 1 ≤ (readline 1500 r).1.ret := by
    rw [(readline_complete (r := r) hcomplete).1]
    have := Int.natCast_nonneg ((takeLine isNewline (1500 - 1) r.avail).countP (!isNewline ·))
    show 1 ≤ 1 + _
    omega
  rw [handleLine, if_neg (by omega), if_neg (by omega), parse_request_eq,
    readline_get_line harrives hcomplete, request_tokens_get_line]
  rfl

/-- The file that is served is the file that was asked for exactly if its path fits. For every GET
request line of any length, however much of it has arrived, and whatever the system calls return:
if the request is answered, then every pathname given to `stat`, `open` and `scandir`, those of the
page files apart, is a dot and the path that was sent. This holds if and only if the line is not
yet there, so that the connection is closed unanswered, or the file looked at is neither regular
nor a directory, which is not answered, or the path has at most 1022 bytes and, in a line without a
version, exactly so many. -/
theorem path_served_iff (line : GetRequestLine) (env : Env) (r : Reader)
    (harrives : line.Arrives r) :
    (∀ requestType fileName calls,
        handleLine env (readline 1500 r).1 = .request requestType fileName calls →
        Answered calls → ∀ c ∈ calls, c.LooksAt (46 :: line.path)) ↔
      lineComplete isNewline 1499 r.avail = false ∨
        (∃ size, env.stat (repath line.fileName) = some ⟨.other, size⟩) ∨ line.Fits := by
  have hcut : repath (line.fileName.take 1495) = repath line.fileName := by
    show 46 :: (line.fileName.take 1495).take 1022 = 46 :: line.fileName.take 1022
    rw [List.take_take, Nat.min_eq_left (by decide)]
  cases hcomplete : lineComplete isNewline 1499 r.avail with
  | false =>
      refine iff_of_true (fun requestType fileName calls hrequest => ?_) (.inl rfl)
      rw [readline_incomplete hcomplete, if_neg (stop_ne_of_incomplete harrives hcomplete)]
        at hrequest
      cases hrequest
  | true =>
      have hanswered := (send_data_replies env (line.fileName.take 1495)).2.2
      have hlooks := send_data_looks_at_iff env (line.fileName.take 1495) (46 :: line.path)
      rw [hcut] at hanswered
      rw [repath_file_name_iff] at hlooks
      rw [handle_get_line env harrives hcomplete]
      constructor
      · intro h
        by_cases hsend : Answered (sendData env (line.fileName.take 1495))
        · exact .inr (.inr (hlooks.mp (h _ _ _ rfl hsend)))
        · rw [hanswered] at hsend
          exact .inr (.inl (by simpa using hsend))
      · rintro (h | ⟨size, hstat⟩ | hfits) requestType fileName calls hrequest hsend
        · cases h
        · obtain ⟨-, -, rfl⟩ := Action.request.inj hrequest
          exact absurd hstat (hanswered.mp hsend size)
        · obtain ⟨-, -, rfl⟩ := Action.request.inj hrequest
          exact hlooks.mpr hfits

/-- A request line with the short path `/a`. -/
def shortRequest : GetRequestLine where
  path := [47, 97]
  version := some (ascii "HTTP/1.1")
  eol := crlf
  path_ne := by decide
  path_bytes c hc := by
    rcases List.mem_pair.mp hc with rfl | rfl
    · decide
    · decide
  version_bytes v hv := by
    obtain rfl := Option.some.inj hv
    decide
  eol_eq := .inr rfl

/-- The line has arrived in one chunk. -/
theorem short_request_arrives :
    shortRequest.Arrives (lineReader ⟨shortRequest.bytes, by decide, by decide⟩) :=
  .inl ⟨[], by decide⟩

/-- A short path is served as it was sent. -/
theorem path_served_short :
    ∃ requestType fileName calls,
      handleLine roomyEnv (readline 1500
        (lineReader ⟨shortRequest.bytes, by decide, by decide⟩)).1 =
          .request requestType fileName calls ∧
      Answered calls ∧ ∀ c ∈ calls, c.LooksAt (ascii "./a") := by
  have hrequest := handle_get_line roomyEnv short_request_arrives (by decide)
  have hreplies := send_data_replies roomyEnv (shortRequest.fileName.take 1495)
  have hanswered := hreplies.2.2.mpr fun size hstat => by cases hstat
  exact ⟨_, _, _, hrequest, hanswered, (path_served_iff shortRequest roomyEnv _
    short_request_arrives).mpr (.inr (.inr ⟨by decide, by decide⟩)) _ _ _ hrequest hanswered⟩

/-- A request line with a path of 1101 bytes. -/
def longRequest : GetRequestLine where
  path := 47 :: List.replicate 1100 97
  version := some (ascii "HTTP/1.1")
  eol := crlf
  path_ne := List.cons_ne_nil _ _
  path_bytes c hc := by
    rcases List.mem_cons.mp hc with rfl | hc
    · decide
    · rw [(List.mem_replicate.mp hc).2]
      decide
  version_bytes := shortRequest.version_bytes
  eol_eq := .inr rfl

/-- The line arrives in chunks of 100 bytes and less. -/
def longReader : Reader where
  rb := .initial
  src := .ofStream (some ⟨ascii "GET /", by decide, by decide⟩ ::
    (List.replicate 11 (some ⟨List.replicate 100 97, by decide, by decide⟩) ++
      [some ⟨ascii " HTTP/1.1\x0d\x0a", by decide, by decide⟩])) (.fail .eagain)

/-- A document root without any file. -/
def emptyEnv : Env where
  stat _ := none
  openFile _ := none
  scandir _ := none
  send _ := .accept 4095

theorem long_reader_avail : longReader.avail = longRequest.bytes := by
  rw [longReader, Reader.avail, Source.of_stream_ready]
  decide +kernel

/-- Of a path of 1101 bytes only the first 1022 are looked for. -/
theorem path_cut :
    ¬ ∀ (line : GetRequestLine) (env : Env) (r : Reader), line.Arrives r →
      ∀ requestType fileName calls,
        handleLine env (readline 1500 r).1 = .request requestType fileName calls →
        Answered calls → ∀ c ∈ calls, c.LooksAt (46 :: line.path) := by
  intro h
  have harrives : longRequest.Arrives longReader := .inl ⟨[], by simp [long_reader_avail]⟩
  have hcomplete : lineComplete isNewline 1499 longReader.avail = true := by
    rw [long_reader_avail]
    exact (take_line_get_line longRequest).2
  have hanswered : Answered (sendData emptyEnv (longRequest.fileName.take 1495)) :=
    (send_data_replies emptyEnv _).2.2.mpr fun size hstat => by cases hstat
  have hlooks := h longRequest emptyEnv longReader harrives _ _ _
    (handle_get_line emptyEnv harrives hcomplete) hanswered
  have hfits := (repath_file_name_iff longRequest).mp ((send_data_looks_at_iff _ _ _).mp hlooks)
  have hlen : longRequest.path.length = 1101 := by
    show (47 :: List.replicate 1100 (97 : UInt8)).length = 1101
    rw [List.length_cons, List.length_replicate]
  have := hfits.1
  omega

end UnixNet.EpollWeb
