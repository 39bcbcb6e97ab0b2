import UnixNet.EpollWeb.Links
import UnixNet.Listing

/-!
# The lengths `SendData` hands to `send`

`SendData` sends from two buffers of 2048 bytes, with lengths that `read` and `snprintf` returned,
and the footer of a directory page with the number of its entries. `Asks` says what was asked to be
sent between two stages when every length is within its buffer. It is for every request but those
for a page part that cannot be read and those for a directory with more than 2048 entries
(`send_lengths_iff`).
-/

namespace UnixNet.EpollWeb

open NetLib UnixNet.Pub

/-- The buffer and the length of a `send`. -/
def Call.asked : Call → Option (Bytes × Int)
  | .send buf len _ => some (buf, len)
  | _ => none

/-- The buffers and lengths of the `send` calls, in their order. -/
def asked (calls : List Call) : List (Bytes × Int) :=
  calls.filterMap Call.asked

/-- The length is between 0 and the size of the buffer. -/
def InBuffer (request : Bytes × Int) : Prop :=
  0 ≤ request.2 ∧ request.2 ≤ request.1.length

/-- The bytes that a `send` is asked to send. -/
def given (request : Bytes × Int) : Bytes :=
  request.1.take request.2.toNat

/-- Between two stages the parts were asked to be sent, each from the start of a buffer that holds
it. -/
def Asks (p : Progress) (parts : List Bytes) (next : Progress) : Prop :=
  ∃ made, asked next.calls = asked p.calls ++ made ∧ made.map given = parts ∧
    ∀ request ∈ made, InBuffer request

variable {env : Env} {p : Progress}

theorem asked_call {c : Call} (p : Progress) (hc : c.asked = none) :
    asked (p.call c).calls = asked p.calls := by
  simp [asked, Progress.call, hc]

theorem asked_send (p : Progress) (buf : Bytes) (len : Int) :
    asked (p.send env buf len).calls = asked p.calls ++ [(buf, len)] := by
  simp [asked, Progress.send, Call.asked]

/-- The calls in terms of what they were asked. -/
theorem forall_send_iff {calls : List Call} :
    (∀ buf len ret, .send buf len ret ∈ calls → 0 ≤ len ∧ len ≤ buf.length) ↔
      ∀ request ∈ asked calls, InBuffer request := by
  constructor
  · intro h request hrequest
    obtain ⟨c, hc, hasked⟩ := List.mem_filterMap.mp hrequest
    cases c with
    | send buf len ret =>
        obtain rfl := Option.some.inj hasked
        exact h buf len ret hc
    | _ => cases hasked
  · intro h buf len ret hsend
    exact h (buf, len) (List.mem_filterMap.mpr ⟨_, hsend, rfl⟩)

theorem Asks.refl (p : Progress) : Asks p [] p :=
  ⟨[], (List.append_nil _).symm, rfl, by simp⟩

theorem Asks.trans {first second third : Progress} {parts more : List Bytes}
    (h : Asks first parts second) (hnext : Asks second more third) :
    Asks first (parts ++ more) third := by
  obtain ⟨made, hasked, hparts, hin⟩ := h
  obtain ⟨madeNext, haskedNext, hpartsNext, hinNext⟩ := hnext
  refine ⟨made ++ madeNext, ?_, ?_, List.forall_mem_append.mpr ⟨hin, hinNext⟩⟩
  · rw [haskedNext, hasked, List.append_assoc]
  · rw [List.map_append, hparts, hpartsNext]

/-- A call other than `send`. -/
theorem Asks.of_call {c : Call} (p : Progress) (hc : c.asked = none) : Asks p [] (p.call c) :=
  ⟨[], by rw [asked_call p hc, List.append_nil], rfl, by simp⟩

/-- Sending a part that is at the start of the buffer. -/
theorem Asks.of_send {buf part : Bytes} (hlen : part.length ≤ buf.length)
    (hbuf : buf.take part.length = part) : Asks p [part] (p.send env buf part.length) := by
  refine ⟨[(buf, part.length)], asked_send p buf _, ?_, ?_⟩
  · rw [List.map_singleton, given, Int.toNat_natCast, hbuf]
  · intro request hrequest
    rw [List.mem_singleton.mp hrequest]
    exact ⟨Int.natCast_nonneg _, Int.ofNat_le.mpr hlen⟩

/-- Sending a formatted text that fits its buffer. -/
theorem Asks.of_text {buf text : Bytes} (hfit : text.length < buf.length) :
    Asks p [text] (p.sendText env buf text) := by
  refine Asks.of_send ?_ ?_
  · rw [length_snprintf (by omega)]
    exact hfit.le
  · rw [take_snprintf (Nat.le_refl _) hfit, List.take_length]

/-- All requests between two stages are within their buffers. -/
theorem Asks.forall_in_buffer {parts : List Bytes} {next : Progress} (h : Asks p parts next) :
    (∀ request ∈ asked next.calls, InBuffer request) ↔
      ∀ request ∈ asked p.calls, InBuffer request := by
  obtain ⟨made, hasked, -, hin⟩ := h
  rw [hasked, List.forall_mem_append]
  exact and_iff_left hin

/-! ## What each piece of `SendData` asks to send -/

variable (env) in
/-- The parts of a header. -/
theorem send_header_asks {code length : Int} {type : Bytes} (p : Progress)
    (hcode : (statusLine code).length < 1024) (htype : type.length ≤ 40)
    (hlength : length.natAbs < 10 ^ 10) :
    Asks p (headerParts code type length) (sendHeader env code type length p) := by
  have hzeros : (zeros 1024).length = 1024 := List.length_replicate
  have hstatus := length_header_buffer hzeros (statusLine code)
  have htypeBuf := length_header_buffer hstatus (typeLine type)
  have htypeLine := length_type_line_lt htype
  have hlengthLine := length_length_line_lt hlength
  have hstatusAsked : Asks p [statusLine code]
      (p.sendText env (zeros 1024) (statusLine code)) := .of_text (hcode.trans_eq hzeros.symm)
  have htypeAsked : ∀ q : Progress, Asks q [typeLine type]
      (q.sendText env (snprintf (zeros 1024) (statusLine code)).2 (typeLine type)) :=
    fun q => .of_text (htypeLine.trans_eq hstatus.symm)
  have hlengthAsked : ∀ q : Progress, Asks q [lengthLine length]
      (q.sendText env (snprintf (snprintf (zeros 1024) (statusLine code)).2 (typeLine type)).2
        (lengthLine length)) :=
    fun q => .of_text (hlengthLine.trans_eq htypeBuf.symm)
  have hend : ∀ q : Progress, Asks q [crlf] (q.send env (crlf ++ [0]) 2) :=
    fun q => .of_send (by decide) (by decide)
  unfold sendHeader headerParts
  by_cases hpos : length > 0
  · simp only [hpos, if_true]
    exact ((hstatusAsked.trans (htypeAsked _)).trans (hlengthAsked _)).trans (hend _)
  · simp only [hpos, if_false, List.append_nil]
    exact (hstatusAsked.trans (htypeAsked _)).trans (hend _)

variable (env) in
/-- The send loop sends blocks of at most 2048 bytes. -/
theorem send_loop_asks (file : File) (fuel pos : Nat) (p : Progress) {buf : Bytes}
    (hbuf : buf.length = 2048) :
    ∃ parts, Asks p parts (sendLoop env file fuel pos buf p).2 := by
  induction fuel generalizing pos p buf with
  | zero => exact ⟨[], .refl p⟩
  | succ fuel ih =>
      by_cases hread : ∃ b bs, file.read pos 2048 = some (b :: bs)
      · obtain ⟨b, bs, hread⟩ := hread
        have hlen : (b :: bs).length ≤ buf.length := by
          rw [File.read_eq_some hread, hbuf]
          exact List.length_take_le 2048 _
        have hkeep : (overwrite (b :: bs) buf).length = buf.length := length_overwrite hlen
        have hsent : Asks p [b :: bs] (p.send env (overwrite (b :: bs) buf) (b :: bs).length) :=
          .of_send (by rwa [hkeep]) (by rw [take_overwrite (Nat.le_refl _), List.take_length])
        rw [send_loop_block hbuf hread (List.cons_ne_nil b bs)]
        cases (env.send p.sends).fails with
        | true => exact ⟨_, hsent⟩
        | false =>
            obtain ⟨parts, hparts⟩ := ih (pos + (b :: bs).length)
              (p.send env (overwrite (b :: bs) buf) (b :: bs).length) (hkeep.trans hbuf)
            exact ⟨_, hsent.trans hparts⟩
      · rw [send_loop_end hbuf fun b bs hdata => hread ⟨b, bs, hdata⟩]
        exact ⟨[], .refl p⟩

variable (env) in
/-- The branch for regular files. -/
theorem send_regular_asks (path : Bytes) (size : Int) (p : Progress) :
    ∃ parts, Asks p parts (sendRegular env path size p) := by
  have hsize := toInt_natAbs_lt size
  have hbuf : (zeros 2048).length = 2048 := List.length_replicate
  have hheader : Asks p (headerParts 200 (getMimeType path) (toInt size))
      (sendHeader env 200 (getMimeType path) (toInt size) p) :=
    send_header_asks env p (by decide) (mime_type_header_safe path).2.1 hsize
  unfold sendRegular
  cases env.openFile (repath path) with
  | none => exact ⟨_, hheader.trans (.of_call _ rfl)⟩
  | some file =>
      simp only
      generalize hopened : (sendHeader env 200 (getMimeType path) (toInt size) p).call
        (.openFile (repath path) true) = opened
      have hstart : Asks p _ opened := hopened ▸ hheader.trans (.of_call _ rfl)
      obtain ⟨parts, hloop⟩ := send_loop_asks env file (file.content.length + 1) 0 opened hbuf
      generalize sendLoop env file (file.content.length + 1) 0 (zeros 2048) opened = final at hloop
      obtain ⟨completed, final⟩ := final
      cases completed with
      | true =>
          exact ⟨_, (((hstart.trans hloop).trans (.of_call _ rfl)).trans (.of_call _ rfl)).trans
            (.of_call _ rfl)⟩
      | false => exact ⟨_, (hstart.trans hloop).trans (.of_call _ rfl)⟩

/-- The loop over the entries, when the part before had `j` bytes: the parts of the entries. -/
theorem send_entries_asks (page : Bytes) (entries : List DirEnt) {j : Nat} (hj : j ≤ 2048)
    {cache : Bytes} (hcache : cache.length = 2048) (p : Progress) :
    ∃ last final next, sendEntries env (repath page) entries j cache p = (last, final, next) ∧
      final.length = 2048 ∧ Asks p (entryParts dirItem fileItem (repath page) j entries) next := by
  have hzeros : (zeros 2048).length = 2048 := List.length_replicate
  induction entries generalizing j cache p with
  | nil => exact ⟨j, cache, p, rfl, hcache, .refl p⟩
  | cons entry rest ih =>
      rw [send_entries_cons, entryParts]
      cases hitem : listItem dirItem fileItem (repath page) entry with
      | none =>
          -- the cleared buffer is sent with the length of the part before
          have hpart : (zeros j).length = j := List.length_replicate
          have htake : (zeros 2048).take (zeros j).length = zeros j := by
            rw [hpart, zeros, List.take_replicate, Nat.min_eq_left hj, zeros]
          have hsent : Asks p [zeros j] (p.send env (zeros 2048) (zeros j).length) :=
            .of_send (by omega) htake
          rw [hpart] at hsent
          obtain ⟨last, final, next, heq, hlen, hrest⟩ := ih hj hzeros (p.send env (zeros 2048) j)
          refine ⟨last, final, next, heq, hlen, ?_⟩
          rw [Option.getD_none, hpart]
          exact hsent.trans hrest
      | some item =>
          have hfit : item.length < (zeros 2048).length := by
            rw [hzeros]
            exact length_list_item_lt hitem
          have hkeep : (snprintf (zeros 2048) item).2.length = 2048 := by
            rw [length_snprintf (by omega), hzeros]
          obtain ⟨last, final, next, heq, hlen, hrest⟩ :=
            ih (by omega : item.length ≤ 2048) hkeep (p.sendText env (zeros 2048) item)
          exact ⟨last, final, next, heq, hlen, (Asks.of_text hfit).trans hrest⟩

variable (env) in
/-- The branch for a file that does not exist, after its header. -/
theorem send_not_found_asked (p : Progress) :
    ∃ header, Asks p (headerParts 404 (getMimeType (ascii "*.html")) 0) header ∧
      asked (sendNotFound env p).calls = asked header.calls ++
        [((readInto (env.openFile (ascii "./error.html")) 0 (zeros 2048)).2,
          (readInto (env.openFile (ascii "./error.html")) 0 (zeros 2048)).1)] := by
  refine ⟨(sendHeader env 404 (getMimeType (ascii "*.html")) 0 p).call
    (.openFile (ascii "./error.html") (env.openFile (ascii "./error.html")).isSome), ?_, ?_⟩
  · have hheader : Asks p (headerParts 404 (getMimeType (ascii "*.html")) 0) _ :=
      send_header_asks env p (by decide) (mime_type_header_safe _).2.1 (by decide)
    simpa using hheader.trans (.of_call _ rfl)
  · simp only [sendNotFound]
    rw [asked_call _ rfl, asked_call _ rfl, asked_call _ rfl, asked_send]

/-- The branch for a directory that was scanned, when the front page could be read: the header,
the front page and the entries are sent from within their buffers, and then as many bytes as there
are entries. -/
theorem send_directory_asked {path : Bytes} {namelist : List DirEnt} {front : File}
    (hscan : env.scandir (repath path) = some namelist)
    (hopen : env.openFile (ascii "./SanfDir/front.html") = some front)
    (hread : front.readFails 0 = false) (p : Progress) :
    ∃ stage cache, cache.length = 2048 ∧
      Asks p (headerParts 200 (getMimeType (ascii "*.html")) 0 ++ front.content.take 2048 ::
        entryParts dirItem fileItem (repath path) (front.content.take 2048).length namelist) stage ∧
      asked (sendDirectory env path p).calls = asked stage.calls ++
        [((readInto (env.openFile (ascii "./SanfDir/behind.html")) 0 cache).2,
          (namelist.length : Int))] := by
  have hzeros : (zeros 2048).length = 2048 := List.length_replicate
  have hfrontLen : (front.content.take 2048).length ≤ 2048 := List.length_take_le 2048 _
  have hkeep : (overwrite (front.content.take 2048) (zeros 2048)).length = 2048 := by
    rw [length_overwrite (by omega), hzeros]
  have hheader : Asks p (headerParts 200 (getMimeType (ascii "*.html")) 0)
      (sendHeader env 200 (getMimeType (ascii "*.html")) 0 p) :=
    send_header_asks env p (by decide) (mime_type_header_safe _).2.1 (by decide)
  simp only [sendDirectory, hscan, hopen, read_into_first hread, hzeros]
  generalize sendHeader env 200 (getMimeType (ascii "*.html")) 0 p = header at hheader
  -- the scan and the open of the front page come before its `send`, the close after it
  generalize hopened : (header.call (.scandir (repath path))).call
    (.openFile (ascii "./SanfDir/front.html") (some front).isSome) = opened
  have hstart : Asks p (headerParts 200 (getMimeType (ascii "*.html")) 0) opened := by
    rw [← hopened]
    simpa using (hheader.trans (.of_call _ rfl)).trans (.of_call _ rfl)
  have hfront : Asks opened [front.content.take 2048]
      (opened.send env (overwrite (front.content.take 2048) (zeros 2048))
        (front.content.take 2048).length) :=
    .of_send (by omega) (by rw [take_overwrite (Nat.le_refl _), List.take_length])
  generalize hclosed : (opened.send env (overwrite (front.content.take 2048) (zeros 2048))
    (front.content.take 2048).length).call (.closeFile (some front).isSome) = closed
  have hbefore : Asks p (headerParts 200 (getMimeType (ascii "*.html")) 0 ++
      [front.content.take 2048]) closed := by
    rw [← hclosed]
    simpa using (hstart.trans hfront).trans (.of_call _ rfl)
  obtain ⟨last, cache, stage, hentries, hcache, hasks⟩ :=
    send_entries_asks path namelist hfrontLen hkeep closed
  refine ⟨stage.call (.openFile (ascii "./SanfDir/behind.html")
    (env.openFile (ascii "./SanfDir/behind.html")).isSome), cache, hcache, ?_, ?_⟩
  · simpa using (hbefore.trans hasks).trans (.of_call _ rfl)
  · rw [hentries, asked_call _ rfl, asked_call _ rfl, asked_call _ rfl, asked_send]

/-! ## Which requests are sent from within their buffers -/

/-- The page part that the request needs can be read, and the directory it asks for has at most
2048 entries. -/
def lengthsInRange (env : Env) (path : Bytes) : Bool :=
  match env.stat (repath path) with
  | none => env.canRead (ascii "./error.html")
  | some ⟨.directory, _⟩ =>
      match env.scandir (repath path) with
      | none => true
      | some namelist =>
          env.canRead (ascii "./SanfDir/front.html") && decide (namelist.length ≤ 2048)
  | _ => true

/-- What the first read of a file into a buffer of 2048 bytes returns is a length of the buffer
exactly if the file can be read. -/
theorem in_buffer_read_iff (path : Bytes) {buf : Bytes} (hbuf : buf.length = 2048) :
    InBuffer ((readInto (env.openFile path) 0 buf).2, (readInto (env.openFile path) 0 buf).1) ↔
      env.canRead path = true := by
  cases hread : env.canRead path with
  | false =>
      rw [read_into_fails hread]
      exact iff_of_false (fun h => absurd h.1 (show ¬ (0 : Int) ≤ -1 by decide))
        Bool.false_ne_true
  | true =>
      obtain ⟨file, hopen, hreads⟩ := Host.canRead_iff.mp hread
      refine iff_of_true ⟨?_, ?_⟩ rfl
      · rw [hopen, read_into_first hreads]
        exact Int.natCast_nonneg _
      · rw [length_read_into, hopen, read_into_first hreads]
        exact Int.ofNat_le.mpr (hbuf ▸ List.length_take_le _ _)

/-- A directory page whose front page cannot be read sends the length -1. -/
theorem send_directory_unread {path : Bytes} {namelist : List DirEnt}
    (hscan : env.scandir (repath path) = some namelist)
    (hread : env.canRead (ascii "./SanfDir/front.html") = false) (p : Progress) :
    (zeros 2048, -1) ∈ asked (sendDirectory env path p).calls := by
  simp only [sendDirectory, hscan, read_into_fails hread]
  generalize Progress.call _ (.openFile (ascii "./SanfDir/front.html")
    (env.openFile (ascii "./SanfDir/front.html")).isSome) = opened
  -- the `send` of the front page stays among the calls
  have hsent : (zeros 2048, -1) ∈ asked (opened.send env (zeros 2048) (-1)).calls := by
    rw [asked_send]
    exact List.mem_append_right _ (List.mem_singleton_self _)
  generalize hclosed : (opened.send env (zeros 2048) (-1)).call
    (.closeFile (env.openFile (ascii "./SanfDir/front.html")).isSome) = closed
  have hdone : (opened.send env (zeros 2048) (-1)).calls <+: closed.calls :=
    hclosed ▸ done_call List.prefix_rfl _
  have hentries : _ <+: (sendEntries env (repath path) namelist (-1) (zeros 2048)
      closed).2.2.calls := done_entries hdone _ _ _ _
  rw [asked_call _ rfl, asked_call _ rfl, asked_call _ rfl, asked_send, asked_call _ rfl]
  exact List.mem_append_left _ ((hentries.filterMap Call.asked).subset hsent)

/-- The branch for a directory, behind calls with lengths in range. -/
theorem send_directory_lengths_iff (path : Bytes) {p : Progress}
    (hstart : ∀ request ∈ asked p.calls, InBuffer request) :
    (∀ request ∈ asked (sendDirectory env path p).calls, InBuffer request) ↔
      (match env.scandir (repath path) with
      | none => true
      | some namelist => env.canRead (ascii "./SanfDir/front.html") &&
          decide (namelist.length ≤ 2048)) = true := by
  cases hscan : env.scandir (repath path) with
  | none =>
      have hheader : Asks p (headerParts 200 (getMimeType (ascii "*.html")) 0) _ :=
        send_header_asks env p (by decide) (mime_type_header_safe _).2.1 (by decide)
      simp only [sendDirectory, hscan]
      rw [asked_call _ rfl]
      exact iff_of_true (hheader.forall_in_buffer.mpr hstart) trivial
  | some namelist =>
      cases hread : env.canRead (ascii "./SanfDir/front.html") with
      | false =>
          have hunread := send_directory_unread hscan hread p
          exact iff_of_false (fun h => absurd (h _ hunread).1 (by decide)) (by simp)
      | true =>
          obtain ⟨front, hopen, hreads⟩ := Host.canRead_iff.mp hread
          obtain ⟨stage, cache, hcache, hasks, hasked⟩ :=
            send_directory_asked hscan hopen hreads p
          rw [hasked, List.forall_mem_append, List.forall_mem_singleton]
          -- the last length is the number of entries, and nonnegative
          have hlast : InBuffer ((readInto (env.openFile (ascii "./SanfDir/behind.html")) 0
              cache).2, (namelist.length : Int)) ↔ namelist.length ≤ 2048 := by
            unfold InBuffer
            rw [length_read_into, hcache]
            omega
          rw [hlast, and_iff_right (hasks.forall_in_buffer.mpr hstart)]
          simp

/-- All that `SendData` asks of `send` is in range. -/
theorem send_data_in_buffer_iff (env : Env) (path : Bytes) :
    (∀ request ∈ asked (sendData env path), InBuffer request) ↔
      lengthsInRange env path = true := by
  have hstart : ∀ request ∈ asked (Progress.start.call (.stat (repath path))).calls,
      InBuffer request := fun request hrequest => by simp [asked, Progress.start, Progress.call,
        Call.asked] at hrequest
  have hzeros : (zeros 2048).length = 2048 := List.length_replicate
  rw [sendData, lengthsInRange]
  cases env.stat (repath path) with
  | none =>
      obtain ⟨header, hheader, hasked⟩ :=
        send_not_found_asked env (Progress.start.call (.stat (repath path)))
      show (∀ request ∈ asked (sendNotFound env _).calls, InBuffer request) ↔ _
      rw [hasked, List.forall_mem_append, List.forall_mem_singleton, in_buffer_read_iff _ hzeros]
      exact and_iff_right (hheader.forall_in_buffer.mpr hstart)
  | some fileStat =>
      obtain ⟨kind, size⟩ := fileStat
      cases kind with
      | other => exact iff_of_true hstart rfl
      | regular =>
          obtain ⟨parts, hasks⟩ :=
            send_regular_asks env path size (Progress.start.call (.stat (repath path)))
          exact iff_of_true (hasks.forall_in_buffer.mpr hstart) rfl
      | directory => exact send_directory_lengths_iff path hstart

/-- The lengths are in range exactly when the page part that is read first can be read and the
directory is not too large. For every request path and every answer of the file system: every `send`
of `SendData` is given a length between 0 and the size of the buffer it sends from if and only if
the requested file is missing and `error.html` can be opened and read, or it is not a directory, or
the directory cannot be scanned, or `front.html` can be opened and read and the directory has at
most 2048 entries. -/
theorem send_lengths_iff (env : Env) (path : Bytes) :
    (∀ buf len ret, .send buf len ret ∈ sendData env path → 0 ≤ len ∧ len ≤ buf.length) ↔
      lengthsInRange env path = true :=
  forall_send_iff.trans (send_data_in_buffer_iff env path)

/-- Without an `error.html`, a request for a missing file sends the length -1. -/
theorem send_lengths_no_error_page :
    ¬ ∀ (env : Env) (path : Bytes) (buf : Bytes) (len ret : Int),
      .send buf len ret ∈ sendData env path → 0 ≤ len ∧ len ≤ buf.length := by
  intro h
  have hsend : Call.send (zeros 2048) (-1) 4096 ∈ sendData roomyEnv (ascii "/b") := by
    decide +kernel
  exact absurd (h roomyEnv (ascii "/b") _ _ _ hsend).1 (by decide)

end UnixNet.EpollWeb
