import UnixNet.LibeventWeb.Links
import UnixNet.Listing

/-!
# The directory pages of the libevent web server

The page of a directory is queued piece by piece: the front page, a piece for each entry and the
footer, with a `bufferevent_write` for each. The pieces are the right ones exactly when the writes
succeed and no entry is of a kind that the tests of `processingRequests` take for another or that
gets the bytes of the piece before (`send_dir_page_iff`).
-/

namespace UnixNet.LibeventWeb

open NetLib UnixNet.Pub UnixNet.Bufferevent

/-- What a call adds to the output buffer, if it is a `bufferevent_write`. -/
def queuedPart : Call → Option Bytes
  | .write data ok => some (if ok then data else [])
  | _ => none

/-- What the `bufferevent_write` calls queued, one by one. -/
def queuedParts (calls : List Call) : List Bytes :=
  calls.filterMap queuedPart

/-- The pieces of the page of a directory: the front page, a piece for each entry and the footer. -/
def pagePieces (page front behind : Bytes) (namelist : List DirEnt) : List Bytes :=
  front :: namelist.map (listed dirItem fileItem (repath page)) ++ [behind]

/-- The header lines of the page of a directory. -/
def pageHeader : List Bytes :=
  headerTexts 200 (ascii "OK") (getMimeType (ascii "*.html")) 0

/-- Both page parts can be read, every write that is needed succeeds, and every entry is a directory
or a regular file. Of the others, the write may fail, or they are of kinds that both tests miss and
come before all entries with a list item. -/
structure PageFits (env : Env) (front behind : File) (namelist : List DirEnt) : Prop where
  header : ∀ i < 3, env.write i = true
  frontRead : front.readFails 0 = false
  behindRead : behind.readFails 0 = false
  front : env.write 3 = true ∨ front.content = []
  behind : env.write (4 + namelist.length) = true ∨ behind.content = []
  entries : ∀ i entry, namelist[i]? = some entry →
    if entry.Listable then env.write (4 + i) = true
    else env.write (4 + i) = true → ∀ e ∈ namelist.take (i + 1), e.Unmarked

variable {env : Env} {p : Progress}

/-- The queued bytes are those of the single calls. -/
theorem queued_eq_flatten (calls : List Call) : queued calls = (queuedParts calls).flatten := by
  induction calls with
  | nil => rfl
  | cons c calls ih =>
      show c.queued ++ queued calls = _
      rw [ih, queuedParts, queuedParts, List.filterMap_cons]
      cases c with
      | write data ok => cases ok <;> rfl
      | _ => rfl

theorem queued_parts_call {c : Call} (p : Progress) (hc : queuedPart c = none) :
    queuedParts (p.call c).calls = queuedParts p.calls := by
  simp [queuedParts, Progress.call, hc]

theorem queued_parts_write (p : Progress) (data : Bytes) (size : Int) :
    queuedParts (p.write env data size).2.calls =
      queuedParts p.calls ++ [if env.write p.writes then data.take size.toNat else []] := by
  simp [queuedParts, Progress.write, queuedPart]

variable (env) in
/-- Writing texts until a write fails: one part for each text that was tried, and all of them
exactly if no write fails. -/
theorem write_all_parts {texts : List Bytes} (hne : [] ∉ texts) (p : Progress) :
    ∃ made, queuedParts (writeAll env texts p).calls = queuedParts p.calls ++ made ∧
      made.length ≤ texts.length ∧
      (made = texts ↔ ∀ i < texts.length, env.write (p.writes + i) = true) := by
  induction texts generalizing p with
  | nil => exact ⟨[], (List.append_nil _).symm, Nat.le_refl _, by simp⟩
  | cons text rest ih =>
      obtain ⟨htext, hrest⟩ : [] ≠ text ∧ [] ∉ rest := by simpa using hne
      rw [write_all_cons]
      cases hwrite : env.write p.writes with
      | false =>
          refine ⟨[[]], ?_, by simp, ?_⟩
          · rw [if_neg Bool.false_ne_true, queued_parts_write, hwrite, if_neg Bool.false_ne_true]
          · refine iff_of_false (fun h => htext (List.cons.inj h).1) fun h => ?_
            have hfirst := h 0 (by simp)
            rw [Nat.add_zero, hwrite] at hfirst
            cases hfirst
      | true =>
          obtain ⟨made, hmade, hlen, hiff⟩ := ih hrest (p.write env text text.length).2
          refine ⟨text :: made, ?_, by simpa using hlen, ?_⟩
          · rw [if_pos rfl, hmade, queued_parts_write, hwrite, if_pos rfl, Int.toNat_natCast,
              List.take_length, List.append_assoc, List.singleton_append]
          · rw [List.cons.injEq, and_iff_right rfl, hiff]
            show (∀ i < rest.length, env.write (p.writes + 1 + i) = true) ↔ _
            constructor
            · intro h i hi
              cases i with
              | zero => exact hwrite
              | succ i =>
                  rw [← Nat.add_assoc, Nat.add_right_comm]
                  exact h i (by simpa using hi)
            · intro h i hi
              rw [Nat.add_right_comm]
              exact h (i + 1) (by simpa using hi)

/-- What `sendFile` queues of a file that fits its buffer, when its write is the one with number
`i`: one part, or none if the file cannot be read. -/
def filePart (env : Env) (file : File) (i : Nat) : List Bytes :=
  if file.readFails 0 then [] else [if env.write i then file.content else []]

theorem length_file_part_le (env : Env) (file : File) (i : Nat) :
    (filePart env file i).length ≤ 1 := by
  unfold filePart
  split <;> simp

theorem send_file_parts {path : Bytes} {file : File} (hopen : env.openFile path = some file)
    (hsize : file.content.length ≤ 5060) (p : Progress) :
    queuedParts (sendFile env path p).calls =
        queuedParts p.calls ++ filePart env file p.writes ∧
      (sendFile env path p).writes = p.writes + (filePart env file p.writes).length := by
  have hbuf : (zeros 5060).length = 5060 := List.length_replicate
  have hall : file.content.take 5060 = file.content := List.take_of_length_le hsize
  unfold sendFile filePart
  cases hread : file.readFails 0 with
  | true =>
      have hfails : readInto (some file) 0 (zeros 5060) = (-1, zeros 5060) := by
        simp [readInto, File.read, hread]
      simp only [hopen, hfails]
      rw [if_pos (by decide), if_pos trivial, queued_parts_call _ rfl, queued_parts_call _ rfl,
        List.append_nil]
      exact ⟨rfl, rfl⟩
  | false =>
      simp only [hopen, read_into_first hread, hbuf, hall]
      rw [if_neg (by omega), if_neg Bool.false_ne_true, queued_parts_call _ rfl,
        queued_parts_write, queued_parts_call _ rfl, Int.toNat_natCast,
        take_overwrite (Nat.le_refl _), List.take_length]
      exact ⟨rfl, rfl⟩

variable (env) in
/-- The loop over the entries queues one part for each. -/
theorem send_entries_parts (page : Bytes) (entries : List DirEnt) {n : Nat} (hn : n ≤ 2048)
    (p : Progress) :
    queuedParts (sendEntries env (repath page) entries n p).calls = queuedParts p.calls ++
        delivered env.write p.writes (entryParts dirItem fileItem (repath page) n entries) ∧
      (sendEntries env (repath page) entries n p).writes = p.writes + entries.length := by
  have hzeros : (zeros 2048).length = 2048 := List.length_replicate
  induction entries generalizing n p with
  | nil => exact ⟨(List.append_nil _).symm, rfl⟩
  | cons entry rest ih =>
      rw [send_entries_cons, entryParts, delivered, List.length_cons]
      cases hitem : listItem dirItem fileItem (repath page) entry with
      | none =>
          -- the cleared buffer is written with the length of the part before
          have hpart : (zeros n).length = n := List.length_replicate
          have htake : (zeros 2048).take n = zeros n := by
            rw [zeros, List.take_replicate, Nat.min_eq_left hn, zeros]
          obtain ⟨hparts, hwrites⟩ := ih hn (p.write env (zeros 2048) n).2
          constructor
          · rw [hparts, queued_parts_write, Option.getD_none, hpart, Int.toNat_natCast, htake,
              List.append_assoc]
            rfl
          · rw [hwrites, Nat.add_comm rest.length 1, ← Nat.add_assoc]
            rfl
      | some item =>
          have hfit : item.length < (zeros 2048).length := by
            rw [hzeros]
            exact length_list_item_lt hitem
          obtain ⟨hparts, hwrites⟩ := ih (by omega : item.length ≤ 2048)
            (p.write env item item.length).2
          simp only [write_text env hfit]
          constructor
          · rw [show (snprintf (zeros 2048) item).1 = (item.length : Int) from rfl, hparts,
              queued_parts_write, Option.getD_some, Int.toNat_natCast, List.take_length,
              List.append_assoc]
            rfl
          · rw [show (snprintf (zeros 2048) item).1 = (item.length : Int) from rfl, hwrites,
              Nat.add_comm rest.length 1, ← Nat.add_assoc]
            rfl

/-- No list item is empty. -/
theorem dir_item_ne_nil (path name : Bytes) : dirItem path name ≠ [] := by
  simp [dirItem, ascii, charBytes]

theorem file_item_ne_nil (path name : Bytes) : fileItem path name ≠ [] := by
  simp [fileItem, ascii, charBytes]

/-- A written part arrives exactly if its write succeeds or it is empty. -/
theorem written_eq_iff {written : Bool} {part : Bytes} :
    (if written then part else []) = part ↔ written = true ∨ part = [] := by
  cases written
  · simp [eq_comm]
  · simp

/-- One part of a file arrives whole exactly if the file can be read and the write succeeds or is of
no bytes. -/
theorem file_part_eq_iff {file : File} {i : Nat} :
    filePart env file i = [file.content] ↔
      file.readFails 0 = false ∧ (env.write i = true ∨ file.content = []) := by
  unfold filePart
  cases file.readFails 0 with
  | true => simp
  | false =>
      rw [if_neg Bool.false_ne_true, List.cons.injEq, and_iff_left rfl, written_eq_iff,
        and_iff_right rfl]

/-- The pieces of a page arrive as they should, when the header was written by the first three
writes. -/
theorem pieces_eq_iff (page : Bytes) (front behind : File) (namelist : List DirEnt) :
    filePart env front 3 ++
        delivered env.write (3 + (filePart env front 3).length)
          (entryParts dirItem fileItem (repath page) 0 namelist) ++
        filePart env behind (3 + (filePart env front 3).length + namelist.length) =
        pagePieces page front.content behind.content namelist ↔
      (front.readFails 0 = false ∧ (env.write 3 = true ∨ front.content = [])) ∧
        (∀ i entry, namelist[i]? = some entry →
          if entry.Listable then env.write (4 + i) = true
          else env.write (4 + i) = true → ∀ e ∈ namelist.take (i + 1), e.Unmarked) ∧
        behind.readFails 0 = false ∧
          (env.write (4 + namelist.length) = true ∨ behind.content = []) := by
  have hfrontLen := length_file_part_le env front 3
  have hbehindLen := length_file_part_le env behind
    (3 + (filePart env front 3).length + namelist.length)
  have hentries := delivered_parts_iff dir_item_ne_nil file_item_ne_nil (repath page) env.write 4 0
    namelist
  simp only [true_and] at hentries
  rw [← file_part_eq_iff, ← file_part_eq_iff, ← hentries, pagePieces]
  constructor
  · intro h
    -- all pieces are there, so both files contribute one
    have hcount := congrArg List.length h
    simp only [List.length_append, List.length_cons, List.length_nil, length_delivered,
      length_entry_parts, List.length_map] at hcount
    have hone : (filePart env front 3).length = 1 := by omega
    have hlast : (filePart env behind
      (3 + (filePart env front 3).length + namelist.length)).length = 1 := by omega
    rw [hone] at h hlast
    obtain ⟨hinit, hbehind⟩ := List.append_inj' h hlast
    obtain ⟨hfront, hmiddle⟩ := List.append_inj (hinit.trans (List.singleton_append).symm)
      (by simpa using hone)
    exact ⟨hfront, hmiddle, hbehind⟩
  · rintro ⟨hfront, hmiddle, hbehind⟩
    have hone : (filePart env front 3).length = 1 := by rw [hfront, List.length_singleton]
    rw [hone, hbehind, hmiddle, hfront, List.singleton_append]

section

variable {path : Bytes} {size : Int} {namelist : List DirEnt} {front behind : File}
  (hstat : env.stat (repath path) = some ⟨.directory, size⟩)
  (hscan : env.scandir (repath path) = some namelist)
  (hfront : env.openFile (ascii "./SanfDir/front.html") = some front)
  (hbehind : env.openFile (ascii "./SanfDir/behind.html") = some behind)
  (hfrontSize : front.content.length ≤ 5060) (hbehindSize : behind.content.length ≤ 5060)

include hstat hscan hfront hbehind hfrontSize hbehindSize

/-- What is queued of the page of a directory, from the header on. -/
theorem queued_directory_eq :
    ∃ header : Progress,
      header = writeAll env pageHeader (Progress.start.call (.stat (repath path))) ∧
      queuedParts (processingRequests env path) = queuedParts header.calls ++
        (filePart env front header.writes ++
          delivered env.write (header.writes + (filePart env front header.writes).length)
            (entryParts dirItem fileItem (repath path) 0 namelist) ++
          filePart env behind
            (header.writes + (filePart env front header.writes).length + namelist.length)) := by
  have hheader : sendHeader env 200 (ascii "OK") (getMimeType (ascii "*.html")) 0
      (Progress.start.call (.stat (repath path))) =
      writeAll env pageHeader (Progress.start.call (.stat (repath path))) :=
    send_header_eq env _ (by decide) (mime_type_header_safe _).2.1 (by decide)
  refine ⟨_, rfl, ?_⟩
  simp only [processingRequests, hstat, sendDirectory, hscan, hheader]
  generalize writeAll env pageHeader (Progress.start.call (.stat (repath path))) = header
  obtain ⟨hfrontParts, hfrontWrites⟩ := send_file_parts hfront hfrontSize header
  generalize hscanned : (sendFile env (ascii "./SanfDir/front.html") header).call
    (.scandir (repath path)) = scanned
  have hwrites : scanned.writes = header.writes + (filePart env front header.writes).length := by
    rw [← hscanned, ← hfrontWrites]
    rfl
  have hparts : queuedParts scanned.calls =
      queuedParts header.calls ++ filePart env front header.writes := by
    rw [← hscanned, queued_parts_call _ rfl, hfrontParts]
  obtain ⟨hentryParts, hentryWrites⟩ :=
    send_entries_parts env path namelist (Nat.zero_le 2048) scanned
  rw [Nat.cast_zero] at hentryParts hentryWrites
  rw [queued_parts_call _ rfl, (send_file_parts hbehind hbehindSize _).1, hentryParts, hentryWrites,
    hparts, hwrites]
  simp only [List.append_assoc]

/-- When the page of a directory is right. For every directory that can be scanned, with any entries
of any kinds, and page parts of at most 5060 bytes: after the header the front page is queued, then
for each entry its list item, or nothing for an entry that is no directory and no regular file, and
then the footer, if and only if `PageFits` holds. In that case the body is these bytes. -/
theorem send_dir_page_iff :
    (queuedParts (processingRequests env path) =
        pageHeader ++ pagePieces path front.content behind.content namelist ↔
      PageFits env front behind namelist) ∧
      (PageFits env front behind namelist →
        queued (processingRequests env path) = pageHeader.flatten ++ (front.content ++
          namelist.flatMap (listed dirItem fileItem (repath path)) ++ behind.content)) := by
  obtain ⟨header, hheader, hparts⟩ :=
    queued_directory_eq hstat hscan hfront hbehind hfrontSize hbehindSize
  have hiff : queuedParts (processingRequests env path) =
        pageHeader ++ pagePieces path front.content behind.content namelist ↔
      PageFits env front behind namelist := by
    obtain ⟨made, hmade, hlen, hall⟩ := write_all_parts env (by decide : [] ∉ pageHeader)
      (Progress.start.call (.stat (repath path)))
    have hcount : pageHeader.length = 3 := by decide
    have hstart : queuedParts (Progress.start.call (.stat (repath path))).calls = [] := rfl
    have hfirst : ∀ i, (Progress.start.call (.stat (repath path))).writes + i = i := Nat.zero_add
    simp only [hcount, hfirst] at hlen hall
    -- what is queued is a part of the header and then the pieces
    rw [hparts, hheader, hmade, hstart, List.nil_append, ← hheader]
    by_cases hwrites : ∀ i < 3, env.write i = true
    · -- the header is queued, and the writes of the pieces start with number 3
      have hwritten : ∀ i < pageHeader.length,
          env.write ((Progress.start.call (.stat (repath path))).writes + i) = true := by
        simpa only [hcount, hfirst] using hwrites
      have hnext := (write_all_queued env hwritten).1
      rw [hfirst, hcount, ← hheader] at hnext
      rw [hall.mpr hwrites, List.append_cancel_left_eq, hnext, pieces_eq_iff]
      exact ⟨fun ⟨⟨hreads, hwrite⟩, hentries, hreadsEnd, hwriteEnd⟩ =>
          ⟨hwrites, hreads, hreadsEnd, hwrite, hwriteEnd, hentries⟩,
        fun h => ⟨⟨h.frontRead, h.front⟩, h.entries, h.behindRead, h.behind⟩⟩
    · -- a part of the header is missing, and no piece can take its place
      refine iff_of_false (fun h => hwrites (hall.mp ?_)) fun h => hwrites h.header
      have hlengths := congrArg List.length h
      have hfrontLen := length_file_part_le env front header.writes
      have hbehindLen := length_file_part_le env behind
        (header.writes + (filePart env front header.writes).length + namelist.length)
      simp only [List.length_append, List.length_cons, List.length_nil, length_delivered,
        length_entry_parts, List.length_map, pagePieces, hcount] at hlengths
      exact List.append_inj_left h (by omega)
  refine ⟨hiff, fun hfits => ?_⟩
  rw [queued_eq_flatten, hiff.mpr hfits, pagePieces]
  simp [List.flatMap]

end

/-- A host with a root directory of the given entries, and a footer. -/
def pageEnv (namelist : List DirEnt) (footer : Bytes) : Env where
  stat path := if path = ascii "./" then some ⟨.directory, 4096⟩ else none
  openFile path :=
    if path = ascii "./SanfDir/front.html" then some ⟨ascii "<ul>", fun _ => false⟩
    else if path = ascii "./SanfDir/behind.html" then some ⟨footer, fun _ => false⟩
    else none
  scandir path := if path = ascii "./" then some namelist else none
  write _ := true

/-- A directory and a regular file. -/
def twoEntries : List DirEnt :=
  [⟨ascii "sub", dtDir, by decide, by decide⟩, ⟨ascii "page", dtReg, by decide, by decide⟩]

/-- A regular file and a socket, whose type has the bit of a directory. -/
def socketEntries : List DirEnt :=
  [⟨ascii "page", dtReg, by decide, by decide⟩, ⟨ascii "sock", 12, by decide, by decide⟩]

/-- The page of a directory with a directory and a regular file. -/
theorem send_dir_two_entries :
    queuedParts (processingRequests (pageEnv twoEntries (ascii "</ul>")) (ascii "/")) =
      pageHeader ++ pagePieces (ascii "/") (ascii "<ul>") (ascii "</ul>") twoEntries := by
  have hstat : (pageEnv twoEntries (ascii "</ul>")).stat (repath (ascii "/")) =
      some ⟨.directory, 4096⟩ := by decide
  have hfront : (pageEnv twoEntries (ascii "</ul>")).openFile (ascii "./SanfDir/front.html") =
      some ⟨ascii "<ul>", fun _ => false⟩ := rfl
  have hkinds : ∀ entry ∈ twoEntries, entry.Listable := by decide
  refine (send_dir_page_iff hstat rfl hfront rfl (by decide) (by decide)).1.mpr
    ⟨fun _ _ => rfl, rfl, rfl, .inl rfl, .inl rfl, fun i entry hentry => ?_⟩
  rw [if_pos (hkinds entry (List.mem_of_getElem? hentry))]
  rfl

/-- A socket is listed as a directory. -/
theorem directory_page_socket :
    ¬ ∀ (env : Env) (path : Bytes) (size : Int) (namelist : List DirEnt) (front behind : File),
      env.stat (repath path) = some ⟨.directory, size⟩ →
      env.scandir (repath path) = some namelist →
      env.openFile (ascii "./SanfDir/front.html") = some front →
      env.openFile (ascii "./SanfDir/behind.html") = some behind →
      front.content.length ≤ 5060 → behind.content.length ≤ 5060 →
      (∀ i, env.write i = true) →
      queued (processingRequests env path) = pageHeader.flatten ++ (front.content ++
        namelist.flatMap (listed dirItem fileItem (repath path)) ++ behind.content) := by
  intro h
  have hbody := h (pageEnv socketEntries (ascii "</ul>")) (ascii "/") 4096 socketEntries
    ⟨ascii "<ul>", fun _ => false⟩ ⟨ascii "</ul>", fun _ => false⟩ (by decide) rfl rfl rfl
    (by decide) (by decide) fun _ => rfl
  exact absurd hbody (by decide +kernel)

end UnixNet.LibeventWeb
