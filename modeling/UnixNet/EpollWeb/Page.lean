import UnixNet.EpollWeb.SendLengths

/-!
# The directory pages of the epoll web server

The page of a directory is sent piece by piece: the front page, a piece for each entry, and the
footer, for which `SendData` hands the number of entries to `send`. The pieces are the right ones
exactly when that number is the length of the footer and no entry is of a kind that the tests of
`SendData` take for another or that gets the bytes of the piece before (`directory_page_iff`).
-/

namespace UnixNet.EpollWeb

open NetLib UnixNet.Pub

/-- The bytes that a `send` accepted. -/
def Call.sent : Call → Option Bytes
  | .send buf _ ret => some (buf.take ret.toNat)
  | _ => none

/-- What the `send` calls accepted, one by one. -/
def sentParts (calls : List Call) : List Bytes :=
  calls.filterMap Call.sent

/-- The call is no `send`, or one that succeeds and takes all that it is given. -/
def Call.InFull : Call → Prop
  | .send _ len ret => 0 ≤ ret ∧ ret = len
  | _ => True

instance (c : Call) : Decidable c.InFull :=
  match c with
  | .send _ len ret => inferInstanceAs (Decidable (0 ≤ ret ∧ ret = len))
  | .stat _ | .openFile _ _ | .closeFile _ | .scandir _ | .close | .epollDel => .isTrue trivial

/-- Every `send` succeeds and takes all that it is given. -/
def SentInFull (calls : List Call) : Prop :=
  ∀ c ∈ calls, c.InFull

instance (calls : List Call) : Decidable (SentInFull calls) :=
  inferInstanceAs (Decidable (∀ c ∈ calls, c.InFull))

/-- The pieces of the page of a directory: the front page, a piece for each entry and the footer. -/
def pagePieces (page front behind : Bytes) (namelist : List DirEnt) : List Bytes :=
  front :: namelist.map (listed dirItem fileItem (repath page)) ++ [behind]

/-- The header and then the pieces are sent, each by a `send` from within its buffer. -/
def SendsPage (calls : List Call) (pieces : List Bytes) : Prop :=
  sentParts calls = headerParts 200 (getMimeType (ascii "*.html")) 0 ++ pieces ∧
    ∀ buf len ret, .send buf len ret ∈ calls → 0 ≤ len ∧ len ≤ buf.length

/-- The number of entries is the length of the footer, which fits the buffer. Every entry is a
directory or a regular file, unless the front page is empty: then there may be entries of kinds that
both tests miss in front of the others. -/
def PageFits (front behind : Bytes) (namelist : List DirEnt) : Prop :=
  namelist.length = behind.length ∧ behind.length ≤ 2048 ∧
    ∀ i entry, namelist[i]? = some entry →
      entry.Listable ∨ front = [] ∧ ∀ e ∈ namelist.take (i + 1), e.Unmarked

variable {env : Env}

/-- The accepted bytes are those of the single calls. -/
theorem accepted_eq_flatten (calls : List Call) : accepted calls = (sentParts calls).flatten := by
  induction calls with
  | nil => rfl
  | cons c calls ih =>
      show c.accepted ++ accepted calls = _
      rw [ih, sentParts, sentParts, List.filterMap_cons]
      cases c <;> rfl

/-- What the calls accepted when they took all that they were given. -/
theorem sent_parts_eq {calls : List Call} (h : SentInFull calls) :
    sentParts calls = (asked calls).map given := by
  induction calls with
  | nil => rfl
  | cons c calls ih =>
      have hrest := ih fun c hc => h c (List.mem_cons_of_mem _ hc)
      unfold sentParts asked at hrest ⊢
      rw [List.filterMap_cons, List.filterMap_cons]
      cases c with
      | send buf len ret =>
          obtain ⟨-, rfl⟩ : 0 ≤ ret ∧ ret = len := h _ List.mem_cons_self
          simp only [Call.sent, Call.asked, List.map_cons, given, hrest]
      | _ => exact hrest

/-- No list item is empty. -/
theorem dir_item_ne_nil (path name : Bytes) : dirItem path name ≠ [] := by
  simp [dirItem, ascii, charBytes]

theorem file_item_ne_nil (path name : Bytes) : fileItem path name ≠ [] := by
  simp [fileItem, ascii, charBytes]

/-- The pieces of the entries are the right ones, for a front page that is sent whole. -/
theorem entry_parts_eq_iff (page front : Bytes) (namelist : List DirEnt) :
    entryParts dirItem fileItem (repath page) front.length namelist =
        namelist.map (listed dirItem fileItem (repath page)) ↔
      ∀ i entry, namelist[i]? = some entry →
        entry.Listable ∨ front = [] ∧ ∀ e ∈ namelist.take (i + 1), e.Unmarked := by
  have hparts := delivered_parts_iff dir_item_ne_nil file_item_ne_nil (repath page)
    (fun _ => true) 0 front.length namelist
  rw [delivered_all] at hparts
  rw [hparts]
  refine forall₂_congr fun i entry => forall_congr' fun hentry => ?_
  by_cases hlist : entry.Listable
  · simp [hlist]
  · simp [hlist, List.length_eq_zero_iff]

/-- A footer that is sent with the number of entries as its length. -/
theorem footer_eq_iff (behind : Bytes) (n : Nat) {cache : Bytes} (hcache : cache.length = 2048) :
    (overwrite (behind.take 2048) cache).take n = behind ∧ n ≤ 2048 ↔
      n = behind.length ∧ behind.length ≤ 2048 := by
  have hkeep : (overwrite (behind.take 2048) cache).length = 2048 := by
    rw [length_overwrite (by rw [hcache]; exact List.length_take_le 2048 _), hcache]
  constructor
  · rintro ⟨heq, hn⟩
    have hlen := congrArg List.length heq
    rw [List.length_take, hkeep, Nat.min_eq_left hn] at hlen
    exact ⟨hlen, hlen ▸ hn⟩
  · rintro ⟨rfl, hlen⟩
    have hall : behind.take 2048 = behind := List.take_of_length_le hlen
    rw [hall, take_overwrite (Nat.le_refl _), List.take_length]
    exact ⟨rfl, hlen⟩

/-- When all that `SendData` sends of a directory page is accepted, the front page was read: else it
is sent with the length -1. -/
theorem front_can_read {path : Bytes} {size : Int} {namelist : List DirEnt}
    (hstat : env.stat (repath path) = some ⟨.directory, size⟩)
    (hscan : env.scandir (repath path) = some namelist) (hsends : SentInFull (sendData env path)) :
    env.canRead (ascii "./SanfDir/front.html") = true := by
  by_contra hcan
  have hunread : (zeros 2048, -1) ∈ asked (sendData env path) := by
    simp only [sendData, hstat]
    exact send_directory_unread hscan (Bool.eq_false_iff.mpr hcan) _
  obtain ⟨c, hc, hasked⟩ := List.mem_filterMap.mp hunread
  cases c with
  | send buf len ret =>
      obtain ⟨hret, rfl⟩ : 0 ≤ ret ∧ ret = len := hsends _ hc
      obtain ⟨-, rfl⟩ := Prod.mk.inj (Option.some.inj hasked)
      exact absurd hret (by decide)
  | _ => cases hasked

section

variable {path : Bytes} {size : Int} {namelist : List DirEnt} {front behind : File}
  (hstat : env.stat (repath path) = some ⟨.directory, size⟩)
  (hscan : env.scandir (repath path) = some namelist)
  (hfront : env.openFile (ascii "./SanfDir/front.html") = some front)
  (hbehind : env.openFile (ascii "./SanfDir/behind.html") = some behind)
  (hsize : front.content.length ≤ 2048) (hreads : behind.readFails 0 = false)
  (hsends : SentInFull (sendData env path))

include hstat hscan hfront hbehind hsize hreads hsends

/-- What is sent of the page of a directory. -/
theorem sent_directory_eq :
    ∃ cache : Bytes, cache.length = 2048 ∧
      sentParts (sendData env path) = headerParts 200 (getMimeType (ascii "*.html")) 0 ++
        (front.content ::
          entryParts dirItem fileItem (repath path) front.content.length namelist ++
            [(overwrite (behind.content.take 2048) cache).take namelist.length]) := by
  obtain ⟨file, hopen, hread⟩ := Host.canRead_iff.mp (front_can_read hstat hscan hsends)
  obtain rfl := Option.some.inj (hfront.symm.trans hopen)
  obtain ⟨stage, cache, hcache, ⟨made, hmade, hparts, -⟩, hasked⟩ :=
    send_directory_asked hscan hfront hread (Progress.start.call (.stat (repath path)))
  have hdata : sendData env path =
      (sendDirectory env path (Progress.start.call (.stat (repath path)))).calls := by
    simp only [sendData, hstat]
  have hall : front.content.take 2048 = front.content := List.take_of_length_le hsize
  have hstart : asked (Progress.start.call (.stat (repath path))).calls = [] := rfl
  refine ⟨cache, hcache, ?_⟩
  rw [sent_parts_eq hsends, hdata, hasked, hmade, hstart, List.nil_append, List.map_append, hparts,
    hall, hbehind, read_into_first hreads, hcache]
  simp [given]

/-- When the page of a directory is right. For every directory that can be scanned, with any entries
of any kinds, when every `send` succeeds in full: after the header the front page is sent, then for
each entry its list item, or nothing for an entry that is no directory and no regular file, and then
the whole footer, if and only if `PageFits` holds. In that case the body is these bytes. -/
theorem directory_page_iff :
    (SendsPage (sendData env path) (pagePieces path front.content behind.content namelist) ↔
        PageFits front.content behind.content namelist) ∧
      (PageFits front.content behind.content namelist →
        accepted (sendData env path) =
          (headerParts 200 (getMimeType (ascii "*.html")) 0).flatten ++ (front.content ++
            namelist.flatMap (listed dirItem fileItem (repath path)) ++ behind.content)) := by
  obtain ⟨cache, hcache, hparts⟩ :=
    sent_directory_eq hstat hscan hfront hbehind hsize hreads hsends
  have hlengths : (∀ buf len ret, .send buf len ret ∈ sendData env path →
      0 ≤ len ∧ len ≤ buf.length) ↔ namelist.length ≤ 2048 := by
    rw [forall_send_iff, send_data_in_buffer_iff]
    simp [lengthsInRange, hstat, hscan, front_can_read hstat hscan hsends]
  have hfooter := footer_eq_iff behind.content namelist.length hcache
  have hiff : SendsPage (sendData env path) (pagePieces path front.content behind.content namelist)
      ↔ PageFits front.content behind.content namelist := by
    rw [SendsPage, hlengths, hparts, List.append_cancel_left_eq, pagePieces, List.cons_append,
      List.cons_append, List.cons.injEq, and_iff_right rfl, List.append_singleton_inj,
      entry_parts_eq_iff, and_assoc, hfooter, and_comm, and_assoc]
    rfl
  refine ⟨hiff, fun hfits => ?_⟩
  rw [accepted_eq_flatten, (hiff.mpr hfits).1, pagePieces]
  simp [List.flatMap]

end

/-- A host with a root directory of the given entries, and a footer. -/
def pageEnv (namelist : List DirEnt) (footer : Bytes) : Env where
  stat path := if path = ascii "./" then some ⟨.directory, 4096⟩ else none
  openFile path :=
    if path = ascii "./SanfDir/front.html" then some ⟨ascii "<ul>", fun _ => false⟩
    else if path = ascii "./SanfDir/behind.html" then some ⟨footer, fun _ => false⟩
    else none
  scandir path := if path = ascii "./" then some namelist else none
  send _ := .accept 4095

/-- A directory and a regular file. -/
def twoEntries : List DirEnt :=
  [⟨ascii "d", dtDir, by decide, by decide⟩, ⟨ascii "f", dtReg, by decide, by decide⟩]

/-- A page with a footer of two bytes and two entries. -/
theorem directory_page_two_entries :
    SendsPage (sendData (pageEnv twoEntries (ascii "\n\n")) (ascii "/"))
      (pagePieces (ascii "/") (ascii "<ul>") (ascii "\n\n") twoEntries) := by
  have hstat : (pageEnv twoEntries (ascii "\n\n")).stat (repath (ascii "/")) =
      some ⟨.directory, 4096⟩ := by decide
  have hfront : (pageEnv twoEntries (ascii "\n\n")).openFile (ascii "./SanfDir/front.html") =
      some ⟨ascii "<ul>", fun _ => false⟩ := rfl
  have hsends : SentInFull (sendData (pageEnv twoEntries (ascii "\n\n")) (ascii "/")) := by
    decide +kernel
  have hkinds : ∀ entry ∈ twoEntries, entry.Listable := by decide
  have hfits : PageFits (ascii "<ul>") (ascii "\n\n") twoEntries :=
    ⟨by decide, by decide, fun i entry hentry => .inl (hkinds entry (List.mem_of_getElem? hentry))⟩
  exact (directory_page_iff hstat rfl hfront rfl (by decide) rfl hsends).1.mpr hfits

/-- The footer of a directory with two entries is cut to two bytes. -/
theorem directory_page_cut_footer :
    ¬ ∀ (env : Env) (path : Bytes) (size : Int) (namelist : List DirEnt) (front behind : File),
      env.stat (repath path) = some ⟨.directory, size⟩ →
      env.scandir (repath path) = some namelist →
      env.openFile (ascii "./SanfDir/front.html") = some front →
      env.openFile (ascii "./SanfDir/behind.html") = some behind →
      front.content.length ≤ 2048 → behind.readFails 0 = false →
      SentInFull (sendData env path) →
      accepted (sendData env path) =
        (headerParts 200 (getMimeType (ascii "*.html")) 0).flatten ++ (front.content ++
          namelist.flatMap (listed dirItem fileItem (repath path)) ++ behind.content) := by
  intro h
  have hbody := h (pageEnv twoEntries (ascii "</ul>")) (ascii "/") 4096 twoEntries
    ⟨ascii "<ul>", fun _ => false⟩ ⟨ascii "</ul>", fun _ => false⟩ (by decide) rfl rfl rfl
    (by decide) rfl (by decide +kernel)
  exact absurd hbody (by decide +kernel)

end UnixNet.EpollWeb
