import UnixNet.Browser
import UnixNet.LibeventWeb.Connection
import UnixNet.LibeventWeb.Framing

/-!
# The directory links of the libevent web server

`processingRequests` puts the path that it handed to `stat` in front of the name of an entry: a dot
and the path of the request. A browser takes that for a path below the page, so the directories of
the page come twice. The link leads back to the entry on the page of the root directory only, and
there only if the request line fits the array of `read_cb` (`links_lead_back_iff`).
-/

namespace UnixNet.LibeventWeb

open NetLib UnixNet.Pub UnixNet.Bufferevent

/-- The libevent server as a browser sees it. For every GET request with that path whose first piece
has the request line, the read callback for this piece calls `stat` of the file, before anything
else. -/
def site : Site where
  repath := repath
  item := listItem dirItem fileItem
  looksUp url file := ∀ (r : GetRequest) (env : Env) (piece : Bytes),
    r.path = url → piece <+: r.bytes → r.path.length + 15 ≤ piece.length →
    [.read, .call (.stat file)] <+: (Connection.start.readCb env piece).uses

/-- The loop over the entries, in terms of the list item of the first. -/
theorem send_entries_cons (env : Env) (repath : Bytes) (entry : DirEnt) (rest : List DirEnt)
    (n : Int) (p : Progress) :
    sendEntries env repath (entry :: rest) n p =
      match listItem dirItem fileItem repath entry with
      | some item =>
          sendEntries env repath rest (snprintf (zeros 2048) item).1
            (p.write env (snprintf (zeros 2048) item).2 (snprintf (zeros 2048) item).1).2
      | none => sendEntries env repath rest n (p.write env (zeros 2048) n).2 := by
  unfold listItem
  by_cases hdir : entry.dType &&& dtDir = dtDir
  · simp only [sendEntries, hdir, if_true]
  · by_cases hreg : entry.dType &&& dtReg = dtReg
    · simp only [sendEntries, hdir, hreg, if_true, if_false]
    · simp only [sendEntries, hdir, hreg, if_false]

/-- A list item fits its buffer. -/
theorem length_list_item_lt {page item : Bytes} {entry : DirEnt}
    (h : listItem dirItem fileItem (repath page) entry = some item) : item.length < 2048 := by
  have hpath : (repath page).length ≤ 255 := List.length_take_le 255 _
  have hname := entry.short
  have hfront : (ascii "<li><a href = \"").length = 15 := rfl
  have hslash : (ascii "/").length = 1 := rfl
  have hdir : (ascii "/\">").length = 3 := rfl
  have hfile : (ascii "\">").length = 2 := rfl
  have hend : (ascii "</a></li>").length = 9 := rfl
  unfold listItem at h
  split at h
  · obtain rfl := Option.some.inj h
    simp only [dirItem, List.length_append, hfront, hslash, hdir, hend]
    omega
  · split at h
    · obtain rfl := Option.some.inj h
      simp only [fileItem, List.length_append, hfront, hslash, hfile, hend]
      omega
    · cases h

/-! ## Where the links lead -/

/-- The link to an entry, without the slash behind a directory: the path of the page's directory, a
slash and the name. -/
def linkText (path name : Bytes) : Bytes :=
  path ++ 47 :: name

/-- Both list items have that link. -/
theorem item_links : ItemLinks dirItem fileItem linkText where
  dir _ name :=
    ⟨62 :: (name ++ ascii "</a></li>"), by simp [dirItem, linkText, ascii, charBytes]⟩
  file _ name :=
    ⟨62 :: (name ++ ascii "</a></li>"), by simp [fileItem, linkText, ascii, charBytes]⟩

/-- The characters of a link. -/
theorem link_chars {page name : Bytes} (hpage : ∀ c ∈ page, isPathChar c = true)
    (hname : Unreserved name) : ∀ c ∈ linkText (repath page) name, isPathChar c = true := by
  intro c hc
  rcases List.mem_append.mp hc with hc | hc
  · rcases List.mem_cons.mp (List.mem_of_mem_take hc) with rfl | hc
    · decide
    · exact hpage c hc
  · rcases List.mem_cons.mp hc with rfl | hc
    · decide
    · exact hname.path_char hc

/-- A browser reaches only the pages of directories. -/
theorem reached_page {host : Host} {page : Bytes} (h : Reached site host page) :
    ∃ names, PageUrl page names := by
  induction h with
  | root => exact ⟨[], .root⟩
  | @enter page url item entries entry _ _ _ hdir hname hitem hurl ih =>
      obtain ⟨names, hpage⟩ := ih
      obtain ⟨written, hwritten, hhref⟩ :=
        list_item_dir item_links (link_chars hpage.chars hname) hdir
      obtain rfl := Option.some.inj (hwritten.symm.trans hitem)
      rw [hhref] at hurl
      exact ⟨_, hpage.next hurl⟩

/-- Where a link leads on a page whose path is not cut: all directories of the page come twice. -/
theorem resolved_link {page name : Bytes} {names : List Bytes}
    (hpage : PageUrl page names) (hname : Unreserved name) (hwhole : page.length ≤ 254) :
    resolved 47 46 page (linkText (repath page) name) =
      enter 46 (names ++ (names ++ [[]])) name := by
  have hnames : ∀ segment ∈ [46] :: names, (47 : UInt8) ∉ segment :=
    List.forall_mem_cons.mpr ⟨by decide, fun segment h => (hpage.normal segment h).1⟩
  have htext : linkText (repath page) name = below 47 ([46] :: names) ++ 47 :: name := by
    show 46 :: page.take 254 ++ 47 :: name = _
    rw [List.take_of_length_le hwhole, hpage.shape]
    rfl
  have hsegments : (linkText (repath page) name).splitOn 47 =
      [46] :: ((names ++ [[]]) ++ [name]) := by
    rw [htext, split_below hnames, ← List.nil_append (47 :: name), List.splitOn_append_cons_self,
      List.splitOn_eq_singleton hname.slash_not_mem]
    simp
  have hshape := resolved_below hpage.normal (linkText (repath page) name)
  rw [← hpage.shape] at hshape
  rw [hshape, hsegments, List.foldl_cons, List.foldl_append,
    foldl_enter_normal hpage.normal.concat_nil]
  rfl

/-- A path character is neither NUL nor white space. -/
theorem path_char_not_space {c : UInt8} (h : isPathChar c = true) : c ≠ 0 ∧ isspace c = false := by
  have hall : ∀ n : Fin 256, isPathChar (UInt8.ofFin n) = true →
      UInt8.ofFin n ≠ 0 ∧ isspace (UInt8.ofFin n) = false := by decide +kernel
  exact hall c.toFin h

/-- A GET request for a URL of path characters. -/
theorem exists_get_request {url : Bytes} (hne : url ≠ [])
    (hchars : ∀ c ∈ url, isPathChar c = true) : ∃ r : GetRequest, r.path = url :=
  ⟨⟨url, ascii "HTTP/1.1", [], hne, fun c hc => path_char_not_space (hchars c hc),
    by decide +kernel, rfl, by simp⟩, rfl⟩

/-- What `read_cb` does for a request line: it calls `processingRequests` if the method, the path,
the protocol, two blanks and CR fit its array. -/
theorem read_cb_uses {r : GetRequest} {piece : Bytes} (env : Env) (h : piece <+: r.bytes)
    (hline : r.path.length + 15 ≤ piece.length) :
    (Connection.start.readCb env piece).uses =
      .read :: if r.path.length ≤ 242 then (processingRequests env r.path).map .call else [] := by
  have hne : piece ≠ [] := List.ne_nil_of_length_pos (by omega)
  by_cases hfits : r.path.length ≤ 242
  · obtain ⟨protocol, hscan⟩ := scan_get_request r h hne (.inr (by omega))
    rw [if_neg (by omega), List.take_of_length_le (by omega)] at hscan
    have hpath : requestPath piece = some (some r.path) := by
      simp [requestPath, hscan]
    simp only [Connection.readCb, hpath, foldl_processing_requests, hfits, if_true]
    split <;> rfl
  · have hscan := scan_get_request_overrun r h (by omega) (by omega)
    have hpath : requestPath piece = none := by
      simp [requestPath, hscan]
    simp only [Connection.readCb, hpath, hfits, if_false]
    rfl

/-- The file that the server looks up: none if the request line does not fit. -/
theorem site_looks_up_iff (url file : Bytes) (hne : url ≠ [])
    (hchars : ∀ c ∈ url, isPathChar c = true) :
    site.looksUp url file ↔ url.length ≤ 242 ∧ file = site.repath url := by
  have huses : ∀ (r : GetRequest) (env : Env) (piece : Bytes), r.path = url → piece <+: r.bytes →
      r.path.length + 15 ≤ piece.length →
      ([.read, .call (.stat file)] <+: (Connection.start.readCb env piece).uses ↔
        url.length ≤ 242 ∧ file = site.repath url) := by
    rintro r env piece rfl hprefix hline
    obtain ⟨rest, hrest⟩ := List.head?_eq_some_iff.mp (processing_requests_head env r.path)
    rw [read_cb_uses env hprefix hline, hrest]
    by_cases hfits : r.path.length ≤ 242
    · simp [hfits, List.cons_prefix_cons, site]
    · simp [hfits]
  constructor
  · intro h
    obtain ⟨r, hpath⟩ := exists_get_request hne hchars
    have hline : r.path.length + 15 ≤ r.bytes.length := by
      simp [GetRequest.bytes, r.protocol_length, crlf, ascii, charBytes]
      omega
    exact (huses r smallEnv r.bytes hpath List.prefix_rfl hline).mp
      (h r smallEnv r.bytes hpath List.prefix_rfl hline)
  · intro h r env piece hpath hprefix hline
    exact (huses r env piece hpath hprefix hline).mpr h

/-- The link of an entry, which has a slash behind it for a directory. -/
def LinkTo (page : Bytes) (entry : DirEnt) (href : Bytes) : Prop :=
  entry.dType = dtDir ∧ href = linkText (repath page) entry.dName ++ [47] ∨
    entry.dType = dtReg ∧ href = linkText (repath page) entry.dName

/-- A page has that link for a directory or a regular file. -/
theorem exists_link {page : Bytes} {names : List Bytes} {entry : DirEnt}
    (hpage : PageUrl page names) (htype : entry.dType = dtDir ∨ entry.dType = dtReg)
    (hname : Unreserved entry.dName) :
    ∃ item, site.item (site.repath page) entry = some item ∧
      LinkTo page entry (hrefOf 34 item) := by
  have hchars := link_chars hpage.chars hname
  rcases htype with htype | htype
  · obtain ⟨item, hitem, hhref⟩ := list_item_dir item_links hchars htype
    exact ⟨item, hitem, .inl ⟨htype, hhref⟩⟩
  · obtain ⟨item, hitem, hhref⟩ := list_item_file item_links hchars htype
    exact ⟨item, hitem, .inr ⟨htype, hhref⟩⟩

/-- The text of the link, for both kinds. -/
theorem LinkTo.text {page href : Bytes} {entry : DirEnt} (h : LinkTo page entry href) :
    href = linkText (repath page) entry.dName ∨
      href = linkText (repath page) entry.dName ++ [47] :=
  h.symm.imp And.right And.right

/-- The length of the URL that the link of an entry leads to, unless the entry is the parent
directory: the page's URL twice and the name, with a slash behind that of a directory. -/
def linkLength (page : Bytes) (entry : DirEnt) : Nat :=
  if entry.dName = ascii "." then 2 * page.length
  else 2 * page.length + entry.dName.length + if entry.dType = dtDir then 1 else 0

section

variable {page href : Bytes} {names : List Bytes} {entry : DirEnt} (hpage : PageUrl page names)
  (hname : Unreserved entry.dName) (hwhole : page.length ≤ 254) (hlink : LinkTo page entry href)

include hpage hname hwhole hlink

/-- The link of an entry leads to a URL of that length. -/
theorem length_link_url (hparent : entry.dName ≠ ascii "..") :
    (resolve 47 46 page href).length = linkLength page entry := by
  have hlength : page.length = (below 47 names).length + 1 := by
    rw [hpage.shape]
    rfl
  have hbelow : (below 47 (resolved 47 46 page (linkText (repath page) entry.dName))).length + 1 =
      2 * page.length + if entry.dName = ascii "." then 0 else entry.dName.length + 1 := by
    rw [resolved_link hpage hname hwhole, enter]
    by_cases hdot : entry.dName = ascii "."
    · rw [if_pos (show entry.dName = [46] from hdot), if_pos hdot]
      simp only [below_append, below_cons, below_nil, List.length_append, List.length_cons,
        List.length_nil]
      omega
    · rw [if_neg (show ¬ entry.dName = [46] from hdot), if_neg hdot,
        if_neg (show ¬ entry.dName = [46, 46] from hparent)]
      simp only [below_append, below_cons, below_nil, List.length_append, List.length_cons,
        List.length_nil]
      omega
  have hsegments : (linkText (repath page) entry.dName).splitOn 47 =
      (repath page).splitOn 47 ++ [entry.dName] := by
    rw [linkText, List.splitOn_append_cons_self, List.splitOn_eq_singleton hname.slash_not_mem]
  unfold linkLength
  rcases hlink with ⟨hdir, rfl⟩ | ⟨hreg, rfl⟩
  · rw [resolve_directory, below_cons, List.nil_append, List.length_cons, hbelow, if_pos hdir]
    split <;> omega
  · have hfile : ¬ entry.dType = dtDir := by
      rw [hreg]
      decide
    rw [length_resolve, hsegments, List.getLast?_concat, if_neg hfile]
    by_cases hdot : entry.dName = ascii "."
    · rw [if_pos hdot] at hbelow ⊢
      rw [if_pos (by rw [hdot]; decide)]
      omega
    · rw [if_neg hdot] at hbelow ⊢
      have hplain : ¬ some entry.dName ∈ [some [46], some [46, 46]] := by
        simp only [List.mem_cons, Option.some.injEq, List.not_mem_nil, or_false, not_or]
        exact ⟨hdot, hparent⟩
      rw [if_neg hplain]
      omega

/-- A URL that fits leaves room for the names, also for one of two dots. -/
theorem length_names_lt (hroom : (resolve 47 46 page href).length ≤ 242) :
    (below 47 (names ++ (names ++ [[]]))).length + entry.dName.length < 254 := by
  have hlength : page.length = (below 47 names).length + 1 := by
    rw [hpage.shape]
    rfl
  have htwice : (below 47 (names ++ (names ++ [[]]))).length =
      2 * (below 47 names).length + 1 := by
    simp only [below_append, below_cons, below_nil, List.length_append, List.length_cons,
      List.length_nil]
    omega
  by_cases hparent : entry.dName = ascii ".."
  · have hresolved : resolved 47 46 page (linkText (repath page) entry.dName) =
        names ++ names := by
      rw [resolved_link hpage hname hwhole, hparent, ← List.append_assoc]
      exact List.dropLast_concat
    have hle : (below 47 (resolved 47 46 page (linkText (repath page) entry.dName))).length ≤
        (resolve 47 46 page href).length := length_below_resolved_le hlink.text
    rw [hresolved, below_append, List.length_append] at hle
    rw [htwice, hparent]
    show _ + 2 < 254
    omega
  · rw [length_link_url hpage hname hwhole hlink hparent, linkLength] at hroom
    rw [htwice]
    by_cases hdot : entry.dName = ascii "."
    · rw [if_pos hdot] at hroom
      rw [hdot]
      show _ + 1 < 254
      omega
    · rw [if_neg hdot] at hroom
      omega

end

/-- When the links of a page lead back. On every page that a browser reaches and that the server
looks up, for every entry that is a directory or a regular file: the link leads back to the entry if
and only if the page is that of the root directory, the entry is not the parent directory, and the
URL of the link has at most 242 bytes. -/
theorem links_lead_back_iff {host : Host} {page : Bytes} (h : Reached site host page)
    (hserved : site.looksUp page (site.repath page)) {entry : DirEnt}
    (htype : entry.dType = dtDir ∨ entry.dType = dtReg) (hname : Unreserved entry.dName) :
    LeadsBack site page entry ↔
      steps 47 46 page = [] ∧ entry.dName ≠ ascii ".." ∧ linkLength page entry ≤ 242 := by
  obtain ⟨names, hpage⟩ := reached_page h
  have hne : page ≠ [] := by
    rw [hpage.shape]
    exact List.cons_ne_nil _ _
  have hshort := ((site_looks_up_iff page _ hne hpage.chars).mp hserved).1
  have hwhole : page.length ≤ 254 := by omega
  obtain ⟨item, hitem, hlink⟩ := exists_link hpage htype hname
  have hurl := length_link_url hpage hname hwhole hlink
  have hback : LeadsBack site page entry ↔
      (resolve 47 46 page (hrefOf 34 item)).length ≤ 242 ∧
        moving 46 names = [] ∧ entry.dName ≠ ascii ".." :=
    leads_back_iff (fun url => url.length ≤ 242) hpage hwhole (fun _ => rfl) site_looks_up_iff
      hitem hlink.text rfl (link_chars hpage.chars hname) hname.slash_not_mem
      (resolved_link hpage hname hwhole) hpage.normal hpage.normal.concat_nil
      (by simp [moving, segmentKind]) (length_names_lt hpage hname hwhole hlink)
  rw [hback, hpage.steps_eq]
  constructor
  · rintro ⟨hroom, hroot, hparent⟩
    exact ⟨hroot, hparent, hurl hparent ▸ hroom⟩
  · rintro ⟨hroot, hparent, hroom⟩
    exact ⟨(hurl hparent).symm ▸ hroom, hroot, hparent⟩

end UnixNet.LibeventWeb
