import UnixNet.Browser
import UnixNet.EpollWeb.ServedPath

/-!
# The directory links of the epoll web server

`SendData` puts `..` and the path of the request in front of the name of an entry. On the page of
the root directory and on those of its directories this leads back to the entry. Further down the
dot-dot segment takes only the last directory away, and the path of the request is put behind the
others once more (`links_lead_back_iff`).
-/

namespace UnixNet.EpollWeb

open NetLib UnixNet.Pub UnixNet.Wrap

/-- The epoll server as a browser sees it. For every request line with that path and a version that
has arrived, the loop body passes a file name to `SendData`, and `stat` of the file is the first
call. -/
def site : Site where
  repath := repath
  item := listItem dirItem fileItem
  looksUp url file := ∀ (line : GetRequestLine) (env : Env) (r : Reader),
    line.path = url → line.version ≠ none → line.bytes <+: r.avail →
    ∃ fileName calls,
      handleLine env (readline 1500 r).1 = .request (ascii "GET") fileName calls ∧
      calls.head? = some (.stat file)

/-! ## What `SendData` does first -/

variable {env : Env} {done : List Call} {p : Progress}

/-- What was done stays done with one more call. -/
theorem done_call (h : done <+: p.calls) (c : Call) : done <+: (p.call c).calls :=
  h.trans (List.prefix_append _ _)

theorem done_send (h : done <+: p.calls) (buf : Bytes) (len : Int) :
    done <+: (p.send env buf len).calls :=
  h.trans (List.prefix_append _ _)

theorem done_header (h : done <+: p.calls) (code : Int) (type : Bytes) (length : Int) :
    done <+: (sendHeader env code type length p).calls := by
  unfold sendHeader
  by_cases hpos : length > 0
  · simp only [hpos, if_true]
    exact done_send (done_send (done_send (done_send h _ _) _ _) _ _) _ _
  · simp only [hpos, if_false]
    exact done_send (done_send (done_send h _ _) _ _) _ _

theorem done_loop (h : done <+: p.calls) (file : File) (fuel pos : Nat) (buf : Bytes) :
    done <+: (sendLoop env file fuel pos buf p).2.calls := by
  induction fuel generalizing pos buf p with
  | zero => exact h
  | succ fuel ih =>
      rw [sendLoop]
      generalize readInto (some file) pos buf = read
      obtain ⟨n, buf⟩ := read
      by_cases hn : n > 0
      · simp only [hn, if_true]
        split
        · exact done_send h buf n
        · exact ih (done_send h buf n) _ _
      · simp only [hn, if_false]
        exact h

theorem done_regular (h : done <+: p.calls) (path : Bytes) (size : Int) :
    done <+: (sendRegular env path size p).calls := by
  have hheader : done <+: (sendHeader env 200 (getMimeType path) (toInt size) p).calls :=
    done_header h _ _ _
  unfold sendRegular
  cases env.openFile (repath path) with
  | none => exact done_call hheader _
  | some file =>
      have hopened := done_call hheader (.openFile (repath path) true)
      have hloop : done <+:
          (sendLoop env file (file.content.length + 1) 0 (zeros 2048) _).2.calls :=
        done_loop hopened file _ _ _
      simp only
      generalize sendLoop env file _ 0 (zeros 2048) _ = final at hloop
      obtain ⟨ended, final⟩ := final
      cases ended with
      | true => exact done_call (done_call (done_call hloop _) _) _
      | false => exact done_call hloop _

/-- The loop over the entries, in terms of the list item of the first. -/
theorem send_entries_cons (repath : Bytes) (entry : DirEnt) (rest : List DirEnt) (j : Int)
    (cache : Bytes) (p : Progress) :
    sendEntries env repath (entry :: rest) j cache p =
      match listItem dirItem fileItem repath entry with
      | some item =>
          sendEntries env repath rest (snprintf (zeros 2048) item).1 (snprintf (zeros 2048) item).2
            (p.sendText env (zeros 2048) item)
      | none => sendEntries env repath rest j (zeros 2048) (p.send env (zeros 2048) j) := by
  unfold listItem
  by_cases hdir : entry.dType &&& dtDir = dtDir
  · simp only [sendEntries, hdir, if_true]
    rfl
  · by_cases hreg : entry.dType &&& dtReg = dtReg
    · simp only [sendEntries, hdir, hreg, if_true, if_false]
      rfl
    · simp only [sendEntries, hdir, hreg, if_false]

theorem done_entries (h : done <+: p.calls) (repath : Bytes) (entries : List DirEnt) (j : Int)
    (cache : Bytes) : done <+: (sendEntries env repath entries j cache p).2.2.calls := by
  induction entries generalizing j cache p with
  | nil => exact h
  | cons entry rest ih =>
      rw [send_entries_cons]
      cases listItem dirItem fileItem repath entry with
      | none => exact ih (done_send h _ _) _ _
      | some item => exact ih (done_send h _ _) _ _

theorem done_directory (h : done <+: p.calls) (path : Bytes) :
    done <+: (sendDirectory env path p).calls := by
  have hscan : done <+: ((sendHeader env 200 (getMimeType (ascii "*.html")) 0 p).call
      (.scandir (repath path))).calls := done_call (done_header h _ _ _) _
  unfold sendDirectory
  cases env.scandir (repath path) with
  | none => exact hscan
  | some namelist =>
      refine done_call (done_call (done_call (done_send (done_call ?_ _) _ _) _) _) _
      exact done_entries (done_call (done_send (done_call hscan _) _ _) _) _ _ _ _

variable (env) in
/-- The first call of `SendData`. -/
theorem send_data_head (path : Bytes) :
    (sendData env path).head? = some (.stat (repath path)) := by
  have hdone : [.stat (repath path)] <+: sendData env path := by
    have hstart : [.stat (repath path)] <+: (Progress.start.call (.stat (repath path))).calls :=
      List.prefix_rfl
    unfold sendData
    cases env.stat (repath path) with
    | none =>
        refine done_call (done_call (done_call (done_send (done_call ?_ _) _ _) _) _) _
        exact done_header hstart _ _ _
    | some fileStat =>
        obtain ⟨kind, size⟩ := fileStat
        cases kind with
        | regular => exact done_regular hstart path size
        | directory => exact done_directory hstart path
        | other => exact hstart
  obtain ⟨rest, hrest⟩ := hdone
  rw [← hrest]
  rfl

/-! ## Where the links lead -/

/-- A list item fits its buffer. -/
theorem length_list_item_lt {page item : Bytes} {entry : DirEnt}
    (h : listItem dirItem fileItem (repath page) entry = some item) : item.length < 2048 := by
  have hpath : (repath page).length ≤ 1023 := List.length_take_le 1023 _
  have hname := entry.short
  have hfront : (ascii "<li><a href = \".").length = 16 := rfl
  have hdir : (ascii "/\">").length = 3 := rfl
  have hfile : (ascii "\">").length = 2 := rfl
  have hend : (ascii "</a></li>").length = 9 := rfl
  unfold listItem at h
  split at h
  · obtain rfl := Option.some.inj h
    simp only [dirItem, List.length_append, hfront, hdir, hend]
    omega
  · split at h
    · obtain rfl := Option.some.inj h
      simp only [fileItem, List.length_append, hfront, hfile, hend]
      omega
    · cases h

/-- The link to an entry, without the slash behind a directory: a dot, the path of the page's
directory and the name. -/
def linkText (path name : Bytes) : Bytes :=
  46 :: (path ++ name)

/-- Both list items have that link. -/
theorem item_links : ItemLinks dirItem fileItem linkText where
  dir _ name :=
    ⟨62 :: (name ++ ascii "</a></li>"), by simp [dirItem, linkText, ascii, charBytes]⟩
  file _ name :=
    ⟨62 :: (name ++ ascii "</a></li>"), by simp [fileItem, linkText, ascii, charBytes]⟩

/-- The characters of a link. -/
theorem link_chars {page name : Bytes} (hpage : ∀ c ∈ page, isPathChar c = true)
    (hname : Unreserved name) : ∀ c ∈ linkText (repath page) name, isPathChar c = true := by
  intro c hc
  rcases List.mem_cons.mp hc with rfl | hc
  · decide
  · rcases List.mem_append.mp hc with hc | hc
    · rcases List.mem_cons.mp (List.mem_of_mem_take hc) with rfl | hc
      · decide
      · exact hpage c hc
    · exact hname.path_char hc

/-- Two dots in front of the URL of a page. -/
theorem split_dots_page {page : Bytes} {names : List Bytes} (hpage : PageUrl page names)
    (rest : Bytes) :
    (46 :: 46 :: page ++ rest).splitOn 47 = [46, 46] :: names ++ rest.splitOn 47 := by
  have hnames : ∀ name ∈ [46, 46] :: names, (47 : UInt8) ∉ name :=
    List.forall_mem_cons.mpr ⟨by decide, fun name h => (hpage.normal name h).1⟩
  rw [← split_below hnames, hpage.shape]
  rfl

/-- The segments of a link: two dots, those of the page as far as its path is not cut, and a last
one with the name. -/
theorem split_link {page name : Bytes} {names : List Bytes}
    (hpage : PageUrl page names) (hname : Unreserved name) :
    ∃ init last, (linkText (repath page) name).splitOn 47 = init ++ [last ++ name] ∧
      init <+: [46, 46] :: names := by
  have htext : linkText (repath page) name = (46 :: 46 :: page.take 1022) ++ name := rfl
  have hprefix : 46 :: 46 :: page.take 1022 <+: 46 :: 46 :: page :=
    (List.prefix_cons_inj 46).mpr ((List.prefix_cons_inj 46).mpr (List.take_prefix 1022 page))
  have hcut : ((46 :: 46 :: page.take 1022).splitOn 47).dropLast <+:
      ((46 :: 46 :: page).splitOn 47).dropLast := split_dropLast_prefix hprefix
  have hsplit := split_dots_page hpage []
  rw [List.append_nil, List.splitOn_nil] at hsplit
  rw [hsplit, List.dropLast_concat] at hcut
  obtain ⟨last, hlast⟩ := split_append_name hname.slash_not_mem (46 :: 46 :: page.take 1022)
  exact ⟨_, last, htext ▸ hlast, hcut⟩

/-- A browser reaches only the pages of directories with a name for each level. -/
theorem reached_page {host : Host} {page : Bytes} (h : Reached site host page) :
    ∃ names, PageUrl page names ∧ [] ∉ names := by
  induction h with
  | root => exact ⟨[], .root, List.not_mem_nil⟩
  | @enter page url item entries entry _ _ _ hdir hname hitem hurl ih =>
      obtain ⟨names, hpage, hnames⟩ := ih
      obtain ⟨written, hwritten, hhref⟩ :=
        list_item_dir item_links (link_chars hpage.chars hname) hdir
      obtain rfl := Option.some.inj (hwritten.symm.trans hitem)
      rw [hhref] at hurl
      refine ⟨_, hpage.next hurl, fun hnil => ?_⟩
      rcases mem_foldl_enter hnil with hnil | ⟨hnil, -⟩
      · exact hnames hnil
      · obtain ⟨init, last, hsplit, hinit⟩ := split_link hpage hname
        rw [hsplit] at hnil
        rcases List.mem_append.mp hnil with hnil | hnil
        · rcases List.mem_cons.mp (hinit.subset hnil) with h | h
          · cases h
          · exact hnames h
        · have hempty := List.mem_singleton.mp hnil
          exact hname.1 (List.append_eq_nil_iff.mp hempty.symm).2

/-- Where a link leads on a page whose path is not cut: the dot-dot segment takes the last
directory away, and all directories follow once more. -/
theorem resolved_link {page name : Bytes} {names : List Bytes}
    (hpage : PageUrl page names) (hname : Unreserved name) (hwhole : page.length ≤ 1022) :
    resolved 47 46 page (linkText (repath page) name) =
      enter 46 (names.dropLast ++ names) name := by
  have htext : linkText (repath page) name = 46 :: 46 :: page ++ name := by
    show 46 :: 46 :: (page.take 1022 ++ name) = _
    rw [List.take_of_length_le hwhole]
    rfl
  have hparent : enter 46 names [46, 46] = names.dropLast := rfl
  have hsegments : (linkText (repath page) name).splitOn 47 = [46, 46] :: (names ++ [name]) := by
    rw [htext, split_dots_page hpage, List.splitOn_eq_singleton hname.slash_not_mem]
    rfl
  have hshape := resolved_below hpage.normal (linkText (repath page) name)
  rw [← hpage.shape] at hshape
  rw [hshape, hsegments, List.foldl_cons, hparent, List.foldl_append,
    foldl_enter_normal hpage.normal]
  rfl

/-- A request line for a URL of path characters. -/
theorem exists_request_line {url : Bytes} (hne : url ≠ [])
    (hchars : ∀ c ∈ url, isPathChar c = true) :
    ∃ line : GetRequestLine, line.path = url ∧ line.version ≠ none := by
  have hbytes : ∀ c ∈ url, c ≠ 0 ∧ c ≠ 32 ∧ c ≠ 10 := by
    intro c hc
    have hchar := hchars c hc
    refine ⟨?_, ?_, ?_⟩
    · rintro rfl
      exact absurd hchar (by decide)
    · rintro rfl
      exact absurd hchar (by decide)
    · rintro rfl
      exact absurd hchar (by decide)
  have hversion : ∀ v ∈ some (ascii "HTTP/1.1"), (10 : UInt8) ∉ v := by
    intro v hv
    rw [← Option.some.inj hv]
    decide
  exact ⟨⟨url, some (ascii "HTTP/1.1"), crlf, hne, hbytes, hversion, .inr rfl⟩, rfl, by simp⟩

/-- The file that the server looks up. -/
theorem site_looks_up_iff (url file : Bytes) (hne : url ≠ [])
    (hchars : ∀ c ∈ url, isPathChar c = true) :
    site.looksUp url file ↔ True ∧ file = site.repath url := by
  have hcalls : ∀ (line : GetRequestLine) (env : Env) (r : Reader), line.path = url →
      line.version ≠ none → line.bytes <+: r.avail →
      handleLine env (readline 1500 r).1 =
          .request (ascii "GET") (url.take 1495) (sendData env (url.take 1495)) ∧
        (sendData env (url.take 1495)).head? = some (.stat (repath url)) := by
    intro line env r hpath hversion harrived
    have hcomplete : lineComplete isNewline 1499 r.avail = true := by
      obtain ⟨more, hmore⟩ := harrived
      rw [← hmore]
      exact line_complete_append (take_line_get_line line).2 more
    have hname : line.fileName = url := by
      rw [GetRequestLine.fileName, if_neg hversion, List.append_nil, hpath]
    have hcut : repath (url.take 1495) = repath url := by
      show 46 :: (url.take 1495).take 1022 = 46 :: url.take 1022
      rw [List.take_take, Nat.min_eq_left (by decide)]
    refine ⟨?_, hcut ▸ send_data_head env _⟩
    rw [handle_get_line env (.inl harrived) hcomplete, hname]
  rw [true_and]
  constructor
  · intro h
    obtain ⟨line, hpath, hversion⟩ := exists_request_line hne hchars
    obtain ⟨src, hsrc⟩ := Source.exists_ready line.bytes (by decide : 0 < 100)
    have harrived : line.bytes <+: (Reader.mk .initial src).avail := by
      rewrite [Reader.avail, ReadBuffer.unread_initial, List.nil_append, hsrc]
      exact List.prefix_rfl
    obtain ⟨fileName, calls, hrequest, hhead⟩ := h line roomyEnv _ hpath hversion harrived
    obtain ⟨hhandled, hstat⟩ := hcalls line roomyEnv _ hpath hversion harrived
    obtain ⟨-, -, rfl⟩ := Action.request.inj (hhandled.symm.trans hrequest)
    exact Call.stat.inj (Option.some.inj (hhead.symm.trans hstat))
  · rintro rfl line env r hpath hversion harrived
    obtain ⟨hhandled, hstat⟩ := hcalls line env r hpath hversion harrived
    exact ⟨_, _, hhandled, hstat⟩

/-- When the links of a page lead back. On every page that a browser reaches, for every entry that
is a directory or a regular file, as long as nothing is cut off: the link leads back to the entry if
and only if the page is that of the root directory or of a directory in it, and the entry is not the
parent directory. -/
theorem links_lead_back_iff {host : Host} {page : Bytes} (h : Reached site host page)
    {entry : DirEnt} (htype : entry.dType = dtDir ∨ entry.dType = dtReg)
    (hname : Unreserved entry.dName) (hfit : 2 * page.length + entry.dName.length ≤ 1022) :
    LeadsBack site page entry ↔ (steps 47 46 page).length ≤ 1 ∧ entry.dName ≠ ascii ".." := by
  obtain ⟨names, hpage, hnames⟩ := reached_page h
  obtain ⟨item, hitem, htext⟩ := exists_list_item item_links (link_chars hpage.chars hname) htype
  have hlength : page.length = (below 47 names).length + 1 := by
    rw [hpage.shape]
    rfl
  have hdrop : (below 47 names.dropLast).length ≤ (below 47 names).length :=
    length_below_dropLast_le names
  have hnormal : Normal 47 46 names.dropLast :=
    fun name hmem => hpage.normal name (List.dropLast_subset _ hmem)
  have hallNames : ∀ name ∈ names, name ≠ [] ∧ name ≠ [46] :=
    fun name hmem => ⟨fun hnil => hnames (hnil ▸ hmem), (hpage.normal name hmem).2.1⟩
  have hback : LeadsBack site page entry ↔
      True ∧ moving 46 names.dropLast = [] ∧ entry.dName ≠ ascii ".." :=
    leads_back_iff (fun _ => True) hpage (k := 1022) (by omega) (fun _ => rfl) site_looks_up_iff
      hitem htext rfl (link_chars hpage.chars hname) hname.slash_not_mem
      (resolved_link hpage hname (by omega)) hnormal hpage.normal rfl
      (fun _ => by rw [below_append, List.length_append]; omega)
  have hsteps : steps 47 46 page = names := by
    rw [hpage.steps_eq, moving_eq_self hallNames]
  have hinit : moving 46 names.dropLast = names.dropLast :=
    moving_eq_self fun name hmem => hallNames name (List.dropLast_subset _ hmem)
  rw [hback, true_and, hsteps, hinit, ← List.length_eq_zero_iff, List.length_dropLast]
  refine and_congr_left' ?_
  omega

end UnixNet.EpollWeb
