import UnixNet.Host
import UnixNet.Lib.Reference
import UnixNet.Pub.Codec

/-!
# What a browser makes of a link

The servers write the link to a directory entry as the `href` attribute of a list item. A browser
takes the text between the quotes, and resolves it against the URL of the page. Only links that are
relative paths over the unreserved characters are modelled, which stand for themselves in a URL.
-/

namespace UnixNet

open NetLib UnixNet.Pub

/-- The characters that stand for themselves everywhere in a URL. -/
def unreserved (c : UInt8) : Bool :=
  isalnum c || (ascii "-._~").contains c

/-- A name over the unreserved characters. -/
def Unreserved (name : Bytes) : Prop :=
  name ≠ [] ∧ ∀ c ∈ name, unreserved c = true

/-- A character of a path over the unreserved characters. -/
def isPathChar (c : UInt8) : Bool :=
  c == 47 || unreserved c

/-- The text between the first two quotes of a line. -/
def hrefOf (quote : UInt8) (line : Bytes) : Bytes :=
  ((line.dropWhile (· ≠ quote)).drop 1).takeWhile (· ≠ quote)

/-- The URL path a browser requests when it follows a link on a page. -/
def follow (page href : Bytes) : Option Bytes :=
  if href ≠ [] ∧ href.head? ≠ some 47 ∧ href.all isPathChar then some (resolve 47 46 page href)
  else none

/-- The attribute ends at the first quote in what was written between the quotes. -/
theorem href_of_eq {quote : UInt8} {front : Bytes} (hfront : quote ∉ front)
    (value rest : Bytes) :
    hrefOf quote (front ++ quote :: (value ++ quote :: rest)) =
      value.takeWhile (· ≠ quote) := by
  have hdrop : (front ++ quote :: (value ++ quote :: rest)).dropWhile (· ≠ quote) =
      quote :: (value ++ quote :: rest) := by
    rw [List.dropWhile_append_of_pos (decide_ne_of_not_mem hfront)]
    simp
  rw [hrefOf, hdrop, List.drop_one, List.tail_cons]
  clear hdrop
  induction value with
  | nil => simp
  | cons c value ih =>
      rw [List.cons_append, List.takeWhile_cons, List.takeWhile_cons, ih]

/-- What was written between the quotes is the attribute if and only if no quote is in it. -/
theorem take_while_quote_iff (quote : UInt8) (value : Bytes) :
    value.takeWhile (· ≠ quote) = value ↔ quote ∉ value := by
  rw [List.takeWhile_eq_self_iff]
  refine ⟨fun h hmem => ?_, decide_ne_of_not_mem⟩
  exact of_decide_eq_true (h quote hmem) rfl

/-- A link over path characters is read as it was written. -/
theorem href_of_link {front link : Bytes} (hfront : (34 : UInt8) ∉ front)
    (hlink : ∀ c ∈ link, isPathChar c = true) (rest : Bytes) :
    hrefOf 34 (front ++ 34 :: (link ++ 34 :: rest)) = link := by
  rw [href_of_eq hfront, take_while_quote_iff]
  exact fun hmem => absurd (hlink 34 hmem) (by decide)

/-- A name over the unreserved characters has no slash. -/
theorem Unreserved.slash_not_mem {name : Bytes} (h : Unreserved name) : (47 : UInt8) ∉ name :=
  fun hmem => absurd (h.2 47 hmem) (by decide)

/-- The unreserved characters are path characters. -/
theorem Unreserved.path_char {name : Bytes} (h : Unreserved name) {c : UInt8} (hc : c ∈ name) :
    isPathChar c = true := by
  rw [isPathChar, h.2 c hc, Bool.or_true]

/-! ## List items -/

/-- The list item a server writes for an entry: one for directories, one for regular files, and none
for entries of other types. -/
def listItem (dirItem fileItem : Bytes → Bytes → Bytes) (path : Bytes) (entry : DirEnt) :
    Option Bytes :=
  if entry.dType &&& dtDir = dtDir then some (dirItem path entry.dName)
  else if entry.dType &&& dtReg = dtReg then some (fileItem path entry.dName)
  else none

/-- The list items of a server have the link `link path name` in them, with a slash behind it for a
directory. -/
structure ItemLinks (dirItem fileItem link : Bytes → Bytes → Bytes) : Prop where
  dir : ∀ path name, ∃ rest, dirItem path name =
    ascii "<li><a href = " ++ 34 :: ((link path name ++ [47]) ++ 34 :: rest)
  file : ∀ path name, ∃ rest, fileItem path name =
    ascii "<li><a href = " ++ 34 :: (link path name ++ 34 :: rest)

variable {dirItem fileItem link : Bytes → Bytes → Bytes} {path : Bytes} {entry : DirEnt}

/-- A directory has a list item, with a slash behind its link. -/
theorem list_item_dir (h : ItemLinks dirItem fileItem link)
    (hchars : ∀ c ∈ link path entry.dName, isPathChar c = true) (htype : entry.dType = dtDir) :
    ∃ item, listItem dirItem fileItem path entry = some item ∧
      hrefOf 34 item = link path entry.dName ++ [47] := by
  obtain ⟨rest, hrest⟩ := h.dir path entry.dName
  refine ⟨_, if_pos (by rw [htype]; decide), ?_⟩
  rw [hrest]
  refine href_of_link (by decide) (fun c hc => ?_) rest
  rcases List.mem_append.mp hc with hc | hc
  · exact hchars c hc
  · rw [List.mem_singleton.mp hc]
    decide

/-- A regular file has a list item with its link. -/
theorem list_item_file (h : ItemLinks dirItem fileItem link)
    (hchars : ∀ c ∈ link path entry.dName, isPathChar c = true) (htype : entry.dType = dtReg) :
    ∃ item, listItem dirItem fileItem path entry = some item ∧
      hrefOf 34 item = link path entry.dName := by
  obtain ⟨rest, hrest⟩ := h.file path entry.dName
  refine ⟨_, (if_neg (by rw [htype]; decide)).trans (if_pos (by rw [htype]; decide)), ?_⟩
  rw [hrest]
  exact href_of_link (by decide) hchars rest

/-- The link of an entry that is a directory or a regular file. -/
theorem exists_list_item (h : ItemLinks dirItem fileItem link)
    (hchars : ∀ c ∈ link path entry.dName, isPathChar c = true)
    (htype : entry.dType = dtDir ∨ entry.dType = dtReg) :
    ∃ item, listItem dirItem fileItem path entry = some item ∧
      (hrefOf 34 item = link path entry.dName ∨
        hrefOf 34 item = link path entry.dName ++ [47]) := by
  rcases htype with htype | htype
  · obtain ⟨item, hitem, hhref⟩ := list_item_dir h hchars htype
    exact ⟨item, hitem, .inr hhref⟩
  · obtain ⟨item, hitem, hhref⟩ := list_item_file h hchars htype
    exact ⟨item, hitem, .inl hhref⟩

/-! ## Walks through the directories of a server -/

/-- What a browser sees of a server: the path that the server makes of a request path, the list
item it writes for an entry of the directory with such a path, and the file it looks up for a
request path. -/
structure Site where
  repath : Bytes → Bytes
  item : Bytes → DirEnt → Option Bytes
  looksUp : Bytes → Bytes → Prop

/-- The pages that a browser reaches from `/` through the links to directories. -/
inductive Reached (site : Site) (host : Host) : Bytes → Prop where
  | root : Reached site host (ascii "/")
  | enter {page url item : Bytes} {entries : List DirEnt} {entry : DirEnt} :
      Reached site host page →
      host.scandir (site.repath page) = some entries → entry ∈ entries →
      entry.dType = dtDir → Unreserved entry.dName →
      site.item (site.repath page) entry = some item →
      follow page (hrefOf 34 item) = some url →
      Reached site host url

/-- The link to an entry leads back to it: the server looks up the entry of the directory, up to
redundant slashes and dot segments. -/
def LeadsBack (site : Site) (page : Bytes) (entry : DirEnt) : Prop :=
  ∃ item url file, site.item (site.repath page) entry = some item ∧
    follow page (hrefOf 34 item) = some url ∧ site.looksUp url file ∧
    steps 47 46 file = steps 47 46 (site.repath page ++ 47 :: entry.dName)

/-- The URL of a page that a browser has reached: the names of directories, each with a slash
behind it. -/
structure PageUrl (page : Bytes) (names : List Bytes) : Prop where
  shape : page = below 47 ([] :: names)
  normal : Normal 47 46 names
  chars : ∀ c ∈ page, isPathChar c = true

/-- The root page. -/
theorem PageUrl.root : PageUrl (ascii "/") [] :=
  ⟨rfl, fun _ h => absurd h List.not_mem_nil, by decide +kernel⟩

/-- The steps of a page are the names of directories in it. -/
theorem PageUrl.steps_eq {page : Bytes} {names : List Bytes} (h : PageUrl page names) :
    steps 47 46 page = moving 46 names := by
  have hnames : ∀ name ∈ [] :: names, (47 : UInt8) ∉ name :=
    List.forall_mem_cons.mpr ⟨List.not_mem_nil, fun name hmem => (h.normal name hmem).1⟩
  rw [h.shape, steps_below hnames, moving_nil_cons]

/-- A link to a directory leads from page to page. -/
theorem PageUrl.next {page text url : Bytes} {names : List Bytes} (h : PageUrl page names)
    (hurl : follow page (text ++ [47]) = some url) :
    PageUrl url ((text.splitOn 47).foldl (enter 46) names) := by
  obtain ⟨rfl, hnormal, hchars⟩ := h
  obtain ⟨⟨-, -, hall⟩, heq⟩ := Option.ite_none_right_eq_some.mp hurl
  obtain rfl := Option.some.inj heq
  have hresolved := resolved_below hnormal text
  have hshape := resolve_directory 47 46 (below 47 ([] :: names)) text
  have hurlNormal := resolved_normal 47 46 (below 47 ([] :: names)) text
  rw [hresolved] at hshape hurlNormal
  refine ⟨hshape, hurlNormal, ?_⟩
  intro c hc
  rw [hshape] at hc
  rcases mem_below hc with rfl | ⟨segment, hsegment, hc⟩
  · decide
  · rcases List.mem_cons.mp hsegment with rfl | hsegment
    · cases hc
    · rcases mem_foldl_enter hsegment with hnames | ⟨htext, -⟩
      · refine hchars c (List.mem_flatMap.mpr ⟨segment, List.mem_cons_of_mem _ hnames, ?_⟩)
        exact List.mem_append_left _ hc
      · have hmem := (mem_of_mem_segment htext hc).1
        exact List.all_eq_true.mp hall c (List.mem_append_left _ hmem)

/-- A browser follows a relative path over the unreserved characters. -/
theorem follow_eq {page text href : Bytes} (hhref : href = text ∨ href = text ++ [47])
    (hrelative : text.head? = some 46) (hchars : ∀ c ∈ text, isPathChar c = true) :
    follow page href = some (resolve 47 46 page href) := by
  obtain ⟨rest, rfl⟩ : ∃ rest, text = 46 :: rest := List.head?_eq_some_iff.mp hrelative
  have hall : (46 :: rest).all isPathChar = true := List.all_eq_true.mpr hchars
  refine if_pos ?_
  rcases hhref with rfl | rfl
  · exact ⟨by simp, by simp, hall⟩
  · refine ⟨by simp, by simp, ?_⟩
    rw [List.all_append, hall]
    decide

/-- The URL that a browser makes of such a link consists of path characters. -/
theorem resolve_path_chars {page href : Bytes} (hpage : ∀ c ∈ page, isPathChar c = true)
    (hhref : ∀ c ∈ href, isPathChar c = true) :
    resolve 47 46 page href ≠ [] ∧ ∀ c ∈ resolve 47 46 page href, isPathChar c = true := by
  refine ⟨resolve_ne_nil 47 46 page href, fun c hc => ?_⟩
  rcases mem_resolve hc with rfl | hc | hc
  · decide
  · exact hpage c hc
  · exact hhref c hc

/-- The characters of a link with or without a slash behind it. -/
theorem href_path_chars {text href : Bytes} (hhref : href = text ∨ href = text ++ [47])
    (hchars : ∀ c ∈ text, isPathChar c = true) : ∀ c ∈ href, isPathChar c = true := by
  rcases hhref with rfl | rfl
  · exact hchars
  · exact List.forall_mem_append.mpr ⟨hchars, by decide +kernel⟩

/-- The page has one item for an entry, and the browser follows its link in one way. -/
theorem leads_back_item_iff {site : Site} {page item url : Bytes} (takes : Bytes → Prop)
    (hlooks : ∀ file, site.looksUp url file ↔ takes url ∧ file = site.repath url)
    (hitem : site.item (site.repath page) entry = some item)
    (hurl : follow page (hrefOf 34 item) = some url) :
    LeadsBack site page entry ↔
      takes url ∧ steps 47 46 (site.repath url) =
        steps 47 46 (site.repath page ++ 47 :: entry.dName) := by
  constructor
  · rintro ⟨other, target, file, hother, hfollow, hfile, heq⟩
    obtain rfl := Option.some.inj (hitem.symm.trans hother)
    obtain rfl := Option.some.inj (hurl.symm.trans hfollow)
    obtain ⟨htakes, rfl⟩ := (hlooks _).mp hfile
    exact ⟨htakes, heq⟩
  · rintro ⟨htakes, heq⟩
    exact ⟨item, url, _, hitem, hurl, (hlooks _).mpr ⟨htakes, rfl⟩, heq⟩

/-- When the link to an entry leads back to it, for a server that puts a dot in front of the path of
a request that it takes, and cuts it at some length. The link goes through some segments `first`
that the path of the directory does not have, and then through segments with the same steps as that
path. -/
theorem leads_back_iff {site : Site} {page item text : Bytes} {k : Nat}
    (takes : Bytes → Prop) {names first segments : List Bytes} (hpage : PageUrl page names)
    (hwhole : page.length ≤ k) (hrepath : ∀ url, site.repath url = 46 :: url.take k)
    (hlooks : ∀ url file, url ≠ [] → (∀ c ∈ url, isPathChar c = true) →
      (site.looksUp url file ↔ takes url ∧ file = site.repath url))
    (hitem : site.item (site.repath page) entry = some item)
    (htext : hrefOf 34 item = text ∨ hrefOf 34 item = text ++ [47])
    (hrelative : text.head? = some 46) (hchars : ∀ c ∈ text, isPathChar c = true)
    (hname : (47 : UInt8) ∉ entry.dName)
    (hresolved : resolved 47 46 page text = enter 46 (first ++ segments) entry.dName)
    (hfirst : Normal 47 46 first) (hsegments : Normal 47 46 segments)
    (hsame : moving 46 segments = moving 46 names)
    (hfit : takes (resolve 47 46 page (hrefOf 34 item)) →
      (below 47 (first ++ segments)).length + entry.dName.length < k) :
    LeadsBack site page entry ↔
      takes (resolve 47 46 page (hrefOf 34 item)) ∧
        moving 46 first = [] ∧ entry.dName ≠ ascii ".." := by
  have hurl : follow page (hrefOf 34 item) = some (resolve 47 46 page (hrefOf 34 item)) :=
    follow_eq htext hrelative hchars
  obtain ⟨hne, hurlChars⟩ := resolve_path_chars hpage.chars (href_path_chars htext hchars)
  have hentry : steps 47 46 (site.repath page ++ 47 :: entry.dName) =
      moving 46 segments ++ moving 46 [entry.dName] := by
    have hslash : page <+: 47 :: below 47 names := by
      rw [hpage.shape, below_cons]
      exact List.prefix_rfl
    rw [hrepath, List.take_of_length_le hwhole, steps_append, steps_dot_cons (by decide) hslash,
      hpage.steps_eq, ← hsame, steps, List.splitOn_eq_singleton hname]
  rw [leads_back_item_iff takes (fun file => hlooks _ file hne hurlChars) hitem hurl]
  refine and_congr_right fun htakes => ?_
  have hroom := hfit htakes
  have hlength : (below 47 (enter 46 (first ++ segments) entry.dName)).length ≤
      (below 47 (first ++ segments)).length + entry.dName.length + 1 :=
    length_below_enter_le _ _
  have hsteps : steps 47 46 (site.repath (resolve 47 46 page (hrefOf 34 item))) =
      moving 46 (enter 46 (first ++ segments) entry.dName) := by
    rw [hrepath, dot_take_resolve_steps (by decide) htext (by rw [hresolved]; omega), hresolved]
  rw [hsteps, hentry, moving_enter_iff hfirst hsegments]
  rfl

end UnixNet
