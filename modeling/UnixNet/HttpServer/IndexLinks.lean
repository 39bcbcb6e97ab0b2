import UnixNet.Browser
import UnixNet.HttpServer.SendDocument

/-!
# The links of an index page

An index page has a `base` element with the path of the request, with a slash behind it if the path
has none, and the names of the directory as links. `index_link_iff` says where a browser gets with
them: the link of a name leads to the entry of the directory, unless the name has two dots in a row.
Then the server refuses the path that it has given out itself.
-/

namespace UnixNet.HttpServer

open NetLib

/-- A path over the unreserved characters that a URL may have behind its host. -/
structure PlainPath (path : Bytes) : Prop where
  chars : ∀ c ∈ path, isPathChar c = true
  rooted : path.head? = some 47
  single : path[1]? ≠ some 47

variable {ι : Type*}

/-- No call fails, and the functions on URIs leave the unreserved characters alone. -/
structure Works (host : Host ι) : Prop where
  uriParse : ∀ path, PlainPath path → host.uriParse path = some (some path)
  uridecode : ∀ path, PlainPath path → host.uridecode path = some path
  malloc : ∀ size, ∃ buf, host.malloc size = some buf
  stat : ∀ path, host.statFails path = false
  opens : ∀ path, host.openFails path = false

/-- A request for a path. -/
def getRequest (path : Bytes) (headers : List (Bytes × Bytes)) (input : Bytes) : Request :=
  ⟨.GET, path, headers, input⟩

variable {host : Host ι} {o : Options} {path base name : Bytes} {dir : ι} {names : List Bytes}
  {headers : List (Bytes × Bytes)} {input : Bytes}

/-- A path that is not empty and that a plain path starts with. -/
theorem PlainPath.of_prefix {whole : Bytes} (h : PlainPath whole) (hstarts : path <+: whole)
    (hne : path ≠ []) : PlainPath path := by
  obtain ⟨rest, rfl⟩ := hstarts
  obtain ⟨c, more, rfl⟩ := List.exists_cons_of_ne_nil hne
  refine ⟨fun c hc => h.chars c (List.mem_append_left _ hc), h.rooted, fun hsecond => ?_⟩
  refine h.single ?_
  rw [List.getElem?_append_left ?_, hsecond]
  exact (List.getElem?_eq_some_iff.mp hsecond).1

/-- A plain path has no NUL. -/
theorem PlainPath.nul_not_mem (h : PlainPath path) : (0 : UInt8) ∉ path :=
  fun hmem => absurd (h.chars 0 hmem) (by decide)

/-- The base of the links is the path with one slash at the end. -/
theorem base_cases (path : Bytes) :
    ∃ front, path ++ trailingSlash path = front ++ [47] ∧
      (path = front ∨ path = front ++ [47]) := by
  unfold trailingSlash
  split
  · exact ⟨path, rfl, .inl rfl⟩
  · next hslash =>
      rw [not_or, not_not] at hslash
      obtain ⟨front, rfl⟩ := List.getLast?_eq_some_iff.mp hslash.2
      exact ⟨front, List.append_nil _, .inr rfl⟩

/-- What a browser reads in the two lines. -/
theorem href_of_base_line (hchars : ∀ c ∈ path ++ trailingSlash path, isPathChar c = true) :
    hrefOf 39 (baseLine path) = path ++ trailingSlash path := by
  have hline : baseLine path =
      ascii "  <base href=" ++ 39 :: ((path ++ trailingSlash path) ++ 39 :: ascii ">\n") := by
    simp [baseLine, ascii, charBytes]
  rw [hline, href_of_eq (by decide), take_while_quote_iff]
  exact fun hmem => absurd (hchars 39 hmem) (by decide)

theorem href_of_link_line (hname : Unreserved name) : hrefOf 34 (linkLine name) = name := by
  have hline : linkLine name =
      ascii "    <li><a href=" ++ 34 :: (name ++ 34 :: (ascii ">" ++ name ++ ascii "</a>\n")) := by
    simp [linkLine, ascii, charBytes]
  rw [hline]
  exact href_of_link (by decide) (fun c hc => hname.path_char hc) _

/-- What is done for a plain path. -/
theorem send_plain (hworks : Works host) (hplain : PlainPath path) :
    sendDocumentCb host o (getRequest path headers input) =
      .print (ascii "Got a GET request for <" ++ path ++ ascii ">\n") ::
        if ascii ".." <:+: path then err else sendDecoded host o path path := by
  rw [sendDocumentCb, if_neg (by exact fun h => h rfl)]
  simp only [getRequest, hworks.uriParse path hplain, Option.getD_some,
    hworks.uridecode path hplain, cstr_eq_self hplain.nul_not_mem]

/-- A plain path without two dots in a row is looked up behind the document root. -/
theorem send_decoded_plain (hworks : Works host) (hplain : PlainPath path) :
    ∃ calls, sendDecoded host o path path = .stat (o.docroot ++ 47 :: path) :: calls := by
  obtain ⟨buf, hmalloc⟩ := hworks.malloc (path.length + o.docroot.length + 2)
  rw [sendDecoded, hmalloc]
  simp only [whole_path_eq hplain.nul_not_mem hmalloc]
  exact ⟨_, rfl⟩

/-- The page that is sent for the path of a directory. -/
theorem index_page_sent (hworks : Works host) (hplain : PlainPath path)
    (hdots : ¬ascii ".." <:+: path)
    (hdir : host.tree.resolve host.cwd (o.docroot ++ 47 :: path) = some dir)
    (hdirectory : host.tree.isDirectory dir = true) :
    .sendReply 200 (ascii "OK") (some (indexPage path path (host.names dir))) ∈
      sendDocumentCb host o (getRequest path headers input) := by
  have hstat : host.lookup host.statFails (o.docroot ++ 47 :: path) = some dir := by
    rw [Host.lookup, hworks.stat, if_neg Bool.false_ne_true, hdir]
  have hopen : host.lookup host.openFails (o.docroot ++ 47 :: path) = some dir := by
    rw [Host.lookup, hworks.opens, if_neg Bool.false_ne_true, hdir]
  obtain ⟨buf, hmalloc⟩ := hworks.malloc (path.length + o.docroot.length + 2)
  rw [send_plain hworks hplain, if_neg hdots, sendDecoded, hmalloc]
  simp only [whole_path_eq hplain.nul_not_mem hmalloc, hstat, hdirectory, if_true, sendDirectory,
    hopen]
  simp

/-- The URL of a name on the page of a directory. -/
theorem plain_link (hurl : PageUrl base names) (hfirst : names.head? ≠ some [])
    (hname : Unreserved name) : PlainPath (base ++ name) := by
  obtain ⟨c, more, rfl⟩ := List.exists_cons_of_ne_nil hname.1
  refine ⟨fun d hd => ?_, by rw [hurl.shape]; rfl, ?_⟩
  · rcases List.mem_append.mp hd with hd | hd
    · exact hurl.chars d hd
    · exact hname.path_char hd
  · have hslash := hname.slash_not_mem
    rw [hurl.shape]
    cases names with
    | nil =>
        intro hsecond
        exact hslash (Option.some.inj hsecond ▸ List.mem_cons_self)
    | cons segment rest =>
        cases segment with
        | nil => exact absurd rfl hfirst
        | cons d segment =>
            intro hsecond
            refine (hurl.normal _ List.mem_cons_self).1 ?_
            exact Option.some.inj hsecond ▸ List.mem_cons_self

/-- Behind the directory of the page is what has the name there. -/
theorem resolve_link {front : Bytes} (hpath : path = front ∨ path = front ++ [47])
    (hdir : host.tree.resolve host.cwd (o.docroot ++ 47 :: path) = some dir)
    (hname : Unreserved name) :
    host.tree.resolve host.cwd (o.docroot ++ 47 :: (front ++ 47 :: name)) =
      host.tree.entry dir name := by
  have hfront : host.tree.resolve host.cwd (o.docroot ++ 47 :: front) = some dir := by
    rcases hpath with rfl | rfl
    · exact hdir
    · refine FileTree.resolve_of_trailing (by simp) ?_
      rw [List.append_assoc, List.cons_append]
      exact hdir
  have hwhole : o.docroot ++ 47 :: (front ++ 47 :: name) =
      (o.docroot ++ 47 :: front) ++ 47 :: name := by
    simp
  rw [hwhole, FileTree.resolve_join (by simp) hname.1 hname.slash_not_mem, hfront, Option.bind_some]

/-- Where the links of an index page lead. For a path over the unreserved characters that is the
path of a directory, with or without a slash at the end, the page is sent. A browser that follows
the link of a name on it makes a request for which the server finds the entry of this name in the
directory, if and only if there are no two dots in a row in the name. -/
theorem index_link_iff (headers : List (Bytes × Bytes)) (input : Bytes) (hworks : Works host)
    (hurl : PageUrl (path ++ trailingSlash path) names) (hfirst : names.head? ≠ some [])
    (hne : path ≠ []) (hdots : ¬ascii ".." <:+: path)
    (hdir : host.tree.resolve host.cwd (o.docroot ++ 47 :: path) = some dir)
    (hdirectory : host.tree.isDirectory dir = true)
    (hname : Unreserved name) (hdot : name ≠ ascii ".") (hparent : name ≠ ascii "..") :
    .sendReply 200 (ascii "OK") (some (indexPage path path (host.names dir))) ∈
        sendDocumentCb host o (getRequest path headers input) ∧
      ∃ url, follow (hrefOf 39 (baseLine path)) (hrefOf 34 (linkLine name)) = some url ∧
        ((∃ wholePath, .stat wholePath ∈ sendDocumentCb host o (getRequest url headers input) ∧
            host.tree.resolve host.cwd wholePath = host.tree.entry dir name) ↔
          ¬ascii ".." <:+: name) := by
  obtain ⟨front, hbase, hpath⟩ := base_cases path
  have hlink : PlainPath (path ++ trailingSlash path ++ name) := plain_link hurl hfirst hname
  have hplain : PlainPath path :=
    hlink.of_prefix ((List.prefix_append _ _).trans (List.prefix_append _ _)) hne
  refine ⟨index_page_sent hworks hplain hdots hdir hdirectory,
    path ++ trailingSlash path ++ name, ?_, ?_⟩
  · have hresolve := resolve_below_name hurl.normal hname.slash_not_mem hdot hparent
    rw [← hurl.shape] at hresolve
    have hrelative : name.head? ≠ some 47 := fun hhead =>
      hname.slash_not_mem (List.mem_of_mem_head? hhead)
    rw [href_of_base_line hurl.chars, href_of_link_line hname, follow, hresolve]
    exact if_pos ⟨hname.1, hrelative, List.all_eq_true.mpr fun c hc => hname.path_char hc⟩
  · -- the dots of the URL are those of the name
    have hnone : ¬ascii ".." <:+: front := by
      rcases hpath with rfl | rfl
      · exact hdots
      · exact fun hinside => hdots (hinside.trans (List.prefix_append _ _).isInfix)
    have hsame : ascii ".." <:+: front ++ 47 :: name ↔ ascii ".." <:+: name :=
      (infix_append_cons_iff (by decide)).trans (or_iff_right hnone)
    rw [hbase, List.append_assoc, List.singleton_append] at hlink ⊢
    rw [send_plain hworks hlink]
    constructor
    · rintro ⟨wholePath, hstat, -⟩ hinside
      rw [if_pos (hsame.mpr hinside)] at hstat
      simp [err] at hstat
    · intro hclean
      obtain ⟨calls, hcalls⟩ := send_decoded_plain (o := o) hworks hlink
      refine ⟨o.docroot ++ 47 :: (front ++ 47 :: name), ?_, resolve_link hpath hdir hname⟩
      rw [if_neg (mt hsame.mp hclean), hcalls]
      exact List.mem_cons_of_mem _ List.mem_cons_self

theorem host_of_a_works : Works hostOfA :=
  ⟨fun _ _ => rfl, fun _ _ => rfl, fun size => ⟨zeros size, rfl⟩, fun _ => rfl, fun _ => rfl⟩

/-- The page of the directory of `hostOfA` has a link that leads to its file. -/
theorem index_link_a :
    ∃ url, follow (hrefOf 39 (baseLine (ascii "/"))) (hrefOf 34 (linkLine (ascii "a"))) = some url ∧
      ∃ wholePath,
        .stat wholePath ∈ sendDocumentCb hostOfA ⟨ascii ".", by decide⟩ (getRequest url [] []) ∧
          hostOfA.tree.resolve true wholePath = some false := by
  have hurl : PageUrl (ascii "/" ++ trailingSlash (ascii "/")) [] := PageUrl.root
  have hname : Unreserved (ascii "a") := by
    refine ⟨by decide, fun c hc => ?_⟩
    obtain rfl := List.mem_singleton.mp hc
    rfl
  have hdir : hostOfA.tree.resolve hostOfA.cwd (ascii "." ++ 47 :: ascii "/") = some true := by
    decide
  obtain ⟨-, url, hfollow, hiff⟩ := index_link_iff (o := ⟨ascii ".", by decide⟩) [] []
    host_of_a_works hurl (by decide) (by decide) (by decide) hdir rfl hname (by decide) (by decide)
  exact ⟨url, hfollow, hiff.mpr (by decide)⟩

end UnixNet.HttpServer
