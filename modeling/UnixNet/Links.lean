import UnixNet.EpollWeb.Links
import UnixNet.LibeventWeb.Links

/-!
# Where the links of directory listings lead

Both servers write a link for every entry of a directory. `directory_links_lead_back` says on which
pages these links lead back to the entries: for the epoll server on those of the root directory and
of the directories in it, for the libevent server on that of the root directory, as long as the
request line for the link fits the array that it is read into.
-/

namespace UnixNet

open NetLib

/-- An entry on a page that a browser has reached and that the server looks up for it: a directory
or a regular file, with a name over the unreserved characters. -/
structure Listed (site : Site) (host : Host) (page : Bytes) (entry : DirEnt) : Prop where
  reached : Reached site host page
  served : site.looksUp page (site.repath page)
  listed : ∃ entries, host.scandir (site.repath page) = some entries ∧ entry ∈ entries
  type : entry.dType = dtDir ∨ entry.dType = dtReg
  unreserved : Unreserved entry.dName

/-- The page of the root directory, or of a directory in it. -/
def TopPage (host : Host) (page : Bytes) : Prop :=
  page = ascii "/" ∨
    ∃ entries entry, host.scandir (ascii "./") = some entries ∧ entry ∈ entries ∧
      entry.dType = dtDir ∧ Unreserved entry.dName ∧ page = 47 :: (entry.dName ++ [47])

/-- The page of the root directory, or of a directory in it, is short and has at most one step. -/
theorem TopPage.short {host : Host} {page : Bytes} (h : TopPage host page) :
    page.length ≤ 257 ∧ (steps 47 46 page).length ≤ 1 := by
  rcases h with rfl | ⟨entries, entry, -, -, -, hname, rfl⟩
  · decide
  · have hshort := entry.short
    refine ⟨by simp; omega, ?_⟩
    have hone : (moving 46 [entry.dName]).length ≤ 1 := List.length_filter_le _ _
    rw [steps_sep_cons, steps_append, steps, steps, List.splitOn_eq_singleton hname.slash_not_mem,
      List.splitOn_nil, moving_nil_cons, List.length_append]
    exact hone

/-- When the links of the listings lead back to their entries. For every page that a browser reaches
from `/` through the links to directories, and every entry on it: the link of the epoll server leads
back to the entry if the page is that of the root directory or of a directory in it and the entry is
not the parent directory, and as long as no path is cut, in no other case. The link of the libevent
server leads back to the entry if and only if the page is that of the root directory, the entry is
not the parent directory, and the URL of the link has at most 242 bytes, so that the request line
fits `buf`. -/
theorem directory_links_lead_back (host : Host) (page : Bytes) (entry : DirEnt) :
    (Listed EpollWeb.site host page entry →
      (TopPage host page ∧ entry.dName ≠ ascii ".." → LeadsBack EpollWeb.site page entry) ∧
      (2 * page.length + entry.dName.length ≤ 1022 →
        (LeadsBack EpollWeb.site page entry ↔
          (steps 47 46 page).length ≤ 1 ∧ entry.dName ≠ ascii ".."))) ∧
    (Listed LibeventWeb.site host page entry →
      (LeadsBack LibeventWeb.site page entry ↔
        steps 47 46 page = [] ∧ entry.dName ≠ ascii ".." ∧
          LibeventWeb.linkLength page entry ≤ 242)) := by
  refine ⟨fun h => ?_, fun h => ?_⟩
  · have hiff := EpollWeb.links_lead_back_iff h.reached h.type h.unreserved
    refine ⟨fun ⟨htop, hparent⟩ => ?_, hiff⟩
    have hshort := entry.short
    exact (hiff (by have := htop.short.1; omega)).mpr ⟨htop.short.2, hparent⟩
  · exact LibeventWeb.links_lead_back_iff h.reached h.served h.type h.unreserved

/-- Three directories. -/
def dirA : DirEnt := ⟨ascii "a", dtDir, by decide, by decide⟩
def dirB : DirEnt := ⟨ascii "b", dtDir, by decide, by decide⟩
def dirC : DirEnt := ⟨ascii "c", dtDir, by decide, by decide⟩

/-- A document root with a directory `a`, in which there is a directory `b` with a directory `c`. -/
def nestedRoot : Host where
  stat _ := none
  openFile _ := none
  scandir path :=
    if path = ascii "./" then some [dirA]
    else if path = ascii "./a/" ∨ path = ascii ".//a/" then some [dirB]
    else if path = ascii "./a/b/" then some [dirC]
    else none

/-- Both servers look up the file of a short page. -/
theorem looks_up_page {page : Bytes} (hne : page ≠ []) (hchars : ∀ c ∈ page, isPathChar c = true)
    (hlength : page.length ≤ 242) :
    EpollWeb.site.looksUp page (EpollWeb.repath page) ∧
      LibeventWeb.site.looksUp page (LibeventWeb.repath page) :=
  ⟨(EpollWeb.site_looks_up_iff page _ hne hchars).mpr ⟨trivial, rfl⟩,
    (LibeventWeb.site_looks_up_iff page _ hne hchars).mpr ⟨hlength, rfl⟩⟩

/-- The root page of that document root lists `a`. -/
theorem listed_root {site : Site} (h : site.repath (ascii "/") = ascii "./")
    (hserved : site.looksUp (ascii "/") (site.repath (ascii "/"))) :
    Listed site nestedRoot (ascii "/") dirA where
  reached := .root
  served := hserved
  listed := ⟨[dirA], by rw [h]; rfl, by simp⟩
  type := .inl rfl
  unreserved := ⟨by decide, by decide +kernel⟩

/-- The root page of both servers. -/
theorem listed_roots :
    Listed EpollWeb.site nestedRoot (ascii "/") dirA ∧
      Listed LibeventWeb.site nestedRoot (ascii "/") dirA := by
  have hchars : ∀ c ∈ ascii "/", isPathChar c = true := by decide +kernel
  obtain ⟨hepoll, hlibevent⟩ := looks_up_page (by decide) hchars (by decide)
  exact ⟨listed_root rfl hepoll, listed_root rfl hlibevent⟩

/-- A browser reaches the page of the only directory on a page. -/
theorem reached_only {site : Site} {page url item : Bytes} {dir : DirEnt}
    (h : Listed site nestedRoot page dir) (hdir : dir.dType = dtDir)
    (hitem : site.item (site.repath page) dir = some item)
    (hurl : follow page (hrefOf 34 item) = some url) : Reached site nestedRoot url := by
  obtain ⟨entries, hscan, hmem⟩ := h.listed
  exact .enter h.reached hscan hmem hdir h.unreserved hitem hurl

/-- On the root page both links lead back. -/
theorem directory_links_root :
    LeadsBack EpollWeb.site (ascii "/") dirA ∧ LeadsBack LibeventWeb.site (ascii "/") dirA := by
  have h := directory_links_lead_back nestedRoot (ascii "/") dirA
  exact ⟨(h.1 listed_roots.1).1 ⟨.inl rfl, by decide⟩,
    (h.2 listed_roots.2).mpr (by decide +kernel)⟩

/-- The epoll server lists `b` on the page of `a`, and `c` on the page of `b`. -/
theorem listed_nested_epoll :
    Listed EpollWeb.site nestedRoot (ascii "/a/b/") dirC := by
  have hpageA : Listed EpollWeb.site nestedRoot (ascii "/a/") dirB :=
    { reached := reached_only listed_roots.1 rfl rfl (by decide +kernel)
      served := (looks_up_page (by decide) (by decide +kernel) (by decide)).1
      listed := ⟨[dirB], rfl, by simp⟩
      type := .inl rfl
      unreserved := ⟨by decide, by decide +kernel⟩ }
  exact
    { reached := reached_only hpageA rfl rfl (by decide +kernel)
      served := (looks_up_page (by decide) (by decide +kernel) (by decide)).1
      listed := ⟨[dirC], rfl, by simp⟩
      type := .inl rfl
      unreserved := ⟨by decide, by decide +kernel⟩ }

/-- The libevent server lists `b` on the page of `a`. -/
theorem listed_nested_libevent :
    Listed LibeventWeb.site nestedRoot (ascii "//a/") dirB where
  reached := reached_only listed_roots.2 rfl rfl (by decide +kernel)
  served := (looks_up_page (by decide) (by decide +kernel) (by decide)).2
  listed := ⟨[dirB], rfl, by simp⟩
  type := .inl rfl
  unreserved := ⟨by decide, by decide +kernel⟩

/-- The link to `c` on the page `/a/b/` of the epoll server leads to `/a/a/b/c/`, and the link to
`b` on the page `//a/` of the libevent server to `//a//a//b/`. -/
theorem directory_links_astray :
    (¬ ∀ (host : Host) (page : Bytes) (entry : DirEnt), Listed EpollWeb.site host page entry →
        LeadsBack EpollWeb.site page entry) ∧
      ¬ ∀ (host : Host) (page : Bytes) (entry : DirEnt), Listed LibeventWeb.site host page entry →
        LeadsBack LibeventWeb.site page entry := by
  constructor
  · intro h
    have hlisted := listed_nested_epoll
    have hback := (EpollWeb.links_lead_back_iff hlisted.reached hlisted.type hlisted.unreserved
      (by decide)).mp (h _ _ _ hlisted)
    exact absurd hback.1 (by decide +kernel)
  · intro h
    have hlisted := listed_nested_libevent
    have hback := (LibeventWeb.links_lead_back_iff hlisted.reached hlisted.served hlisted.type
      hlisted.unreserved).mp (h _ _ _ hlisted)
    exact absurd hback.1 (by decide +kernel)

end UnixNet
