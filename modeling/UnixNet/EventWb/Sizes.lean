import UnixNet.EventWb.Framing
import UnixNet.Lib.FileTree
import UnixNet.Lib.Numeral
import UnixNet.Listing

/-!
# The sizes on a directory page of the libevent test server

`send_dir` looks up the bare name of each entry, which is in the working directory of the server and
not in the directory that it lists, and ignores it when that fails. So the size in the line of an
entry is its own if the working directory has an entry of this name and size, or none and the size
was left in `sb` (`own_size_printed_iff`). It is right for the entries of the working directory
itself (`working_directory_sized`).
-/

namespace UnixNet.EventWb

open NetLib UnixNet.Bufferevent

variable {ι : Type*}

/-- What the calls return to a server with the working directory `cwd` in a file system. `stat` and
`opendir` may fail, but what they find is there. -/
structure Disk (ι : Type*) where
  env : Env
  tree : FileTree ι UInt8 47
  inode : ι → FileStat
  cwd : ι
  directory_iff : ∀ i, tree.isDirectory i = true ↔ (inode i).kind = .directory
  found : ∀ {path sb}, env.stat path = some sb → ∃ i, tree.resolve cwd path = some i ∧ inode i = sb
  listed : ∀ {path entries}, env.openDir path = some entries →
    ∃ dir, tree.resolve cwd path = some dir ∧
      ∀ dent ∈ entries, ∃ i, tree.entry dir dent.dName = some i

/-- The data of a `bufferevent_write`. -/
def Call.text : Call → Option Bytes
  | .write data _ => some data
  | _ => none

/-- The call is an `opendir`. -/
def Call.opensDir : Call → Bool
  | .openDir _ _ => true
  | _ => false

/-- The lines that are written between `opendir` and `closedir`. -/
def itemLines (calls : List Call) : List Bytes :=
  ((calls.dropWhile fun c => !Call.opensDir c).takeWhile fun c => c ≠ .closeDir).filterMap Call.text

/-- The lines that `send_dir(bev, strPath)` writes for the entries. -/
def dirLines (env : Env) (strPath : Bytes) (p : Progress) : List Bytes :=
  itemLines ((sendDir env strPath p).calls.drop p.calls.length)

/-- The line of a listed entry with a size in it. -/
def itemLine (dent : DirEnt) (size : Int) : Bytes :=
  if dent.dType = dtDir then dirLine dent.dName size else fileLine dent.dName size

/-- The line of the entry `dent`, which comes behind the entries `front`, has this size in it. -/
def Prints (env : Env) (strPath : Bytes) (p : Progress) (front : List DirEnt) (dent : DirEnt)
    (size : Int) : Prop :=
  (dirLines env strPath p)[front.countP fun e => e.Listable]? = some (itemLine dent size)

instance (env : Env) (strPath : Bytes) (p : Progress) (front : List DirEnt) (dent : DirEnt)
    (size : Int) : Decidable (Prints env strPath p front dent size) :=
  inferInstanceAs (Decidable (_ = _))

/-- The name of the entry number `i` leads to this size from the working directory: what has the
name there has the size, or it cannot be looked up and the size is what was left in `sb`. -/
def Disk.Leads (d : Disk ι) (i : Nat) (name : Bytes) (size : Int) : Prop :=
  (∃ other, d.tree.entry d.cwd name = some other ∧ d.env.stat name = some (d.inode other) ∧
    (d.inode other).size = size) ∨ (d.env.stat name = none ∧ d.env.staleSize i = size)

/-! ## A line and the size in it -/

/-- Padding on the left does not hide a text that does not start with a blank. -/
theorem drop_blanks_padLeft (width : Nat) {text : Bytes} (h : text.head? ≠ some 32) :
    (padLeft width text).dropWhile (· = 32) = text := by
  have hpad : ∀ c ∈ List.replicate (width - text.length) (32 : UInt8), decide (c = 32) = true := by
    intro c hc
    rw [decide_eq_true_eq]
    exact List.eq_of_mem_replicate hc
  rw [padLeft, List.dropWhile_append_of_pos hpad]
  cases text with
  | nil => rfl
  | cons c text =>
      refine List.dropWhile_cons_of_neg ?_
      rw [decide_eq_true_eq]
      exact fun heq => h (congrArg some heq)

/-- A numeral does not start with a blank. -/
theorem decimalInt_head (z : Int) : (decimalInt z).head? ≠ some 32 := by
  unfold decimalInt
  split
  · exact fun h => absurd (Option.some.inj h) (by decide)
  · intro h
    have hmem : (32 : UInt8) ∈ decimal z.natAbs := List.mem_of_mem_head? h
    exact absurd (isdigit_of_mem_decimal hmem) (by decide)

/-- A padded numeral shows its number. -/
theorem pad_decimal_inj {z w : Int} (h : padLeft 8 (decimalInt z) = padLeft 8 (decimalInt w)) :
    z = w := by
  have hdrop := congrArg (List.dropWhile (· = 32)) h
  rw [drop_blanks_padLeft 8 (decimalInt_head z), drop_blanks_padLeft 8 (decimalInt_head w)] at hdrop
  exact decimalInt_inj hdrop

/-- Lines of an entry with different sizes are different. -/
theorem item_line_inj {dent : DirEnt} {size other : Int} :
    itemLine dent size = itemLine dent other ↔ size = other := by
  refine ⟨fun h => ?_, fun h => h ▸ rfl⟩
  unfold itemLine at h
  split at h
  · rw [dirLine, dirLine, List.append_left_inj, List.append_right_inj] at h
    exact pad_decimal_inj h
  · rw [fileLine, fileLine, List.append_left_inj, List.append_right_inj] at h
    exact pad_decimal_inj h

/-- The line that `send_dir` writes for an entry. -/
theorem entry_line_eq (env : Env) (i : Nat) (dent : DirEnt) :
    entryLine env i dent =
      if dent.Listable then some (itemLine dent (entrySize env i dent.dName)) else none := by
  unfold entryLine itemLine
  by_cases hdir : dent.dType = dtDir
  · have hlisted : dent.Listable := .inl hdir
    rw [if_pos hdir, if_pos hdir, if_pos hlisted]
  · rw [if_neg hdir, if_neg hdir]
    by_cases hreg : dent.dType = dtReg
    · have hlisted : dent.Listable := .inr hreg
      rw [if_pos hreg, if_pos hlisted]
    · have hother : ¬ dent.Listable := not_or.mpr ⟨hdir, hreg⟩
      rw [if_neg hreg, if_neg hother]

/-! ## The lines of a page -/

variable (env : Env)

/-- The lines of entries, of which the first has the number `i`. -/
def listedLines (i : Nat) (entries : List DirEnt) : List Bytes :=
  (entries.zipIdx i).filterMap fun numbered => entryLine env numbered.2 numbered.1

/-- The line of the first entry, if it has one, and those of the others. -/
theorem listed_lines_cons (i : Nat) (dent : DirEnt) (rest : List DirEnt) :
    listedLines env i (dent :: rest) =
      (entryLine env i dent).toList ++ listedLines env (i + 1) rest := by
  unfold listedLines
  rw [List.zipIdx_cons]
  cases hline : entryLine env i dent with
  | none => exact List.filterMap_cons_none hline
  | some line => exact List.filterMap_cons_some hline

/-- There is one line for each listed entry. -/
theorem length_listed_lines (i : Nat) (entries : List DirEnt) :
    (listedLines env i entries).length = entries.countP fun e => e.Listable := by
  induction entries generalizing i with
  | nil => rfl
  | cons dent rest ih =>
      rw [listed_lines_cons, List.length_append, ih, List.countP_cons, entry_line_eq, Nat.add_comm]
      by_cases hlisted : dent.Listable
      · rw [if_pos hlisted, if_pos (decide_eq_true hlisted)]
        rfl
      · rw [if_neg hlisted, if_neg (by simpa using hlisted)]
        rfl

/-- The line of an entry is found by counting the listed entries before it. -/
theorem listed_lines_getElem? (front rest : List DirEnt) {dent : DirEnt} (hlisted : dent.Listable) :
    (listedLines env 0 (front ++ dent :: rest))[front.countP fun e => e.Listable]? =
      some (itemLine dent (entrySize env front.length dent.dName)) := by
  have hsplit : listedLines env 0 (front ++ dent :: rest) =
      listedLines env 0 front ++ listedLines env front.length (dent :: rest) := by
    unfold listedLines
    rw [List.zipIdx_append, List.filterMap_append, Nat.zero_add]
  rw [hsplit, ← length_listed_lines env 0 front, List.getElem?_append_right (Nat.le_refl _),
    Nat.sub_self, listed_lines_cons, entry_line_eq, if_pos hlisted]
  rfl

/-- The loop over the entries writes their lines, and does not close the directory. -/
theorem send_entries_lines (i : Nat) (entries : List DirEnt) (p : Progress) :
    ∃ made, (sendEntries env i entries p).calls = p.calls ++ made ∧ .closeDir ∉ made ∧
      made.filterMap Call.text = listedLines env i entries := by
  induction entries generalizing i p with
  | nil => exact ⟨[], (List.append_nil _).symm, List.not_mem_nil, rfl⟩
  | cons dent rest ih =>
      rw [sendEntries, listed_lines_cons]
      cases entryLine env i dent with
      | none =>
          obtain ⟨made, hcalls, hopen, htexts⟩ := ih (i + 1) (p.call (.stat dent.dName))
          refine ⟨.stat dent.dName :: made, ?_, by simpa using hopen, htexts⟩
          show (sendEntries env (i + 1) rest (p.call _)).calls = _
          rw [hcalls]
          exact List.append_assoc p.calls [_] made
      | some line =>
          obtain ⟨made, hcalls, hopen, htexts⟩ :=
            ih (i + 1) ((p.call (.stat dent.dName)).write env.toEnv line line.length).2
          have hdata : line.take (line.length : Int).toNat = line := by
            rw [Int.toNat_natCast, List.take_length]
          refine ⟨.stat dent.dName :: .write line (env.write p.writes) :: made, ?_,
            by simpa using hopen, congrArg (line :: ·) htexts⟩
          show (sendEntries env (i + 1) rest _).calls = _
          rw [hcalls]
          show p.calls ++ [_] ++ [.write (line.take (line.length : Int).toNat) _] ++ made = _
          rw [hdata, List.append_assoc, List.append_assoc]
          rfl

/-- The lines of a page. -/
theorem dir_lines_eq {strPath : Bytes} {entries : List DirEnt} (p : Progress)
    (hopen : env.openDir strPath = some entries) :
    dirLines env strPath p = listedLines env 0 entries := by
  obtain ⟨front, hfront, hfile⟩ : Makes OnFile p (copyFile env dirPrefixFile p) :=
    copy_file_makes dirPrefixFile p
  obtain ⟨made, hmade, hnot, htexts⟩ := send_entries_lines env 0 entries
    ((copyFile env dirPrefixFile p).call (.openDir strPath true))
  obtain ⟨tail, htail, -⟩ : Makes OnFile _ (copyFile env dirTailFile
      ((sendEntries env 0 entries
        ((copyFile env dirPrefixFile p).call (.openDir strPath true))).call .closeDir)) :=
    copy_file_makes dirTailFile _
  have hcalls : (sendDir env strPath p).calls =
      p.calls ++ (front ++ .openDir strPath true :: (made ++ .closeDir :: tail)) := by
    simp only [sendDir, hopen]
    rw [htail]
    show (sendEntries env 0 entries _).calls ++ [.closeDir] ++ tail = _
    rw [hmade]
    show (copyFile env dirPrefixFile p).calls ++ [_] ++ made ++ [.closeDir] ++ tail = _
    rw [hfront]
    simp
  have hopened : ∀ c ∈ front, (!Call.opensDir c) = true := by
    intro c hc
    have hc := hfile c hc
    cases c with
    | openDir => exact hc.elim
    | _ => rfl
  have hinside : ∀ c ∈ made, decide (c ≠ .closeDir) = true := by
    intro c hc
    rw [decide_eq_true_eq]
    exact fun heq => hnot (heq ▸ hc)
  rw [dirLines, hcalls, List.drop_left, itemLines, List.dropWhile_append_of_pos hopened,
    List.dropWhile_cons_of_neg (by simp [Call.opensDir]), List.takeWhile_cons_of_pos (by simp),
    List.takeWhile_append_of_pos hinside, List.takeWhile_cons_of_neg (by simp), List.append_nil,
    List.filterMap_cons_none rfl, htexts]

/-! ## Whose size is printed -/

variable {env}

/-- What `sb` holds after the lookup of a name. -/
theorem entry_size_eq_iff (d : Disk ι) (i : Nat) {name : Bytes} (hname : name ≠ [])
    (hslash : 47 ∉ name) (size : Int) :
    entrySize d.env i name = size ↔ d.Leads i name size := by
  unfold entrySize Disk.Leads
  cases hstat : d.env.stat name with
  | none => simp
  | some sb =>
      obtain ⟨other, hresolve, hinode⟩ := d.found hstat
      rw [FileTree.resolve_name hname hslash] at hresolve
      constructor
      · intro hsize
        exact .inl ⟨other, hresolve, by rw [hinode], by rw [hinode]; exact hsize⟩
      · intro hleads
        obtain ⟨found, -, hsb, hsize⟩ | ⟨hnone, -⟩ := hleads
        · rw [← hsize, ← Option.some.inj hsb]
        · cases hnone

/-- An entry of a directory that was opened is in the file system, under a path that ends with its
name, and its name is one segment. -/
theorem Disk.listed_resolve (d : Disk ι) {strPath : Bytes} {entries : List DirEnt} {dent : DirEnt}
    (hopen : d.env.openDir strPath = some entries) (hmem : dent ∈ entries) :
    ∃ dir own, d.tree.resolve d.cwd strPath = some dir ∧ d.tree.entry dir dent.dName = some own ∧
      d.tree.resolve d.cwd (strPath ++ 47 :: dent.dName) = some own ∧
      dent.dName ≠ [] ∧ 47 ∉ dent.dName := by
  obtain ⟨dir, hdir, hentries⟩ := d.listed hopen
  obtain ⟨own, hown⟩ := hentries dent hmem
  obtain ⟨hname, hslash⟩ := d.tree.segment_of_entry hown
  refine ⟨dir, own, hdir, hown, ?_, hname, hslash⟩
  rw [FileTree.resolve_join (FileTree.ne_nil_of_resolve hdir) hname hslash, hdir]
  exact hown

/-- An entry is printed with the size that its bare name leads to. For every file system, every
directory that can be opened, and every directory or regular file among its entries: the line that
`send_dir` writes for the entry has the size of `strPath/dent` in it if and only if either the
working directory of the server has an entry of the same name and that has the same size, or `stat`
of the name fails and the size was left in `sb`. -/
theorem own_size_printed_iff (d : Disk ι) (p : Progress) {strPath : Bytes}
    {front rest : List DirEnt} {dent : DirEnt}
    (hopen : d.env.openDir strPath = some (front ++ dent :: rest)) (hlisted : dent.Listable) :
    ∃ own, d.tree.resolve d.cwd (strPath ++ 47 :: dent.dName) = some own ∧
      (Prints d.env strPath p front dent (d.inode own).size ↔
        d.Leads front.length dent.dName (d.inode own).size) := by
  obtain ⟨-, own, -, -, hown, hname, hslash⟩ := d.listed_resolve hopen (by simp : dent ∈ _)
  refine ⟨own, hown, ?_⟩
  rw [Prints, dir_lines_eq d.env p hopen, listed_lines_getElem? d.env front rest hlisted,
    Option.some.injEq, item_line_inj, entry_size_eq_iff d front.length hname hslash]

/-- In the working directory itself, an entry that can be looked up is printed with its own size. -/
theorem working_directory_sized (d : Disk ι) (p : Progress) {strPath : Bytes}
    {front rest : List DirEnt} {dent : DirEnt}
    (hopen : d.env.openDir strPath = some (front ++ dent :: rest)) (hlisted : dent.Listable)
    (hcwd : d.tree.resolve d.cwd strPath = some d.cwd) (hstat : d.env.stat dent.dName ≠ none) :
    ∃ own, d.tree.resolve d.cwd (strPath ++ 47 :: dent.dName) = some own ∧
      Prints d.env strPath p front dent (d.inode own).size := by
  obtain ⟨dir, own, hdir, hentry, hown, hname, hslash⟩ :=
    d.listed_resolve hopen (by simp : dent ∈ _)
  obtain rfl := Option.some.inj (hcwd.symm.trans hdir)
  obtain ⟨sb, hsb⟩ := Option.ne_none_iff_exists'.mp hstat
  obtain ⟨other, hother, rfl⟩ := d.found hsb
  rw [FileTree.resolve_name hname hslash, hentry] at hother
  obtain rfl := Option.some.inj hother
  have hsize := (entry_size_eq_iff d front.length hname hslash (d.inode own).size).mpr
    (.inl ⟨own, hentry, hsb, rfl⟩)
  refine ⟨own, hown, ?_⟩
  rw [Prints, dir_lines_eq d.env p hopen, listed_lines_getElem? d.env front rest hlisted, hsize]

/-- The places of a document root with a directory `docs`, where each of the two directories has a
file `notes`. -/
inductive Place where
  | root
  | docs
  | rootFile
  | docsFile
  deriving DecidableEq

/-- The names in these directories. -/
def places : Place → List (Bytes × Place)
  | .root =>
      [(ascii ".", .root), (ascii "..", .root), (ascii "notes", .rootFile), (ascii "docs", .docs)]
  | .docs => [(ascii ".", .docs), (ascii "..", .root), (ascii "notes", .docsFile)]
  | _ => []

/-- The entry of the directory itself. -/
def dotEntry : DirEnt :=
  ⟨ascii ".", dtDir, by decide, by decide⟩

/-- The entry of the directory above. -/
def dotDotEntry : DirEnt :=
  ⟨ascii "..", dtDir, by decide, by decide⟩

/-- The entry of the file `notes`. -/
def fileEntry : DirEnt :=
  ⟨ascii "notes", dtReg, by decide, by decide⟩

/-- The entry of the directory `docs`. -/
def docsEntry : DirEnt :=
  ⟨ascii "docs", dtDir, by decide, by decide⟩

/-- What `readdir` returns in these directories. -/
def placeEntries : Place → List DirEnt
  | .root => [dotEntry, dotDotEntry] ++ fileEntry :: [docsEntry]
  | .docs => [dotEntry, dotDotEntry] ++ fileEntry :: []
  | _ => []

/-- Looking up a name in these directories. -/
theorem mem_places {dir i : Place} {name : Bytes} (h : (places dir).lookup name = some i) :
    (name, i) ∈ places dir := by
  obtain ⟨front, back, hsplit, -⟩ := List.lookup_eq_some_iff.mp h
  rw [hsplit]
  simp

/-- The two directories. -/
def placeTree : FileTree Place UInt8 47 where
  isDirectory i := !(places i).isEmpty
  entry dir name := (places dir).lookup name
  root := .root
  directory_of_entry h := by
    simpa using List.ne_nil_of_mem (mem_places h)
  segment_of_entry {dir name i} h := by
    have hnames : ∀ e ∈ places dir, e.1 ≠ [] ∧ 47 ∉ e.1 := by
      cases dir <;> decide
    exact hnames _ (mem_places h)

/-- The files `notes` have 9 bytes in the document root and 7 in `docs`. -/
def placeStat : Place → FileStat
  | .rootFile => ⟨.regular, 9⟩
  | .docsFile => ⟨.regular, 7⟩
  | _ => ⟨.directory, 4096⟩

/-- A server with this document root. -/
def placeDisk : Disk Place where
  env :=
    { stat path := (placeTree.resolve .root path).map placeStat
      openFile _ := none
      scandir _ := none
      write _ := true
      openDir path := (placeTree.resolve .root path).bind fun dir =>
        if placeTree.isDirectory dir then some (placeEntries dir) else none
      staleSize _ := 0 }
  tree := placeTree
  inode := placeStat
  cwd := .root
  directory_iff i := by
    cases i <;> decide
  found h := Option.map_eq_some_iff.mp h
  listed h := by
    obtain ⟨dir, hdir, hopen⟩ := Option.bind_eq_some_iff.mp h
    have hentries : ∀ dent ∈ placeEntries dir, (placeTree.entry dir dent.dName).isSome = true := by
      cases dir <;> decide
    split at hopen
    · obtain rfl := Option.some.inj hopen
      exact ⟨dir, hdir, fun dent hdent => Option.isSome_iff_exists.mp (hentries dent hdent)⟩
    · cases hopen

/-- Opening the two directories. -/
theorem place_disk_open {path : Bytes} {dir : Place}
    (h : placeTree.resolve .root path = some dir) (hdir : placeTree.isDirectory dir = true) :
    placeDisk.env.openDir path = some (placeEntries dir) := by
  show (placeTree.resolve .root path).bind _ = _
  rw [h]
  exact if_pos hdir

/-- The page of the document root gives the file `notes` its own size. -/
theorem own_size_printed_root :
    Prints placeDisk.env (ascii "./") .start [dotEntry, dotDotEntry] fileEntry 9 := by
  have hopen : placeDisk.env.openDir (ascii "./") = some (placeEntries .root) :=
    place_disk_open (by decide) rfl
  have hlisted : fileEntry.Listable := by decide
  have hplace : placeDisk.tree.resolve placeDisk.cwd (ascii ".//notes") = some .rootFile := by
    decide
  obtain ⟨own, hown, hiff⟩ := own_size_printed_iff placeDisk .start hopen hlisted
  obtain rfl := Option.some.inj (hplace.symm.trans hown)
  exact hiff.mpr (.inl ⟨.rootFile, by decide, by decide, rfl⟩)

/-- The page of `docs` gives its file `notes` the size of the other one. -/
theorem own_size_not_printed :
    ¬ ∀ (d : Disk Place) (p : Progress) (strPath : Bytes) (front rest : List DirEnt)
      (dent : DirEnt), d.env.openDir strPath = some (front ++ dent :: rest) → dent.Listable →
      ∀ own, d.tree.resolve d.cwd (strPath ++ 47 :: dent.dName) = some own →
        Prints d.env strPath p front dent (d.inode own).size := by
  intro h
  have hopen : placeDisk.env.openDir (ascii "docs") = some (placeEntries .docs) :=
    place_disk_open (by decide) rfl
  have hprints := h placeDisk .start (ascii "docs") _ _ fileEntry hopen (by decide)
    .docsFile (by decide)
  exact absurd hprints (by decide)

end UnixNet.EventWb
