import UnixNet.LibeventWeb.Framing
import UnixNet.ScannedLine

/-!
# Requests that arrive in pieces at the libevent servers

`read_cb` scans what has arrived, up to 256 bytes, and keeps nothing of it for the next callback. So
a server answers a GET request as far as its first piece holds it: a shorter first piece is dropped,
or the path ends where it ends. What follows is scanned as if it were a request of its own, and
passes for one when the word GET happens to stand where a scan begins. `passes_same_path_iff` says
for which two ways of cutting a request the same path is passed on.
-/

namespace UnixNet

open NetLib

/-- The first piece of a request has the method and so much of the path, and the scan stays in its
arrays: the piece does not fill `buf`, or the whole request line fits it. -/
structure Opens (least : Nat) (r : GetRequest) (path piece : Bytes) : Prop where
  long : least ≤ piece.length
  fits : piece.length < 256 ∨ r.path.length + 13 < 256
  path_eq : path = r.path.take (piece.length - 4)

/-- The first piece of a request that arrives. -/
theorem Cutting.first {ε : Type} {r : GetRequest} (c : Cutting ε r.bytes) :
    ∃ piece rest, c.arrivals = piece :: rest ∧ piece.2 <+: r.bytes ∧ piece.2 ≠ [] := by
  cases harrivals : c.arrivals with
  | nil =>
      have := c.whole
      rw [harrivals] at this
      cases this
  | cons piece rest =>
      have hmem : piece ∈ c.arrivals := harrivals ▸ List.mem_cons_self
      refine ⟨piece, rest, rfl, ⟨rest.flatMap Prod.snd, ?_⟩, c.nonempty piece hmem⟩
      rw [← c.whole, harrivals, List.flatMap_cons]

/-- What the scan makes of the first piece of a request: a part of the method, the method, or the
method and the path as far as that is there. It has no result when the piece fills `buf` and the
request line does not fit it. -/
theorem scan_first {r : GetRequest} {piece : Bytes} (h : piece <+: r.bytes) (hne : piece ≠ []) :
    piece.length < 3 ∧ scanRequest (readBuf piece) = some ⟨some piece, none, none⟩ ∨
      (piece.length = 3 ∨ piece.length = 4) ∧
        scanRequest (readBuf piece) = some ⟨some (ascii "GET"), none, none⟩ ∨
      5 ≤ piece.length ∧ (piece.length < 256 ∨ r.path.length + 13 < 256) ∧
        (∃ protocol, scanRequest (readBuf piece) =
          some ⟨some (ascii "GET"), some (r.path.take (piece.length - 4)), protocol⟩) ∨
      ¬ (piece.length < 256 ∨ r.path.length + 13 < 256) ∧ scanRequest (readBuf piece) = none := by
  by_cases hfits : piece.length < 256 ∨ r.path.length + 13 < 256
  · obtain ⟨protocol, hscan⟩ := scan_get_request r h hne hfits
    rcases Nat.lt_or_ge 4 piece.length with hlong | hshort
    · rw [if_neg (by omega)] at hscan
      exact .inr (.inr (.inl ⟨hlong, hfits, protocol, hscan⟩))
    · rw [if_pos hshort] at hscan
      rcases Nat.lt_or_ge piece.length 3 with hless | hmethod
      · rw [List.take_of_length_le hless.le] at hscan
        exact .inl ⟨hless, hscan⟩
      · have hget : piece.take 3 = ascii "GET" := by
          rw [List.prefix_iff_eq_take.mp h, List.take_take, Nat.min_eq_left hmethod]
          rfl
        rw [hget] at hscan
        exact .inr (.inl ⟨by omega, hscan⟩)
  · exact .inr (.inr (.inr ⟨hfits, scan_get_request_overrun r h (by omega) (by omega)⟩))

/-- A part of the method is not the method. -/
theorem some_ne_get {piece : Bytes} (h : piece.length < 3) : some piece ≠ some (ascii "GET") := by
  intro hget
  rw [Option.some.inj hget] at h
  exact absurd h (by decide)

namespace LibeventWeb

/-- Of all read callbacks, one passes a path to `processingRequests`, and it is this path. -/
def PassesOnce (arrivals : List (Bufferevent.Env × Bytes)) (path : Bytes) : Prop :=
  let conn := run (arrivals.map fun arrival => .read arrival.1 arrival.2)
  conn.status ≠ .undefined ∧ conn.passed = [path]

/-- The first word of a piece is not GET, and its words fit the arrays. -/
def OtherWord (piece : Bytes) : Prop :=
  Contained (readBuf piece) ∧ firstWord (readBuf piece) ≠ ascii "GET"

/-- The first word of a piece is GET, the second one is the path, and the words fit the arrays. -/
def GetWord (path piece : Bytes) : Prop :=
  Contained (readBuf piece) ∧ firstWord (readBuf piece) = ascii "GET" ∧
    secondWord (readBuf piece) = path

/-- The words with which the pieces of a request have to begin. The first piece is at least the
method, it has the path as far as it goes, and the others do not begin with GET unless the
connection has been freed. Or the first piece is less than the method, and by chance the request is
cut in front of another word GET, with the path behind it, and in front of no other one before the
connection is freed. -/
def GoodCuts (r : GetRequest) (path : Bytes) (arrivals : List (Bufferevent.Env × Bytes)) : Prop :=
  ∃ piece rest, arrivals = piece :: rest ∧
    (Opens 3 r path piece.2 ∧ (frees piece.1 path = true ∨ ∀ a ∈ rest, OtherWord a.2) ∨
      piece.2.length < 3 ∧ ∃ before other after, rest = before ++ other :: after ∧
        (∀ a ∈ before, OtherWord a.2) ∧ GetWord path other.2 ∧
        (frees other.1 path = true ∨ ∀ a ∈ after, OtherWord a.2))

/-- What the scan assigns for a piece with another first word. -/
theorem other_word_iff {piece : Bytes} :
    OtherWord piece ↔
      ∃ scanned, scanRequest (readBuf piece) = some scanned ∧
        scanned.method ≠ some (ascii "GET") := by
  rw [OtherWord, contained_iff, ← exists_and_right]
  refine exists_congr fun scanned => and_congr_right fun hscan => ?_
  rw [(scan_words hscan).1]
  by_cases hword : firstWord (readBuf piece) = []
  · rw [if_pos hword, hword]
    exact iff_of_true (by decide) (by decide)
  · rw [if_neg hword, ne_eq, ne_eq, Option.some.injEq]

/-- What the scan assigns for a piece with the first word GET. -/
theorem get_word_iff {path piece : Bytes} :
    GetWord path piece ↔
      ∃ scanned, scanRequest (readBuf piece) = some scanned ∧
        scanned.method = some (ascii "GET") ∧ scanned.path.getD [] = path := by
  rw [GetWord, contained_iff, ← exists_and_right]
  refine exists_congr fun scanned => and_congr_right fun hscan => ?_
  obtain ⟨hmethod, hpath⟩ := scan_words hscan
  by_cases hword : firstWord (readBuf piece) = []
  · rw [hmethod, if_pos hword, hword]
    exact iff_of_false (fun h => absurd h.1 (by decide)) fun h => nomatch h.1
  · have hsecond : scanned.path.getD [] = secondWord (readBuf piece) := by
      rw [hpath hword]
      by_cases hnil : secondWord (readBuf piece) = []
      · rw [if_pos hnil, hnil]
        rfl
      · rw [if_neg hnil, Option.getD_some]
    rw [hmethod, if_neg hword, Option.some.injEq, hsecond]

/-- `read_cb` passes nothing on. -/
theorem request_path_none_iff {piece : Bytes} :
    requestPath piece = some none ↔ OtherWord piece := by
  have hget : ascii "GET" ≠ [] := by decide
  rw [requestPath, other_word_iff]
  cases scanRequest (readBuf piece) with
  | none => simp
  | some scanned =>
      cases hmethod : scanned.method with
      | none => simp [hmethod, hget.symm]
      | some method => simp [hmethod]

/-- `read_cb` passes a path on. -/
theorem request_path_some_iff {path piece : Bytes} :
    requestPath piece = some (some path) ↔ GetWord path piece := by
  have hget : ascii "GET" ≠ [] := by decide
  rw [requestPath, get_word_iff]
  cases scanRequest (readBuf piece) with
  | none => simp
  | some scanned =>
      cases hmethod : scanned.method with
      | none => simp [hmethod, hget.symm]
      | some method => simp [hmethod]

/-- The pieces that pass nothing on. -/
theorem quiet_iff {arrivals : List (Bufferevent.Env × Bytes)} :
    intake.Quiet [] arrivals ↔ ∀ a ∈ arrivals, OtherWord a.2 := by
  rw [Intake.quiet_of_forgets fun _ => rfl]
  exact forall₂_congr fun a _ => request_path_none_iff

/-- The pieces that pass one path on. -/
theorem once_iff {arrivals : List (Bufferevent.Env × Bytes)} {path : Bytes} :
    intake.Once path [] arrivals ↔
      ∃ before piece after, arrivals = before ++ piece :: after ∧
        (∀ a ∈ before, OtherWord a.2) ∧ GetWord path piece.2 ∧
        (frees piece.1 path = true ∨ ∀ a ∈ after, OtherWord a.2) := by
  have hleft : ∀ before, intake.left [] before = [] := Intake.left_of_forgets fun _ => rfl
  have hget : ∀ piece : Bytes, intake.parse piece = some (some path) ↔ GetWord path piece :=
    fun _ => request_path_some_iff
  simp only [Intake.Once, hleft, quiet_iff, List.nil_append, hget]
  rfl

/-- A run of read callbacks passes a path on once exactly when `intake` takes one path. -/
theorem passes_once_iff {arrivals : List (Bufferevent.Env × Bytes)} {path : Bytes} :
    PassesOnce arrivals path ↔ intake.Once path [] arrivals := by
  rw [← Intake.run_once_iff, PassesOnce, run, ne_eq, ← Connection.to_intake_failed_iff,
    ← Connection.to_intake_taken, run_reads]
  rfl

variable {r : GetRequest} {piece : Bytes}

/-- The first piece has another first word exactly when it is less than the method. -/
theorem other_word_first_iff (h : piece <+: r.bytes) (hne : piece ≠ []) :
    OtherWord piece ↔ piece.length < 3 := by
  rw [other_word_iff]
  rcases scan_first h hne with ⟨hless, hscan⟩ | ⟨hlength, hscan⟩ | ⟨hlong, -, protocol, hscan⟩ |
    ⟨hfits, hscan⟩
  · have hpart := some_ne_get hless
    simp [hscan, hless, hpart]
  · have hlong : ¬ piece.length < 3 := by omega
    simp [hscan, hlong]
  · have hlong : ¬ piece.length < 3 := by omega
    simp [hscan, hlong]
  · have hlong : ¬ piece.length < 3 := by omega
    simp [hscan, hlong]

/-- The first piece passes the path on as far as it has that. -/
theorem get_word_first_iff {path : Bytes} (h : piece <+: r.bytes) (hne : piece ≠ []) :
    GetWord path piece ↔ Opens 3 r path piece := by
  rw [get_word_iff]
  rcases scan_first h hne with ⟨hless, hscan⟩ | ⟨hlength, hscan⟩ |
    ⟨hlong, hfits, protocol, hscan⟩ | ⟨hfits, hscan⟩
  · refine iff_of_false ?_ fun hopens => absurd hopens.long (by omega)
    have hpart := some_ne_get hless
    simp [hscan, hpart]
  · -- the path is still empty
    have hempty : r.path.take (piece.length - 4) = [] := by
      rw [Nat.sub_eq_zero_of_le (by omega), List.take_zero]
    simp only [hscan, Option.some.injEq, exists_eq_left', true_and, Option.getD_none]
    rw [← hempty, eq_comm]
    exact ⟨fun heq => ⟨by omega, .inl (by omega), heq⟩, fun hopens => hopens.path_eq⟩
  · simp only [hscan, Option.some.injEq, exists_eq_left', true_and, Option.getD_some]
    rw [eq_comm]
    exact ⟨fun heq => ⟨by omega, hfits, heq⟩, fun hopens => hopens.path_eq⟩
  · refine iff_of_false ?_ fun hopens => hfits hopens.fits
    simp [hscan]

/-- When a path of a request is passed on once. -/
theorem passes_iff_good_cuts (c : Cutting Bufferevent.Env r.bytes) (path : Bytes) :
    PassesOnce c.arrivals path ↔ GoodCuts r path c.arrivals := by
  obtain ⟨piece, rest, harrivals, hprefix, hne⟩ := c.first
  have hcons : intake.Once path [] (piece :: rest) ↔
      GetWord path piece.2 ∧ (frees piece.1 path = true ∨ ∀ a ∈ rest, OtherWord a.2) ∨
        OtherWord piece.2 ∧ intake.Once path [] rest := by
    rw [Intake.once_cons, quiet_iff, ← request_path_some_iff, ← request_path_none_iff]
    rfl
  rw [passes_once_iff, harrivals, hcons, get_word_first_iff hprefix hne,
    other_word_first_iff hprefix hne, once_iff]
  constructor
  · intro h
    exact ⟨piece, rest, rfl, h⟩
  · rintro ⟨first, others, heq, h⟩
    obtain ⟨rfl, rfl⟩ := List.cons.inj heq
    exact h

end LibeventWeb

namespace EventWb

/-- Of all read callbacks, one passes a path to `http_request`, and it is this path. -/
def PassesOnce (arrivals : List (Env × Bytes)) (path : Bytes) : Prop :=
  let conn := run (arrivals.map fun arrival => .read arrival.1 arrival.2)
  conn.status ≠ .undefined ∧ conn.passed = [path]

/-- The first word of what is read is there and is not GET, whatever the case, and the words fit the
arrays. -/
def OtherWord (read : Bytes) : Prop :=
  Contained (readBuf read) ∧ firstWord (readBuf read) ≠ [] ∧
    strcasecmp (firstWord (readBuf read)) (ascii "get") = false

/-- The first word of what is read is GET, the second one is there and is the path, and the words
fit the arrays. -/
def GetWord (path read : Bytes) : Prop :=
  Contained (readBuf read) ∧ strcasecmp (firstWord (readBuf read)) (ascii "get") = true ∧
    path ≠ [] ∧ secondWord (readBuf read) = path

/-- What reads of 256 bytes find in the input buffer, one read for each arrival. -/
def reads (arrivals : List (Env × Bytes)) : List Bytes :=
  Intake.queueReads 256 [] (arrivals.map Prod.snd)

/-- The words with which the reads have to begin. The first piece is the method and at least one
byte of the path, and the reads behind it do not begin with GET. Or the first piece is less than the
method, and by chance one of the reads behind it begins with another word GET, with the path behind
it, and no other one does. The input buffer is empty behind a read that begins with GET. -/
def GoodCuts (r : GetRequest) (path : Bytes) (arrivals : List (Env × Bytes)) : Prop :=
  ∃ piece rest, arrivals = piece :: rest ∧
    (Opens 5 r path piece.2 ∧ (∀ read ∈ reads rest, OtherWord read) ∨
      piece.2.length < 3 ∧ ∃ before after others read, rest = before ++ after ∧
        reads before = others ++ [read] ∧ (∀ other ∈ others, OtherWord other) ∧
        GetWord path read ∧ ∀ other ∈ reads after, OtherWord other)

/-- What the scan assigns for a read with another first word. -/
theorem other_word_iff {read : Bytes} :
    OtherWord read ↔
      ∃ scanned method, scanRequest (readBuf read) = some scanned ∧
        scanned.method = some method ∧ strcasecmp method (ascii "get") = false := by
  rw [OtherWord, contained_iff, ← exists_and_right]
  refine exists_congr fun scanned => ?_
  constructor
  · intro ⟨hscan, hword, hother⟩
    exact ⟨_, hscan, (scan_words hscan).1.trans (if_neg hword), hother⟩
  · intro ⟨method, hscan, hmethod, hother⟩
    rw [(scan_words hscan).1] at hmethod
    obtain ⟨hword, rfl⟩ := Option.ite_none_left_eq_some.mp hmethod |>.imp_right Option.some.inj
    exact ⟨hscan, hword, hother⟩

/-- What the scan assigns for a read with the first word GET. -/
theorem get_word_iff {path read : Bytes} :
    GetWord path read ↔
      ∃ scanned method, scanRequest (readBuf read) = some scanned ∧
        scanned.method = some method ∧ strcasecmp method (ascii "get") = true ∧
        scanned.path = some path := by
  have hnil : strcasecmp [] (ascii "get") = false := by decide
  rw [GetWord, contained_iff, ← exists_and_right]
  refine exists_congr fun scanned => ?_
  constructor
  · intro ⟨hscan, hget, hpath, hsecond⟩
    obtain ⟨hmethod, hassigned⟩ := scan_words hscan
    have hword : firstWord (readBuf read) ≠ [] := by
      intro hempty
      rw [hempty, hnil] at hget
      cases hget
    rw [← hsecond] at hpath
    exact ⟨_, hscan, hmethod.trans (if_neg hword), hget,
      ((hassigned hword).trans (if_neg hpath)).trans (congrArg some hsecond)⟩
  · intro ⟨method, hscan, hmethod, hget, hpath⟩
    obtain ⟨hfirst, hassigned⟩ := scan_words hscan
    rw [hfirst] at hmethod
    obtain ⟨hword, rfl⟩ := Option.ite_none_left_eq_some.mp hmethod |>.imp_right Option.some.inj
    rw [hassigned hword] at hpath
    obtain ⟨hne, rfl⟩ := Option.ite_none_left_eq_some.mp hpath |>.imp_right Option.some.inj
    exact ⟨hscan, hget, hne, rfl⟩

/-- The method of the request is the one that is compared with. -/
theorem strcasecmp_get : strcasecmp (ascii "GET") (ascii "get") = true := by
  decide

/-- A part of the method is another method. -/
theorem strcasecmp_short {piece : Bytes} (h : piece.length < 3) :
    strcasecmp piece (ascii "get") = false := by
  rw [strcasecmp, decide_eq_false_iff_not]
  intro hget
  have hlength := congrArg List.length hget
  rw [List.length_map] at hlength
  exact absurd (hlength ▸ h) (by decide)

/-- `read_cb` passes nothing on. -/
theorem request_path_none_iff {input : Bytes} (hne : input ≠ []) :
    requestPath input = some none ↔ OtherWord input := by
  rw [requestPath, if_neg hne, other_word_iff]
  cases scanRequest (readBuf input) with
  | none => simp
  | some scanned =>
      cases hmethod : scanned.method with
      | none => simp [hmethod]
      | some method => cases hget : strcasecmp method (ascii "get") <;> simp [hmethod, hget]

/-- `read_cb` passes a path on. -/
theorem request_path_some_iff {path input : Bytes} (hne : input ≠ []) :
    requestPath input = some (some path) ↔ GetWord path input := by
  rw [requestPath, if_neg hne, get_word_iff]
  cases scanRequest (readBuf input) with
  | none => simp
  | some scanned =>
      cases hmethod : scanned.method with
      | none => simp [hmethod]
      | some method => cases hget : strcasecmp method (ascii "get") <;> simp [hmethod, hget]

/-- Only the first 256 bytes of the input buffer are read. -/
theorem read_buf_take (input : Bytes) : readBuf (input.take 256) = readBuf input := by
  rw [readBuf, readBuf, List.take_take, Nat.min_self]

/-- The reads that pass nothing on. -/
theorem quiet_iff {arrivals : List (Env × Bytes)} {kept : Bytes}
    (hne : ∀ a ∈ arrivals, a.2 ≠ []) :
    intake.Quiet kept arrivals ↔
      ∀ read ∈ Intake.queueReads 256 kept (arrivals.map Prod.snd), OtherWord read := by
  have hreads : (intake.inputs kept arrivals).map (List.take 256) =
      Intake.queueReads 256 kept (arrivals.map Prod.snd) :=
    Intake.inputs_take (fun _ => rfl) arrivals
  rw [← hreads, List.forall_mem_map]
  refine forall₂_congr fun input hmem => ?_
  rw [OtherWord, read_buf_take]
  exact request_path_none_iff (Intake.ne_nil_of_mem_inputs hne hmem)

/-- The reads that pass one path on. -/
theorem once_iff {arrivals : List (Env × Bytes)} {path : Bytes} (hne : ∀ a ∈ arrivals, a.2 ≠ []) :
    intake.Once path [] arrivals ↔
      ∃ before after others read, arrivals = before ++ after ∧
        reads before = others ++ [read] ∧ (∀ other ∈ others, OtherWord other) ∧
        GetWord path read ∧ ∀ other ∈ reads after, OtherWord other := by
  have hget : ∀ {kept : Bytes} {piece : Env × Bytes}, piece ∈ arrivals →
      (requestPath (kept ++ piece.2) = some (some path) ↔
        GetWord path ((kept ++ piece.2).take 256)) := by
    intro kept piece hmem
    rw [GetWord, read_buf_take]
    exact request_path_some_iff (List.append_ne_nil_of_right_ne_nil _ (hne piece hmem))
  have hstops : ∀ env path, intake.stops env path = false := fun _ _ => rfl
  constructor
  · rintro ⟨before, piece, after, rfl, hbefore, hpiece, hafter⟩
    have hquiet := hafter.resolve_left (by simp [hstops])
    refine ⟨before ++ [piece], after, _, _, by simp, ?_,
      (quiet_iff fun a ha => hne a (List.mem_append_left _ ha)).mp hbefore,
      (hget (by simp)).mp hpiece, (quiet_iff fun a ha => hne a (by simp [ha])).mp hquiet⟩
    rw [reads, List.map_append, List.map_singleton]
    exact Intake.queue_reads_concat (fun _ => rfl) before piece.2
  · rintro ⟨first, after, others, read, rfl, hreads, hothers, hread, hafter⟩
    -- the last of the first arrivals is the one with the read that begins with GET
    rcases List.eq_nil_or_concat first with rfl | ⟨before, piece, rfl⟩
    · exact absurd hreads (by simp [reads, Intake.queueReads])
    rw [List.concat_eq_append] at hne hreads hget ⊢
    rw [reads, List.map_append, List.map_singleton,
      Intake.queue_reads_concat (m := intake) (fun _ => rfl)] at hreads
    obtain ⟨hinit, hlast⟩ := List.append_inj' hreads rfl
    obtain rfl := List.singleton_inj.mp hlast
    refine ⟨before, piece, after, by simp, (quiet_iff fun a ha => hne a (by simp [ha])).mpr ?_,
      (hget (by simp)).mpr hread, .inr ((quiet_iff fun a ha => hne a (by simp [ha])).mpr hafter)⟩
    rw [hinit]
    exact hothers

/-- A run of read callbacks passes a path on once exactly when `intake` takes one path. -/
theorem passes_once_iff {arrivals : List (Env × Bytes)} {path : Bytes} :
    PassesOnce arrivals path ↔ intake.Once path [] arrivals := by
  rw [← Intake.run_once_iff, PassesOnce, run, ne_eq, ← Connection.to_intake_failed_iff,
    ← Connection.to_intake_taken, run_reads]
  rfl

variable {r : GetRequest} {piece : Bytes}

/-- The first piece has another first word exactly when it is less than the method. -/
theorem other_word_first_iff (h : piece <+: r.bytes) (hne : piece ≠ []) :
    OtherWord piece ↔ piece.length < 3 := by
  rw [other_word_iff]
  rcases scan_first h hne with ⟨hless, hscan⟩ | ⟨hlength, hscan⟩ | ⟨hlong, -, protocol, hscan⟩ |
    ⟨hfits, hscan⟩
  · have hpart := strcasecmp_short hless
    simp [hscan, hless, hpart]
  · have hlong : ¬ piece.length < 3 := by omega
    simp [hscan, hlong, strcasecmp_get]
  · have hlong : ¬ piece.length < 3 := by omega
    simp [hscan, hlong, strcasecmp_get]
  · have hlong : ¬ piece.length < 3 := by omega
    simp [hscan, hlong]

/-- The first piece passes the path on as far as it has that. -/
theorem get_word_first_iff {path : Bytes} (h : piece <+: r.bytes) (hne : piece ≠ []) :
    GetWord path piece ↔ Opens 5 r path piece := by
  rw [get_word_iff]
  rcases scan_first h hne with ⟨hless, hscan⟩ | ⟨hlength, hscan⟩ |
    ⟨hlong, hfits, protocol, hscan⟩ | ⟨hfits, hscan⟩
  · refine iff_of_false ?_ fun hopens => absurd hopens.long (by omega)
    simp [hscan]
  · -- no path has been assigned
    refine iff_of_false ?_ fun hopens => absurd hopens.long (by omega)
    simp [hscan]
  · simp only [hscan, Option.some.injEq, exists_eq_left', exists_and_left, strcasecmp_get,
      true_and]
    rw [eq_comm]
    exact ⟨fun heq => ⟨hlong, hfits, heq⟩, fun hopens => hopens.path_eq⟩
  · refine iff_of_false ?_ fun hopens => hfits hopens.fits
    simp [hscan]

/-- When a path of a request is passed on once. -/
theorem passes_iff_good_cuts (c : Cutting Env r.bytes) (path : Bytes) :
    PassesOnce c.arrivals path ↔ GoodCuts r path c.arrivals := by
  obtain ⟨piece, rest, harrivals, hprefix, hne⟩ := c.first
  have hpieces := harrivals ▸ c.nonempty
  have hrest := (List.forall_mem_cons.mp hpieces).2
  have hcons : intake.Once path [] (piece :: rest) ↔
      GetWord path piece.2 ∧ (∀ read ∈ reads rest, OtherWord read) ∨
        OtherWord piece.2 ∧ intake.Once path (piece.2.drop 256) rest := by
    rw [Intake.once_cons, quiet_iff hrest, ← request_path_some_iff hne,
      ← request_path_none_iff hne]
    simp [intake, reads]
  have hshort : piece.2.length < 3 →
      (intake.Once path (piece.2.drop 256) rest ↔ intake.Once path [] rest) := by
    intro hless
    rw [List.drop_eq_nil_of_le (by omega)]
  rw [passes_once_iff, harrivals, hcons, get_word_first_iff hprefix hne,
    other_word_first_iff hprefix hne, and_congr_right hshort, once_iff hrest]
  constructor
  · intro h
    exact ⟨piece, rest, rfl, h⟩
  · rintro ⟨first, others, heq, h⟩
    obtain ⟨rfl, rfl⟩ := List.cons.inj heq
    exact h

end EventWb

/-- For which two ways of cutting a request the same path is passed on exactly once. For every GET
request, every two ways in which it arrives, and whatever the calls of the callbacks return: the
same path is passed on once in both if and only if the cuts lie as `GoodCuts` says, for one path. In
both the first piece has the method and the same part of the path, without filling `buf` unless the
request line fits it, and the text behind the other cuts does not begin with the word GET; or the
first piece is less than the method, and the text behind just one of the other cuts begins with the
word GET and this path. For `processingRequests` the cuts behind the piece that freed the connection
do not count, and for `http_request` the cuts are those between the reads of 256 bytes. -/
theorem passes_same_path_iff (r : GetRequest) :
    (∀ first second : Cutting Bufferevent.Env r.bytes,
        (∃ path, LibeventWeb.PassesOnce first.arrivals path ∧
          LibeventWeb.PassesOnce second.arrivals path) ↔
        ∃ path, LibeventWeb.GoodCuts r path first.arrivals ∧
          LibeventWeb.GoodCuts r path second.arrivals) ∧
      ∀ first second : Cutting EventWb.Env r.bytes,
        (∃ path, EventWb.PassesOnce first.arrivals path ∧
          EventWb.PassesOnce second.arrivals path) ↔
        ∃ path, EventWb.GoodCuts r path first.arrivals ∧
          EventWb.GoodCuts r path second.arrivals := by
  constructor
  · intro first second
    exact exists_congr fun path => and_congr (LibeventWeb.passes_iff_good_cuts first path)
      (LibeventWeb.passes_iff_good_cuts second path)
  · intro first second
    exact exists_congr fun path => and_congr (EventWb.passes_iff_good_cuts first path)
      (EventWb.passes_iff_good_cuts second path)

/-- The request for the file `a`. -/
def smallRequest : GetRequest where
  path := ascii "/a"
  protocol := ascii "HTTP/1.1"
  headers := []
  path_ne := by decide
  path_chars := by decide +kernel
  protocol_chars := by decide +kernel
  protocol_length := rfl
  headers_safe := fun _ h => absurd h List.not_mem_nil

/-- A request that arrives in one piece. -/
def GetRequest.inOnePiece {ε : Type} (r : GetRequest) (env : ε) : Cutting ε r.bytes where
  arrivals := [(env, r.bytes)]
  whole := List.flatMap_singleton ..
  nonempty := by
    intro arrival hmem
    obtain rfl := List.mem_singleton.mp hmem
    exact List.cons_ne_nil _ _

/-- A request that arrives in two pieces, cut within the method. -/
def GetRequest.inTwoPieces {ε : Type} (r : GetRequest) (env : ε) : Cutting ε r.bytes where
  arrivals := [(env, r.bytes.take 2), (env, r.bytes.drop 2)]
  whole := by simp
  nonempty := by
    intro arrival hmem
    rcases List.mem_pair.mp hmem with rfl | rfl
    · exact List.cons_ne_nil _ _
    · exact List.cons_ne_nil _ _

/-- Neither server passes on the path of a request of which the first two bytes arrive alone. -/
theorem cut_method_not_passed :
    (¬ ∀ (r : GetRequest) (first second : Cutting Bufferevent.Env r.bytes),
        ∃ path, LibeventWeb.PassesOnce first.arrivals path ∧
          LibeventWeb.PassesOnce second.arrivals path) ∧
      ¬ ∀ (r : GetRequest) (first second : Cutting EventWb.Env r.bytes),
        ∃ path, EventWb.PassesOnce first.arrivals path ∧
          EventWb.PassesOnce second.arrivals path := by
  constructor
  · intro h
    obtain ⟨path, -, -, hpassed⟩ := h smallRequest (smallRequest.inOnePiece LibeventWeb.smallEnv)
      (smallRequest.inTwoPieces LibeventWeb.smallEnv)
    cases hpassed
  · intro h
    obtain ⟨path, -, -, hpassed⟩ := h smallRequest (smallRequest.inOnePiece EventWb.eventRoot)
      (smallRequest.inTwoPieces EventWb.eventRoot)
    cases hpassed

end UnixNet
