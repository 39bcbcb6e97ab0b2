import UnixNet.EventWb.Connection
import UnixNet.LibeventWeb.Connection

/-!
# What the scan of a request line has assigned

The read callbacks of the libevent servers scan an array of 256 bytes and then use `method` and
`path`, whatever the scan has assigned. The directives stay within the arrays exactly for the
buffers of `NoMethod`, `MethodOnly` and `WholeLine` (`scan_request_iff`), and only for the last of
them are both assigned. So one server serves an empty path after a lone method GET, and the other
one what its arrays held before. Besides, `sscanf` is given a string only if there is a NUL in the
array, which a full read does not leave (`read_buf_terminated_iff`).
-/

namespace UnixNet

open NetLib

/-- A token of `%[^...]` that fits an array of `cap` bytes with its terminator. -/
def IsToken (excluded : Bytes) (cap : Nat) (token : Bytes) : Prop :=
  (∀ c ∈ token, c ≠ 0 ∧ c ∉ excluded) ∧ token.length < cap

/-- The text starts with a byte that is no white space. -/
def StartsSolid (text : Bytes) : Prop :=
  ∃ c tail, text = c :: tail ∧ isspace c = false

/-- White space between two tokens, in front of `next`: a token only ends at a blank or NUL. -/
def IsGap (gap next : Bytes) : Prop :=
  (∀ c ∈ gap, isspace c = true) ∧ Stops [32] (gap ++ next)

/-- The buffer starts with a blank or with its end. -/
def NoMethod (buf : Bytes) : Prop :=
  Stops [32] buf

/-- The buffer has a method, and then no more than white space up to its end. -/
def MethodOnly (method buf : Bytes) : Prop :=
  ∃ gap tail, buf = method ++ (gap ++ 0 :: tail) ∧ method ≠ [] ∧ IsToken [32] 10 method ∧
    IsGap gap (0 :: tail)

/-- The buffer has a method, a path, and a protocol that may be empty, in front of a byte that ends
it. -/
def WholeLine (method path protocol buf : Bytes) : Prop :=
  ∃ gap between rest,
    buf = method ++ (gap ++ (path ++ (between ++ (protocol ++ rest)))) ∧
    method ≠ [] ∧ IsToken [32] 10 method ∧ path ≠ [] ∧ IsToken [32] 256 path ∧
    IsGap gap (path ++ (between ++ (protocol ++ rest))) ∧
    StartsSolid (path ++ (between ++ (protocol ++ rest))) ∧
    IsGap between (protocol ++ rest) ∧ StartsSolid (protocol ++ rest) ∧
    IsToken [32, 13, 10] 10 protocol ∧ Stops [32, 13, 10] rest

/-! ## The directives -/

/-- The directive `%[^...]` has a result exactly for a token in front of a byte that ends it. -/
theorem scan_token_eq_some_iff {excluded input token rest : Bytes} {cap : Nat} :
    scanToken excluded cap input = some (token, rest) ↔
      input = token ++ rest ∧ IsToken excluded cap token ∧ Stops excluded rest := by
  constructor
  · intro h
    unfold scanToken at h
    simp only at h
    split at h
    · cases h
    · next hnot =>
        obtain ⟨hne, hcap⟩ := not_or.mp hnot
        simp only [Option.some.injEq, Prod.mk.injEq] at h
        obtain ⟨rfl, rfl⟩ := h
        refine ⟨List.takeWhile_append_dropWhile.symm, ⟨fun c hc => ?_, by omega⟩, ?_⟩
        · have hstays := List.mem_takeWhile_imp hc
          simpa [stays] using hstays
        · obtain ⟨c, tail, hrest⟩ := List.exists_cons_of_ne_nil hne
          refine ⟨c, tail, hrest, ?_⟩
          have hhead := List.head_dropWhile_not (p := stays excluded) (l := input) hne
          simp only [hrest, List.head_cons] at hhead
          simpa [stays, or_iff_not_imp_left] using hhead
  · rintro ⟨rfl, ⟨htoken, hcap⟩, hrest⟩
    exact scan_token_append htoken hrest hcap

/-- A blank in the format has a result exactly if something else than white space follows. -/
theorem skip_space_eq_some_iff {input rest : Bytes} :
    skipSpace input = some rest ↔
      ∃ gap, input = gap ++ rest ∧ (∀ c ∈ gap, isspace c = true) ∧ StartsSolid rest := by
  constructor
  · intro h
    unfold skipSpace at h
    simp only at h
    split at h
    · cases h
    · next hne =>
        rw [Option.some.injEq] at h
        subst h
        refine ⟨input.takeWhile isspace, List.takeWhile_append_dropWhile.symm,
          fun c hc => List.mem_takeWhile_imp hc, ?_⟩
        obtain ⟨c, tail, hrest⟩ := List.exists_cons_of_ne_nil hne
        have hhead := List.head_dropWhile_not (p := isspace) (l := input) hne
        simp only [hrest, List.head_cons] at hhead
        exact ⟨c, tail, hrest, hhead⟩
  · rintro ⟨gap, rfl, hgap, c, tail, rfl, hc⟩
    exact skip_space_append hgap hc

/-- Where a token ends and no white space follows, the string ends. -/
theorem nul_of_stops_solid {input : Bytes} (hstops : Stops [32] input)
    (hsolid : StartsSolid input) : ∃ tail, input = 0 :: tail := by
  obtain ⟨c, tail, rfl, hc⟩ := hstops
  obtain ⟨d, rest, heq, hsolid⟩ := hsolid
  obtain ⟨rfl, -⟩ := List.cons.inj heq
  refine ⟨tail, ?_⟩
  congr 1
  refine hc.resolve_right fun hblank => ?_
  rw [List.mem_singleton.mp hblank] at hsolid
  cases hsolid

/-! ## The whole scan -/

theorem scan_no_method {buf : Bytes} (h : NoMethod buf) :
    scanRequest buf = some ⟨none, none, none⟩ := by
  have htoken : scanToken [32] 10 buf = some ([], buf) :=
    scan_token_eq_some_iff.mpr ⟨rfl, ⟨by simp, by decide⟩, h⟩
  simp [scanRequest, htoken]

theorem scan_method_only {method buf : Bytes} (h : MethodOnly method buf) :
    scanRequest buf = some ⟨some method, none, none⟩ := by
  obtain ⟨gap, tail, rfl, hne, hmethod, hgap, hstops⟩ := h
  have htoken : scanToken [32] 10 (method ++ (gap ++ 0 :: tail)) =
      some (method, gap ++ 0 :: tail) :=
    scan_token_eq_some_iff.mpr ⟨rfl, hmethod, hstops⟩
  have hskip : skipSpace (gap ++ 0 :: tail) = some (0 :: tail) := skip_space_append hgap rfl
  have hpath : scanToken [32] 256 (0 :: tail) = some ([], 0 :: tail) :=
    scan_token_eq_some_iff.mpr ⟨rfl, ⟨by simp, by decide⟩, 0, tail, rfl, .inl rfl⟩
  simp [scanRequest, htoken, hne, hskip, hpath]

theorem scan_whole_line {method path protocol buf : Bytes}
    (h : WholeLine method path protocol buf) :
    scanRequest buf =
      some ⟨some method, some path, if protocol = [] then none else some protocol⟩ := by
  obtain ⟨gap, between, rest, rfl, hmethodNe, hmethod, hpathNe, hpath, ⟨hgap, hmethodStops⟩,
    hpathSolid, ⟨hbetween, hpathStops⟩, hprotocolSolid, hprotocol, hstops⟩ := h
  have htoken := scan_token_eq_some_iff.mpr ⟨rfl, hmethod, hmethodStops⟩
  have hskip := skip_space_eq_some_iff.mpr ⟨gap, rfl, hgap, hpathSolid⟩
  have hscanPath := scan_token_eq_some_iff.mpr ⟨rfl, hpath, hpathStops⟩
  have hskipNext := skip_space_eq_some_iff.mpr ⟨between, rfl, hbetween, hprotocolSolid⟩
  have hscanProtocol := scan_token_eq_some_iff.mpr ⟨rfl, hprotocol, hstops⟩
  simp only [scanRequest, htoken, hskip, hscanPath, hskipNext, hscanProtocol, Option.bind_some,
    hmethodNe, hpathNe, if_false, Option.map_some]

/-- The scan has a result exactly for buffers of the three shapes, and which variables it assigns is
given by the shape. -/
theorem scan_request_iff {buf : Bytes} {scanned : Scanned} :
    scanRequest buf = some scanned ↔
      (NoMethod buf ∧ scanned = ⟨none, none, none⟩) ∨
      (∃ method, MethodOnly method buf ∧ scanned = ⟨some method, none, none⟩) ∨
      ∃ method path protocol, WholeLine method path protocol buf ∧
        scanned = ⟨some method, some path, if protocol = [] then none else some protocol⟩ := by
  constructor
  · intro hscan
    unfold scanRequest at hscan
    obtain ⟨⟨method, afterMethod⟩, htoken, hfrom⟩ := Option.bind_eq_some_iff.mp hscan
    clear hscan
    obtain ⟨rfl, hmethod, hmethodStops⟩ := scan_token_eq_some_iff.mp htoken
    -- without a method the scan ends at once
    by_cases hmethodNe : method = []
    · simp only [hmethodNe, if_true, Option.some.injEq] at hfrom
      exact .inl ⟨by rwa [hmethodNe], hfrom.symm⟩
    · simp only [hmethodNe, if_false] at hfrom
      obtain ⟨fromPath, hskip, hfromPath⟩ := Option.bind_eq_some_iff.mp hfrom
      clear hfrom
      obtain ⟨gap, rfl, hgap, hpathSolid⟩ := skip_space_eq_some_iff.mp hskip
      obtain ⟨⟨path, afterPath⟩, hscanPath, hafterPath⟩ := Option.bind_eq_some_iff.mp hfromPath
      clear hfromPath
      obtain ⟨rfl, hpath, hpathStops⟩ := scan_token_eq_some_iff.mp hscanPath
      by_cases hpathNe : path = []
      · -- the path is empty at the end of the string only
        simp only [hpathNe, if_true, Option.some.injEq] at hafterPath
        subst hpathNe
        obtain ⟨tail, rfl⟩ := nul_of_stops_solid hpathStops hpathSolid
        exact .inr (.inl ⟨method, ⟨gap, tail, rfl, hmethodNe, hmethod, hgap, hmethodStops⟩,
          hafterPath.symm⟩)
      · simp only [hpathNe, if_false] at hafterPath
        obtain ⟨fromProtocol, hskipNext, hprotocolScanned⟩ := Option.bind_eq_some_iff.mp hafterPath
        clear hafterPath
        obtain ⟨between, rfl, hbetween, hprotocolSolid⟩ := skip_space_eq_some_iff.mp hskipNext
        obtain ⟨⟨protocol, rest⟩, hscanProtocol, hscanned⟩ :=
          Option.map_eq_some_iff.mp hprotocolScanned
        clear hprotocolScanned
        obtain ⟨rfl, hprotocol, hstops⟩ := scan_token_eq_some_iff.mp hscanProtocol
        exact .inr (.inr ⟨method, path, protocol, ⟨gap, between, rest, rfl, hmethodNe, hmethod,
          hpathNe, hpath, ⟨hgap, hmethodStops⟩, hpathSolid, ⟨hbetween, hpathStops⟩,
          hprotocolSolid, hprotocol, hstops⟩, hscanned.symm⟩)
  · rintro (⟨h, rfl⟩ | ⟨method, h, rfl⟩ | ⟨method, path, protocol, h, rfl⟩)
    · exact scan_no_method h
    · exact scan_method_only h
    · exact scan_whole_line h

/-! ## The words of the buffer -/

/-- The bytes up to the first blank or NUL. -/
def firstWord (buf : Bytes) : Bytes :=
  buf.takeWhile (stays [32])

/-- The bytes behind the first word and white space, up to the next blank or NUL. -/
def secondWord (buf : Bytes) : Bytes :=
  ((buf.dropWhile (stays [32])).dropWhile isspace).takeWhile (stays [32])

/-- The buffer has one of the three shapes. -/
def Contained (buf : Bytes) : Prop :=
  NoMethod buf ∨ (∃ method, MethodOnly method buf) ∨
    ∃ method path protocol, WholeLine method path protocol buf

/-- The directives stay within the arrays exactly for the three shapes. -/
theorem contained_iff {buf : Bytes} :
    Contained buf ↔ ∃ scanned, scanRequest buf = some scanned := by
  constructor
  · rintro (h | ⟨method, h⟩ | ⟨method, path, protocol, h⟩)
    · exact ⟨_, scan_no_method h⟩
    · exact ⟨_, scan_method_only h⟩
    · exact ⟨_, scan_whole_line h⟩
  · intro ⟨scanned, hscan⟩
    rcases scan_request_iff.mp hscan with
      ⟨h, -⟩ | ⟨method, h, -⟩ | ⟨method, path, protocol, h, -⟩
    · exact .inl h
    · exact .inr (.inl ⟨method, h⟩)
    · exact .inr (.inr ⟨method, path, protocol, h⟩)

/-- A directive with a result has the bytes in front of the first excluded one. -/
theorem scan_token_eq {excluded input token rest : Bytes} {cap : Nat}
    (h : scanToken excluded cap input = some (token, rest)) :
    token = input.takeWhile (stays excluded) ∧ rest = input.dropWhile (stays excluded) := by
  unfold scanToken at h
  simp only at h
  split at h
  · cases h
  · simp only [Option.some.injEq, Prod.mk.injEq] at h
    exact ⟨h.1.symm, h.2.symm⟩

/-- The scan assigns the first two words, and none that is empty. -/
theorem scan_words {buf : Bytes} {scanned : Scanned} (h : scanRequest buf = some scanned) :
    scanned.method = (if firstWord buf = [] then none else some (firstWord buf)) ∧
      (firstWord buf ≠ [] →
        scanned.path = if secondWord buf = [] then none else some (secondWord buf)) := by
  unfold scanRequest at h
  obtain ⟨⟨method, afterMethod⟩, htoken, hfrom⟩ := Option.bind_eq_some_iff.mp h
  obtain ⟨rfl, rfl⟩ := scan_token_eq htoken
  by_cases hmethod : firstWord buf = []
  · have hnone : buf.takeWhile (stays [32]) = [] := hmethod
    simp only [hnone, if_true, Option.some.injEq] at hfrom
    simp [← hfrom, hmethod]
  · have hsome : ¬ buf.takeWhile (stays [32]) = [] := hmethod
    simp only [hsome, if_false] at hfrom
    obtain ⟨fromPath, hskip, hfromPath⟩ := Option.bind_eq_some_iff.mp hfrom
    have hgap : fromPath = (buf.dropWhile (stays [32])).dropWhile isspace := by
      unfold skipSpace at hskip
      simp only at hskip
      split at hskip
      · cases hskip
      · exact (Option.some.inj hskip).symm
    obtain ⟨⟨path, afterPath⟩, hscanPath, hafterPath⟩ := Option.bind_eq_some_iff.mp hfromPath
    obtain ⟨hpath, -⟩ := scan_token_eq hscanPath
    rw [hgap] at hpath
    obtain rfl : path = secondWord buf := hpath
    rw [if_neg hmethod]
    by_cases hpathNe : secondWord buf = []
    · simp only [hpathNe, if_true, Option.some.injEq] at hafterPath
      rw [← hafterPath, if_pos hpathNe]
      exact ⟨rfl, fun _ => rfl⟩
    · simp only [hpathNe, if_false] at hafterPath
      obtain ⟨fromProtocol, -, hprotocol⟩ := Option.bind_eq_some_iff.mp hafterPath
      obtain ⟨⟨protocol, rest⟩, -, hscanned⟩ := Option.map_eq_some_iff.mp hprotocol
      rw [← hscanned, if_neg hpathNe]
      exact ⟨rfl, fun _ => rfl⟩

/-! ## The read callbacks -/

/-- The strings that the arrays `method` and `path` of the test server hold before the scan. It does
not initialize them. -/
structure Stale where
  method : Bytes
  path : Bytes

/-- The path that `read_cb` of the test server passes to `http_request`, if it calls it, when
`input` is in the input buffer. What the scan does not assign is used as it was. -/
def EventWb.passedPath (stale : Stale) (input : Bytes) : Option (Option Bytes) :=
  if input = [] then some none
  else (scanRequest (readBuf input)).map fun scanned =>
    if EventWb.strcasecmp (scanned.method.getD stale.method) (ascii "get") then
      some (scanned.path.getD stale.path)
    else none

/-- A read callback that passes on `passed` stays within its arrays, and what it passes on was
assigned by the scan of this request. To stay within `buf`, `sscanf` needs a string there: it looks
for the NUL at its end, however early the directives are done. -/
def PassesAssigned (input : Bytes) (passed : Option (Option Bytes)) : Prop :=
  0 ∈ readBuf input ∧ ∃ scanned, scanRequest (readBuf input) = some scanned ∧
    ∀ path, passed = some (some path) → scanned.method.isSome = true ∧ scanned.path = some path

/-- Where the callback of the test server uses only what was assigned, what its arrays held before
plays no role. -/
theorem EventWb.passed_path_eq (stale : Stale) {input : Bytes} {passed : Option Bytes}
    (h : EventWb.requestPath input = some passed) :
    EventWb.passedPath stale input = some passed := by
  unfold EventWb.requestPath at h
  unfold EventWb.passedPath
  by_cases hne : input = []
  · simpa [hne] using h
  · rw [if_neg hne] at h ⊢
    obtain ⟨scanned, hscan, hmethod⟩ := Option.bind_eq_some_iff.mp h
    obtain ⟨method, hassigned, hpath⟩ := Option.bind_eq_some_iff.mp hmethod
    rw [hscan, Option.map_some, hassigned, Option.getD_some]
    by_cases hget : EventWb.strcasecmp method (ascii "get") = true
    · rw [if_pos hget] at hpath ⊢
      obtain ⟨path, hassignedPath, rfl⟩ := Option.map_eq_some_iff.mp hpath
      rw [hassignedPath, Option.getD_some]
    · rw [if_neg hget] at hpath ⊢
      exact hpath

/-- The buffer holds a string if and only if the read did not fill it or read a NUL. -/
theorem read_buf_terminated_iff (input : Bytes) :
    0 ∈ readBuf input ↔ input.length < 256 ∨ 0 ∈ input.take 256 := by
  rw [read_buf_eq, List.mem_append, or_comm]
  refine or_congr_left ?_
  constructor
  · intro h
    have := (List.mem_replicate.mp h).1
    omega
  · intro h
    exact List.mem_replicate.mpr ⟨by omega, rfl⟩

/-- A callback that compares the method by `isGet`, and whose arrays hold `method` and `path` before
the scan. -/
theorem passes_assigned_iff (isGet : Bytes → Bool) (stale : Stale) (input : Bytes) :
    PassesAssigned input ((scanRequest (readBuf input)).map fun scanned =>
        if isGet (scanned.method.getD stale.method) then some (scanned.path.getD stale.path)
        else none) ↔
      (input.length < 256 ∨ 0 ∈ input.take 256) ∧
        ((NoMethod (readBuf input) ∧ isGet stale.method = false) ∨
        (∃ method, MethodOnly method (readBuf input) ∧ isGet method = false) ∨
        ∃ method path protocol, WholeLine method path protocol (readBuf input)) := by
  unfold PassesAssigned
  rw [read_buf_terminated_iff]
  refine and_congr_right' ?_
  constructor
  · rintro ⟨scanned, hscan, hpassed⟩
    rw [hscan, Option.map_some] at hpassed
    rcases scan_request_iff.mp hscan with
      ⟨h, rfl⟩ | ⟨method, h, rfl⟩ | ⟨method, path, protocol, h, -⟩
    · refine .inl ⟨h, ?_⟩
      by_contra hget
      have := (hpassed stale.path (by simp [hget])).1
      simp at this
    · refine .inr (.inl ⟨method, h, ?_⟩)
      by_contra hget
      have := (hpassed stale.path (by simp [hget])).2
      simp at this
    · exact .inr (.inr ⟨method, path, protocol, h⟩)
  · rintro (⟨h, hget⟩ | ⟨method, h, hget⟩ | ⟨method, path, protocol, h⟩)
    · exact ⟨_, scan_no_method h, by simp [scan_no_method h, hget]⟩
    · exact ⟨_, scan_method_only h, by simp [scan_method_only h, hget]⟩
    · refine ⟨_, scan_whole_line h, fun passed hpassed => ?_⟩
      rw [scan_whole_line h] at hpassed
      simp only [Option.map_some, Option.getD_some] at hpassed
      split at hpassed
      · exact ⟨rfl, by simpa using hpassed⟩
      · cases hpassed

/-- When the scans of the read callbacks are well-formed. For every read of at least one byte, and
whatever the uninitialized arrays of the test server hold: the scan stays within `buf` and the
arrays it stores to, and the path that is passed on to the request handler was assigned from this
request along with the method, if and only if, first, the read did not fill `buf` or read a NUL, so
that `buf` is a string, and second, the buffer has a method, a path and a protocol that fit their
arrays and are ended within the buffer, or it has a method with no more than white space behind it,
and that is not GET, or it starts with a blank or NUL and the array `method` is not GET then, which
holds in the server that initializes it. -/
theorem scan_well_formed_iff (stale : Stale) (input : Bytes) (hne : input ≠ []) :
    (PassesAssigned input (LibeventWeb.requestPath input) ↔
      (input.length < 256 ∨ 0 ∈ input.take 256) ∧
        (NoMethod (readBuf input) ∨
        (∃ method, MethodOnly method (readBuf input) ∧ method ≠ ascii "GET") ∨
        ∃ method path protocol, WholeLine method path protocol (readBuf input))) ∧
    (PassesAssigned input (EventWb.passedPath stale input) ↔
      (input.length < 256 ∨ 0 ∈ input.take 256) ∧
        ((NoMethod (readBuf input) ∧ EventWb.strcasecmp stale.method (ascii "get") = false) ∨
        (∃ method, MethodOnly method (readBuf input) ∧
          EventWb.strcasecmp method (ascii "get") = false) ∨
        ∃ method path protocol, WholeLine method path protocol (readBuf input))) := by
  constructor
  · have h := passes_assigned_iff (fun method => decide (method = ascii "GET")) ⟨[], []⟩ input
    simp only [decide_eq_true_eq, decide_eq_false_iff_not] at h
    rw [LibeventWeb.requestPath, h]
    have hempty : ¬ [] = ascii "GET" := by decide
    simp only [hempty, not_false_iff, and_true, ne_eq]
  · rw [EventWb.passedPath, if_neg hne]
    exact passes_assigned_iff (fun method => EventWb.strcasecmp method (ascii "get")) stale input

/-- A request line with a blank behind the path. -/
theorem scan_well_formed_get :
    PassesAssigned (ascii "GET /a ") (LibeventWeb.requestPath (ascii "GET /a ")) ∧
      PassesAssigned (ascii "GET /a ")
        (EventWb.passedPath ⟨ascii "GET", ascii "/b"⟩ (ascii "GET /a ")) := by
  have hscan : scanRequest (readBuf (ascii "GET /a ")) =
      some ⟨some (ascii "GET"), some (ascii "/a"), none⟩ := by
    decide +kernel
  have hwhole : ∃ method path protocol,
      WholeLine method path protocol (readBuf (ascii "GET /a ")) := by
    rcases scan_request_iff.mp hscan with ⟨-, h⟩ | ⟨method, -, h⟩ | ⟨method, path, protocol, h, -⟩
    · cases h
    · cases h
    · exact ⟨method, path, protocol, h⟩
  have hiff := scan_well_formed_iff ⟨ascii "GET", ascii "/b"⟩ (ascii "GET /a ") (by decide)
  have hshort : (ascii "GET /a ").length < 256 := by decide
  exact ⟨hiff.1.mpr ⟨.inl hshort, .inr (.inr hwhole)⟩,
    hiff.2.mpr ⟨.inl hshort, .inr (.inr hwhole)⟩⟩

/-- A lone method has no path. -/
theorem lone_method :
    ¬ ∀ (stale : Stale) (input : Bytes), input ≠ [] →
      PassesAssigned input (LibeventWeb.requestPath input) ∧
        PassesAssigned input (EventWb.passedPath stale input) := by
  intro h
  obtain ⟨-, scanned, hscan, hpassed⟩ := (h ⟨[], []⟩ (ascii "GET") (by decide)).1
  have hget : scanRequest (readBuf (ascii "GET")) = some ⟨some (ascii "GET"), none, none⟩ := by
    decide +kernel
  have hempty : LibeventWeb.requestPath (ascii "GET") = some (some []) := by decide +kernel
  rw [hget, Option.some.injEq] at hscan
  have := (hpassed [] hempty).2
  rw [← hscan] at this
  cases this

end UnixNet
