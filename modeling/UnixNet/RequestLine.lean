import Mathlib.Data.List.TakeDrop
import UnixNet.Lib.Message

/-!
# The request line in the read callbacks of the libevent servers

Both servers read at most 256 bytes into an array that is otherwise zero, and scan it with
`sscanf(buf, "%[^ ] %[^ ] %[^ \r\n]", method, path, protocol)`. The scan has no result when a
directive runs out of the array, or when a token does not fit the array it is stored in. What it
makes of the first bytes of a GET request is `scan_get_request`. The array has no NUL after a read
of 256 bytes without one. `sscanf` looks for it behind the array then, without effect on a scan that
is done before.
-/

namespace UnixNet

open NetLib

/-- `isspace` in the C locale. -/
def isspace (c : UInt8) : Bool :=
  c == 32 || (9 ≤ c && c ≤ 13)

/-- A byte that belongs to a token. -/
def stays (excluded : Bytes) (c : UInt8) : Bool :=
  c != 0 && !excluded.contains c

/-- The directive `%[^...]` with an array of `cap` bytes: the bytes before the first excluded one or
NUL, and the rest. -/
def scanToken (excluded : Bytes) (cap : Nat) (input : Bytes) : Option (Bytes × Bytes) :=
  let token := input.takeWhile (stays excluded)
  let rest := input.dropWhile (stays excluded)
  if rest = [] ∨ cap ≤ token.length then none else some (token, rest)

/-- A blank in the format: skip white space. -/
def skipSpace (input : Bytes) : Option Bytes :=
  let rest := input.dropWhile isspace
  if rest = [] then none else some rest

/-- What `sscanf` has assigned. -/
structure Scanned where
  method : Option Bytes
  path : Option Bytes
  protocol : Option Bytes
  deriving DecidableEq

/-- `sscanf(buf, "%[^ ] %[^ ] %[^ \r\n]", method, path, protocol)` with arrays of 10, 256 and 10
bytes: what the directives assign. The scan ends at the first directive that matches nothing. -/
def scanRequest (buf : Bytes) : Option Scanned :=
  (scanToken [32] 10 buf).bind fun (method, rest) =>
    if method = [] then some ⟨none, none, none⟩
    else (skipSpace rest).bind fun rest => (scanToken [32] 256 rest).bind fun (path, rest) =>
      if path = [] then some ⟨some method, none, none⟩
      else (skipSpace rest).bind fun rest =>
        (scanToken [32, 13, 10] 10 rest).map fun (protocol, _) =>
          ⟨some method, some path, if protocol = [] then none else some protocol⟩

/-- The array `buf` after the first `bufferevent_read`, of what is in the input buffer. -/
def readBuf (input : Bytes) : Bytes :=
  overwrite (input.take 256) (zeros 256)

/-- One GET request. The path and the protocol have no white space, and the protocol has eight
bytes. -/
structure GetRequest where
  path : Bytes
  protocol : Bytes
  headers : List Bytes
  path_ne : path ≠ []
  path_chars : ∀ c ∈ path, c ≠ 0 ∧ isspace c = false
  protocol_chars : ∀ c ∈ protocol, c ≠ 0 ∧ isspace c = false
  protocol_length : protocol.length = 8
  headers_safe : ∀ line ∈ headers, IsHeaderLine line

/-- The bytes of the request. -/
def GetRequest.bytes (r : GetRequest) : Bytes :=
  ascii "GET " ++ (r.path ++ 32 :: (r.protocol ++ (crlf ++ (renderHead r.headers ++ crlf))))

/-- A way in which a byte stream arrives, cut into pieces of at least one byte. With each piece
comes what the calls of the callback for it return. -/
structure Cutting (ε : Type) (stream : Bytes) where
  arrivals : List (ε × Bytes)
  whole : arrivals.flatMap Prod.snd = stream
  nonempty : ∀ arrival ∈ arrivals, arrival.2 ≠ []

/-! ## Scanning -/

/-- A byte that stops the scan of a token. -/
def Stops (excluded : Bytes) (rest : Bytes) : Prop :=
  ∃ c tail, rest = c :: tail ∧ (c = 0 ∨ c ∈ excluded)

/-- White space that is excluded from a token is none of its bytes. -/
theorem not_mem_excluded {excluded : Bytes} {c : UInt8} (hexcluded : excluded.all isspace = true)
    (hc : isspace c = false) : c ∉ excluded := by
  intro hmem
  have hspace := List.all_eq_true.mp hexcluded c hmem
  rw [hc] at hspace
  cases hspace

/-- A token that fits its array, in front of a byte that stops it. -/
theorem scan_token_append {excluded token rest : Bytes} {cap : Nat}
    (htoken : ∀ c ∈ token, c ≠ 0 ∧ c ∉ excluded) (hrest : Stops excluded rest)
    (hcap : token.length < cap) : scanToken excluded cap (token ++ rest) = some (token, rest) := by
  obtain ⟨c, tail, rfl, hc⟩ := hrest
  have hstays : ∀ b ∈ token, stays excluded b = true := by
    intro b hb
    simpa [stays] using htoken b hb
  have hstop : ¬ stays excluded c = true := by
    rcases hc with rfl | hc
    · simp [stays]
    · simp [stays, hc]
  have htake : (token ++ c :: tail).takeWhile (stays excluded) = token := by
    rw [List.takeWhile_append_of_pos hstays, List.takeWhile_cons_of_neg hstop, List.append_nil]
  have hdrop : (token ++ c :: tail).dropWhile (stays excluded) = c :: tail := by
    rw [List.dropWhile_append_of_pos hstays, List.dropWhile_cons_of_neg hstop]
  simp only [scanToken, htake, hdrop]
  exact if_neg (by simp; omega)

/-- White space in front of another byte is skipped. -/
theorem skip_space_append {spaces tail : Bytes} {c : UInt8}
    (hspaces : ∀ b ∈ spaces, isspace b = true) (hc : isspace c = false) :
    skipSpace (spaces ++ c :: tail) = some (c :: tail) := by
  have hdrop : (spaces ++ c :: tail).dropWhile isspace = c :: tail := by
    rw [List.dropWhile_append_of_pos hspaces, List.dropWhile_cons_of_neg (by simp [hc])]
  simp only [skipSpace, hdrop]
  exact if_neg (by simp)

/-- One blank in front of another byte is skipped. -/
theorem skip_blank {c : UInt8} (hc : isspace c = false) (tail : Bytes) :
    skipSpace (32 :: c :: tail) = some (c :: tail) := by
  have hblank : ∀ b ∈ ([32] : Bytes), isspace b = true := by decide +kernel
  exact skip_space_append hblank hc

/-- Nothing of a token is left in front of the end of the string. -/
theorem stops_zeros (excluded : Bytes) (n : Nat) : Stops excluded (zeros (n + 1)) :=
  ⟨0, zeros n, rfl, .inl rfl⟩

/-- A token that fills the string runs out of it. -/
theorem scan_token_all {excluded token : Bytes} {cap : Nat}
    (htoken : ∀ c ∈ token, c ≠ 0 ∧ c ∉ excluded) : scanToken excluded cap token = none := by
  have hdrop : token.dropWhile (stays excluded) = [] := by
    rw [List.dropWhile_eq_nil_iff]
    intro b hb
    simpa [stays] using htoken b hb
  simp only [scanToken, hdrop, true_or, if_true]

/-- Scan the method GET and the blank behind it. -/
theorem scan_method {c : UInt8} {rest : Bytes} (hc : isspace c = false) :
    scanRequest (ascii "GET " ++ c :: rest) =
      (scanToken [32] 256 (c :: rest)).bind fun (path, rest) =>
        if path = [] then some ⟨some (ascii "GET"), none, none⟩
        else (skipSpace rest).bind fun rest =>
          (scanToken [32, 13, 10] 10 rest).map fun (protocol, _) =>
            ⟨some (ascii "GET"), some path, if protocol = [] then none else some protocol⟩ := by
  have hmethod : scanToken [32] 10 (ascii "GET " ++ c :: rest) =
      some (ascii "GET", 32 :: c :: rest) := by
    have hletters : ∀ c ∈ ascii "GET", c ≠ 0 ∧ c ∉ ([32] : Bytes) := by decide +kernel
    exact scan_token_append hletters ⟨32, _, rfl, .inr (List.mem_singleton_self 32)⟩ (by decide)
  have hget : ascii "GET" ≠ [] := by decide
  rw [scanRequest, hmethod]
  simp only [Option.bind_some, hget, if_false, skip_blank hc]

/-- Scan a path in front of a blank or of the end of the string. -/
theorem scan_path {path rest : Bytes} (hpath : ∀ c ∈ path, c ≠ 0 ∧ isspace c = false)
    (hlength : path.length < 256) (hrest : Stops [32] rest) :
    scanToken [32] 256 (path ++ rest) = some (path, rest) :=
  scan_token_append (fun c hc => ⟨(hpath c hc).1, not_mem_excluded rfl (hpath c hc).2⟩) hrest
    hlength

/-- Scan a buffer with the method GET and a path in front of a rest from which the protocol is
scanned. -/
theorem scan_get {path rest protocol : Bytes} (hne : path ≠ [])
    (hpath : ∀ c ∈ path, c ≠ 0 ∧ isspace c = false) (hlength : path.length < 256)
    (hrest : Stops [32] rest)
    (hprotocol : ∃ tail, (skipSpace rest).bind (scanToken [32, 13, 10] 10) =
      some (protocol, tail)) :
    scanRequest (ascii "GET " ++ (path ++ rest)) =
      some ⟨some (ascii "GET"), some path, if protocol = [] then none else some protocol⟩ := by
  obtain ⟨tail, htail⟩ := hprotocol
  obtain ⟨skipped, hskipped, hscanned⟩ := Option.bind_eq_some_iff.mp htail
  have htoken := scan_path hpath hlength hrest
  obtain ⟨c, path, rfl⟩ := List.exists_cons_of_ne_nil hne
  rw [List.cons_append] at htoken ⊢
  rw [scan_method (hpath c List.mem_cons_self).2, htoken]
  simp only [Option.bind_some, hne, if_false, hskipped, hscanned, Option.map_some]

/-- The protocol behind a blank, as far as it is there. -/
theorem scan_protocol {protocol tail : Bytes} (hchars : ∀ c ∈ protocol, c ≠ 0 ∧ isspace c = false)
    (hlength : protocol.length ≤ 8) {c : UInt8} (htail : c = 0 ∨ c = 13 ∧ protocol ≠ []) :
    (skipSpace (32 :: (protocol ++ c :: tail))).bind (scanToken [32, 13, 10] 10) =
      some (protocol, c :: tail) := by
  have hspace : skipSpace (32 :: (protocol ++ c :: tail)) = some (protocol ++ c :: tail) := by
    cases protocol with
    | nil =>
        obtain rfl : c = 0 := htail.resolve_right fun h => h.2 rfl
        exact skip_blank rfl _
    | cons b rest =>
        exact skip_blank (hchars b List.mem_cons_self).2 _
  have hexcluded : ∀ b ∈ protocol, b ≠ 0 ∧ b ∉ ([32, 13, 10] : Bytes) :=
    fun b hb => ⟨(hchars b hb).1, not_mem_excluded rfl (hchars b hb).2⟩
  have hstops : Stops [32, 13, 10] (c :: tail) := by
    refine ⟨c, tail, rfl, ?_⟩
    rcases htail with rfl | ⟨rfl, -⟩
    · exact .inl rfl
    · exact .inr (by decide)
  rw [hspace, Option.bind_some]
  exact scan_token_append hexcluded hstops (by omega)

/-! ## The first bytes of a GET request -/

/-- The array after a read: what was read, and zeros as far as it is not full. -/
theorem read_buf_eq (input : Bytes) :
    readBuf input = input.take 256 ++ zeros (256 - input.length) := by
  rw [readBuf, overwrite, zeros, List.drop_replicate, List.length_take]
  congr 2
  omega

/-- The first four bytes of a GET request. -/
theorem GetRequest.take_four (r : GetRequest) : r.bytes.take 4 = ascii "GET " := rfl

/-- What follows the path of a GET request, in a buffer: the protocol as far as it has been read,
and then zeros. -/
theorem scan_after_path (r : GetRequest) {m k : Nat} (hroom : 0 < k ∨ 9 ≤ m) :
    ∃ protocol tail,
      (skipSpace (32 :: ((r.protocol ++ 13 :: (10 :: (renderHead r.headers ++ crlf))).take m ++
        zeros k))).bind (scanToken [32, 13, 10] 10) = some (protocol, tail) := by
  rcases Nat.lt_or_ge m 9 with hm | hm
  · -- a part of the protocol has been read
    obtain ⟨k, rfl⟩ : ∃ rest, k = rest + 1 := ⟨k - 1, by omega⟩
    have hpart : (r.protocol.take m).length ≤ 8 :=
      (List.length_take_le' _ _).trans r.protocol_length.le
    rw [List.take_append_of_le_length (by rw [r.protocol_length]; omega)]
    exact ⟨_, _, scan_protocol (fun c hc => r.protocol_chars c (List.mem_of_mem_take hc)) hpart
      (.inl rfl)⟩
  · -- the whole protocol has been read
    obtain ⟨rest, rfl⟩ : ∃ rest, m = r.protocol.length + (rest + 1) :=
      ⟨m - 9, by rw [r.protocol_length]; omega⟩
    have hne : r.protocol ≠ [] := List.ne_nil_of_length_pos (by rw [r.protocol_length]; omega)
    rw [List.take_length_add_append, List.take_succ_cons, List.append_assoc, List.cons_append]
    exact ⟨_, _, scan_protocol r.protocol_chars r.protocol_length.le (.inr ⟨rfl, hne⟩)⟩

/-- What follows the method of a GET request, in a buffer: the path as far as it has been read, and
then the protocol, or zeros. -/
theorem scan_after_method (r : GetRequest) {n k : Nat} (hpos : 0 < n)
    (hroom : 0 < k ∨ r.path.length + 10 ≤ n) (hsmall : n + k = 252) :
    ∃ protocol, scanRequest (ascii "GET " ++ ((r.bytes.drop 4).take n ++ zeros k)) =
      some ⟨some (ascii "GET"), some (r.path.take n), protocol⟩ := by
  have hbytes : r.bytes.drop 4 =
      r.path ++ 32 :: (r.protocol ++ 13 :: (10 :: (renderHead r.headers ++ crlf))) := rfl
  have hpathNe : r.path.take n ≠ [] := by
    rw [ne_eq, List.take_eq_nil_iff, not_or]
    exact ⟨by omega, r.path_ne⟩
  have hpath : ∀ c ∈ r.path.take n, c ≠ 0 ∧ isspace c = false :=
    fun c hc => r.path_chars c (List.mem_of_mem_take hc)
  have hpathLength : (r.path.take n).length < 256 := by
    have := List.length_take_le n r.path
    omega
  rcases Nat.lt_or_ge r.path.length n with hlt | hge
  · -- the whole path has been read
    obtain ⟨m, rfl⟩ : ∃ m, n = r.path.length + (m + 1) := ⟨n - r.path.length - 1, by omega⟩
    have hall : r.path.take (r.path.length + (m + 1)) = r.path := List.take_of_length_le (by omega)
    have hstop : ∀ tail, Stops [32] (32 :: tail) := fun tail => ⟨32, tail, rfl, .inr (by decide)⟩
    rw [hall] at hpathLength
    rw [hbytes, List.take_length_add_append, List.take_succ_cons, List.append_assoc,
      List.cons_append, hall]
    obtain ⟨protocol, tail, hprotocol⟩ := scan_after_path r (by omega : 0 < k ∨ 9 ≤ m)
    exact ⟨_, scan_get r.path_ne r.path_chars hpathLength (hstop _) ⟨tail, hprotocol⟩⟩
  · -- the read ends within the path
    obtain ⟨k, rfl⟩ : ∃ rest, k = rest + 1 := ⟨k - 1, by omega⟩
    have hempty : (skipSpace (zeros (k + 1))).bind (scanToken [32, 13, 10] 10) =
        some ([], zeros (k + 1)) := by
      have hspace : skipSpace (zeros (k + 1)) = some (zeros (k + 1)) :=
        skip_space_append (fun b hb => absurd hb List.not_mem_nil) rfl
      rw [hspace, Option.bind_some]
      exact scan_token_append (fun b hb => absurd hb List.not_mem_nil) (stops_zeros _ k) (by decide)
    rw [hbytes, List.take_append_of_le_length hge]
    exact ⟨_, scan_get hpathNe hpath hpathLength (stops_zeros _ k) ⟨_, hempty⟩⟩

/-- What a read callback makes of the first bytes of a GET request: the method as far as it has
arrived; and when more than the method has arrived, the path as far as that has. -/
theorem scan_get_request (r : GetRequest) {arrival : Bytes} (h : arrival <+: r.bytes)
    (hne : arrival ≠ []) (hfit : arrival.length < 256 ∨ r.path.length + 13 < 256) :
    ∃ protocol, scanRequest (readBuf arrival) =
      some (if arrival.length ≤ 4 then ⟨some (arrival.take 3), none, none⟩
        else ⟨some (ascii "GET"), some (r.path.take (arrival.length - 4)), protocol⟩) := by
  have hlength : 0 < arrival.length := List.length_pos_iff.mpr hne
  have harrival : arrival = r.bytes.take arrival.length := List.prefix_iff_eq_take.mp h
  split
  · next hshort =>
      -- at most four bytes, which are those of the method
      refine ⟨none, ?_⟩
      have hfour : arrival = (ascii "GET ").take arrival.length := by
        rw [← r.take_four, List.take_take, Nat.min_eq_left hshort]
        exact harrival
      generalize hn : arrival.length = n at hfour hshort hlength
      subst hfour
      rcases n with _ | _ | _ | _ | _ | n
      · omega
      · decide +kernel
      · decide +kernel
      · decide +kernel
      · decide +kernel
      · omega
  · next hlong =>
      have hread : readBuf arrival = ascii "GET " ++
          ((r.bytes.drop 4).take (min arrival.length 256 - 4) ++ zeros (256 - arrival.length)) := by
        have htake : arrival.take 256 = r.bytes.take (4 + (min arrival.length 256 - 4)) := by
          rw [harrival, List.take_take, List.length_take]
          congr 1
          have := h.length_le
          omega
        rw [read_buf_eq, htake, List.take_add, r.take_four, List.append_assoc]
      obtain ⟨protocol, hscan⟩ := scan_after_method r (n := min arrival.length 256 - 4)
        (k := 256 - arrival.length) (by omega) (by omega) (by omega)
      refine ⟨protocol, ?_⟩
      have hpath : r.path.take (min arrival.length 256 - 4) = r.path.take (arrival.length - 4) := by
        rcases hfit with hfit | hfit
        · rw [Nat.min_eq_left hfit.le]
        · rcases Nat.le_total arrival.length 256 with hle | hge
          · rw [Nat.min_eq_left hle]
          · rw [List.take_of_length_le (by omega), List.take_of_length_le (by omega)]
      rw [hread, hscan, hpath]

/-- The scan runs out of the array when the first bytes of a GET request fill it without the end of
the request line. -/
theorem scan_get_request_overrun (r : GetRequest) {arrival : Bytes} (h : arrival <+: r.bytes)
    (hfull : 256 ≤ arrival.length) (hlong : 256 ≤ r.path.length + 13) :
    scanRequest (readBuf arrival) = none := by
  have hprotocol := r.protocol_length
  obtain ⟨c, tail, hpath⟩ := List.exists_cons_of_ne_nil r.path_ne
  have hc : isspace c = false := (r.path_chars c (hpath ▸ List.mem_cons_self)).2
  have hline : (r.path ++ 32 :: r.protocol).take 252 =
      c :: (tail ++ 32 :: r.protocol).take 251 := by
    rw [hpath]
    rfl
  -- the array takes the first 256 bytes and no NUL behind them
  have hread : readBuf arrival = ascii "GET " ++ (r.path ++ 32 :: r.protocol).take 252 := by
    have hbytes : r.bytes = ascii "GET " ++
        ((r.path ++ 32 :: r.protocol) ++ (crlf ++ (renderHead r.headers ++ crlf))) := by
      rw [List.append_assoc, List.cons_append]
      rfl
    have htake : arrival.take 256 = r.bytes.take (4 + 252) := by
      rw [List.prefix_iff_eq_take.mp h, List.take_take, Nat.min_eq_left hfull]
    rw [read_buf_eq, Nat.sub_eq_zero_of_le hfull, htake, List.take_add, r.take_four, hbytes]
    have hdrop : ∀ rest, (ascii "GET " ++ rest).drop 4 = rest := fun _ => rfl
    rw [hdrop, List.take_append_of_le_length (by simp; omega)]
    exact List.append_nil _
  rw [hread, hline, scan_method hc, ← hline]
  rcases Nat.lt_or_ge r.path.length 252 with hlt | hge
  · -- the array ends behind the path or within the protocol
    obtain ⟨m, hm⟩ : ∃ m, 252 = r.path.length + (m + 1) := ⟨251 - r.path.length, by omega⟩
    have hstops : Stops [32] (32 :: r.protocol.take m) := ⟨32, _, rfl, .inr (by decide)⟩
    rw [hm, List.take_length_add_append, List.take_succ_cons,
      scan_path r.path_chars (by omega) hstops]
    simp only [Option.bind_some, r.path_ne, if_false, Option.bind_eq_none_iff,
      Option.map_eq_none_iff]
    intro rest hrest
    have hchars : ∀ c ∈ r.protocol.take m, c ≠ 0 ∧ isspace c = false :=
      fun c hc => r.protocol_chars c (List.mem_of_mem_take hc)
    cases hpart : r.protocol.take m with
    | nil => rw [hpart] at hrest; cases hrest
    | cons b part =>
        rw [hpart] at hrest hchars
        rw [skip_blank (hchars b List.mem_cons_self).2] at hrest
        obtain rfl := Option.some.inj hrest
        exact scan_token_all fun c hc => ⟨(hchars c hc).1, not_mem_excluded rfl (hchars c hc).2⟩
  · -- the array ends within the path
    rw [List.take_append_of_le_length hge, scan_token_all, Option.bind_none]
    intro c hc
    have hchars := r.path_chars c (List.mem_of_mem_take hc)
    exact ⟨hchars.1, not_mem_excluded rfl hchars.2⟩

end UnixNet
