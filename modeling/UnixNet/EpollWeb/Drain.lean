import UnixNet.EpollWeb.Response
import UnixNet.EpollWeb.Server
import UnixNet.Wrap.Splitting

/-!
# When the drain loop ends

`while (Readline(fd, buf, sizeof(buf)) >= 0);` stops at an error of the descriptor, be it EAGAIN or
the EBADF of a descriptor that was closed before the loop. At the peer's orderly shutdown
`Readline` returns 0 for ever, which the test takes for progress. So the loop does not end when the
stream ends in end of file and the descriptor is still open (`drain_ends_iff`).
-/

namespace UnixNet.EpollWeb

open NetLib UnixNet.Pub UnixNet.Wrap

/-- `SendData` comes to one of its `close(cfd)` calls: the file does not exist, or it is a regular
file that can be opened and no `send` of a block fails, or a directory that can be scanned. -/
def sendDataCloses (env : Env) (path : Bytes) : Prop :=
  match env.stat (repath path) with
  | none => True
  | some ⟨.regular, size⟩ =>
      ∃ file, env.openFile (repath path) = some file ∧ ¬ blockFails env path size file
  | some ⟨.directory, _⟩ => (env.scandir (repath path)).isSome = true
  | some ⟨.other, _⟩ => False

/-- The method and the file name of a request line, if it has both. -/
def requestTokens (buf : Bytes) : Option (Bytes × Bytes) :=
  match strtok buf with
  | none => none
  | some (requestType, rest) => (strtok rest).map fun token => (requestType, token.1)

/-- The request line at the front of a byte stream, as `strtok` sees it. -/
def requestLine (bytes : Bytes) : Bytes :=
  cstr (takeLine isNewline 1499 bytes)

/-- The request leaves the connection open: it has a method and a file name, and is not a GET
request for which `SendData` closes the connection. -/
def leavesOpen (env : Env) (bytes : Bytes) : Prop :=
  ∃ requestType fileName, requestTokens (requestLine bytes) = some (requestType, fileName) ∧
    ¬ (requestType = ascii "GET" ∧ sendDataCloses env fileName)

variable {env : Env}

/-! ## Which branches close the connection -/

/-- `SendData` closes the connection exactly in the cases of `sendDataCloses`. -/
theorem send_data_closes_iff (path : Bytes) :
    .close ∈ sendData env path ↔ sendDataCloses env path := by
  have hstart : .close ∉ (Progress.start.call (.stat (repath path))).calls := by
    simp [Progress.start, Progress.call]
  unfold sendDataCloses
  cases hstat : env.stat (repath path) with
  | none => simp [sendData, hstat, sendNotFound, Progress.call]
  | some fileStat =>
      obtain ⟨kind, size⟩ := fileStat
      cases kind with
      | regular =>
          cases hopen : env.openFile (repath path) with
          | none =>
              simp [sendData, hstat, sendRegular, hopen, Progress.call, Progress.start,
                send_header_close_not_mem]
          | some file => simpa using (send_data_regular hstat hopen).1
      | directory =>
          cases hscan : env.scandir (repath path) with
          | none =>
              simp [sendData, hstat, sendDirectory, hscan, Progress.call, Progress.start,
                send_header_close_not_mem]
          | some namelist => simp [sendData, hstat, sendDirectory, hscan, Progress.call]
      | other => simpa [sendData, hstat] using hstart

/-- The branch for a line in terms of its two tokens. -/
theorem parse_request_eq (buf : Bytes) :
    parseRequest env buf =
      match requestTokens buf with
      | none => .crash
      | some (requestType, fileName) =>
          .request requestType fileName
            (if requestType = ascii "GET" then sendData env fileName else []) := by
  unfold parseRequest requestTokens
  cases strtok buf with
  | none => rfl
  | some first =>
      obtain ⟨requestType, rest⟩ := first
      cases hnext : strtok rest with
      | none => simp [hnext]
      | some second => simp [hnext]

/-- A parsed line leaves the connection open, and the server running, exactly if the request
does. -/
theorem parse_request_open_iff (bytes : Bytes) :
    (parseRequest env (requestLine bytes) ≠ .crash ∧
        (parseRequest env (requestLine bytes)).closes = false) ↔ leavesOpen env bytes := by
  rw [parse_request_eq, leavesOpen]
  cases requestTokens (requestLine bytes) with
  | none => simp
  | some tokens =>
      obtain ⟨requestType, fileName⟩ := tokens
      by_cases hget : requestType = ascii "GET"
      · simp [Action.closes, hget, send_data_closes_iff]
      · simp [Action.closes, hget]

/-! ## The loop -/

/-- A round of the loop whose test holds takes a line off a stream that ends in an error. -/
theorem drain_round_of_fail {r : Reader} (hplain : r.src.Plain) (hfail : r.src.ending ≠ .eof)
    (htest : (drainRound r).1 = true) : (drainRound r).2.avail.length < r.avail.length := by
  have hret : 0 ≤ (readline 1500 r).1.ret := by
    simpa [drainRound] using htest
  have havail : r.avail ≠ [] := by
    intro hnil
    have hincomplete : lineComplete isNewline (1500 - 1) r.avail = false := by
      rw [hnil]
      rfl
    have hstop : r.src.stop ≠ .eof := hplain.stop_eq.symm ▸ hfail
    rw [readline_incomplete hincomplete, if_neg hstop] at hret
    have hneg : (0 : Int) ≤ -1 := hret
    omega
  show (readline 1500 r).2.avail.length < r.avail.length
  rw [readline_avail 1500 hplain]
  exact length_drop_line_lt isNewline (by omega) havail

/-- The loop ends on every stream that ends in an error: each round takes a line off it. -/
theorem drain_terminates {r : Reader} (hplain : r.src.Plain) (hfail : r.src.ending ≠ .eof) :
    Terminates drainRound r := by
  refine Terminates.of_measure (fun r => r.src.Plain ∧ r.src.ending ≠ .eof)
    (fun r => r.avail.length) ?_ ⟨hplain, hfail⟩
  intro r hr htest
  obtain ⟨hnextPlain, hnextEnd⟩ := (readline_took 1500 r).plain hr.1
  exact ⟨⟨hnextPlain, fun h => hr.2 (hnextEnd.symm.trans h)⟩, drain_round_of_fail hr.1 hr.2 htest⟩

/-- The loop does not end on a stream that ends in end of file: `Readline` never fails on it. -/
theorem drain_not_terminates {r : Reader} (hplain : r.src.Plain) (hend : r.src.ending = .eof) :
    ¬ Terminates drainRound r := by
  refine not_terminates_of_invariant (fun r => r.src.Plain ∧ r.src.ending = .eof) ?_ ⟨hplain, hend⟩
  intro r hr
  obtain ⟨hnextPlain, hnextEnd⟩ := (readline_took 1500 r).plain hr.1
  refine ⟨?_, hnextPlain, hnextEnd.trans hr.2⟩
  show decide (0 ≤ (readline 1500 r).1.ret) = true
  rw [decide_eq_true_iff]
  by_cases havail : r.avail = []
  · have hret : (readline 1500 r).1.ret = 0 :=
      congrArg Line.ret (readline_eof (by decide) hr.1 hr.2 havail)
    omega
  · exact Int.le_of_lt (readline_ret_pos 1500 hr.1 hr.2 havail)

/-! ## The loop body of an event -/

variable (env) in
/-- The source the drain loop reads: that of a closed descriptor, or what the first `Readline`
left. -/
theorem Server.respond_src {s : Server} {fd : Nat} (hopen : (s.sockets fd).isSome = true) :
    ((s.respond env fd).2.reader fd).src =
      if (s.respond env fd).1.closes then closedSource
      else (readline 1500 (s.reader fd)).2.src := by
  by_cases hclose : (handleLine env (readline 1500 (s.reader fd)).1).closes = true
  · simp [respond, hclose, reader_close]
  · simp [respond, hclose, reader_set_reader hopen]

/-- On a stream with one end the drain loop ends exactly if the descriptor was closed before it or
the stream ends in an error. -/
theorem Server.drain_terminates_iff {s : Server} {fd : Nat} {input : Source UInt8 100}
    (hopen : s.sockets fd = some input) (hplain : input.Plain) :
    Terminates drainRound ((s.respond env fd).2.reader fd) ↔
      ((s.respond env fd).1.closes = true ∨ input.ending ≠ .eof) := by
  have hsrc := Server.reader_src hopen
  have hreader := Server.respond_src env (hopen ▸ rfl : (s.sockets fd).isSome = true)
  obtain ⟨hnextPlain, hnextEnd⟩ := (readline_took 1500 (s.reader fd)).plain (hsrc.symm ▸ hplain)
  rw [hsrc] at hnextEnd
  cases hclose : (s.respond env fd).1.closes with
  | true =>
      rw [hclose, if_pos rfl] at hreader
      refine iff_of_true (drain_terminates ?_ ?_) (.inl rfl)
      · rw [hreader]
        simp [Source.Plain, closedSource]
      · rw [hreader]
        simp [closedSource]
  | false =>
      rw [hclose, if_neg Bool.false_ne_true] at hreader
      rw [← hreader] at hnextPlain hnextEnd
      by_cases hend : input.ending = .eof
      · exact iff_of_false (drain_not_terminates hnextPlain (hnextEnd.trans hend))
          (by simp [hend])
      · exact iff_of_true (drain_terminates hnextPlain (hnextEnd ▸ hend)) (.inr hend)

/-- The server comes back to its event loop exactly if no token is missing and the drain loop
ends. -/
theorem Server.serve_isSome_iff (s : Server) (fd : Nat) :
    (∃ fuel, (s.serve env fuel fd).isSome = true) ↔
      (s.respond env fd).1 ≠ .crash ∧
        Terminates drainRound ((s.respond env fd).2.reader fd) := by
  constructor
  · intro h
    obtain ⟨fuel, hserve⟩ := h
    obtain ⟨result, hresult⟩ := Option.isSome_iff_exists.mp hserve
    obtain ⟨haction, hcrash, final, hdrain, -⟩ := Server.serve_eq_some hresult
    exact ⟨haction ▸ hcrash, fuel, final, hdrain⟩
  · intro h
    obtain ⟨hcrash, fuel, final, hdrain⟩ := h
    refine ⟨fuel, ?_⟩
    show (if (s.respond env fd).1 = .crash then none
      else (whileLoop drainRound fuel ((s.respond env fd).2.reader fd)).map fun r =>
        ((s.respond env fd).1, (s.respond env fd).2.setReader fd r)).isSome = true
    rw [if_neg hcrash, hdrain]
    rfl

variable (env) in
/-- The branch taken for a stream that ends in end of file. -/
theorem Server.respond_of_eof {s : Server} {fd : Nat} (hplain : (s.reader fd).src.Plain)
    (hend : (s.reader fd).src.ending = .eof) :
    (s.respond env fd).1 =
      if (s.reader fd).avail = [] then .clientClose
      else parseRequest env (requestLine (s.reader fd).avail) := by
  show handleLine env (readline 1500 (s.reader fd)).1 = _
  by_cases havail : (s.reader fd).avail = []
  · rw [readline_eof (by decide) hplain hend havail, if_pos havail]
    rfl
  · have hpos := readline_ret_pos 1500 hplain hend havail
    rw [handleLine, if_neg (by omega), if_neg (by omega), if_neg havail, readline_line]
    rfl

/-- The drain loop ends for every connection but one kind. For every state of the static buffer,
every finite stream still to come, and every way it ends: the loop that follows the handling of the
first line stops after finitely many `Readline` calls, unless the stream ends in end of file, has
a byte before it, and carries a request that leaves the connection open. (A request without a
method or a file name crashes the server before the loop.) -/
theorem drain_ends_iff {s : Server} {fd : Nat} {chunks : List (Option (Chunk UInt8 100))}
    {ending : Ending} (hopen : s.sockets fd = some (.ofStream chunks ending)) :
    ((s.respond env fd).1 ≠ .crash → Terminates drainRound ((s.respond env fd).2.reader fd)) ↔
      ¬ (ending = .eof ∧ s.rb.unread ++ streamData chunks ≠ [] ∧
        leavesOpen env (s.rb.unread ++ streamData chunks)) := by
  have hplain := Source.of_stream_plain chunks ending
  have hsrc := Server.reader_src hopen
  have havail : (s.reader fd).avail = s.rb.unread ++ streamData chunks := by
    show s.rb.unread ++ (s.reader fd).src.ready = _
    rw [hsrc, Source.of_stream_ready]
  rw [Server.drain_terminates_iff hopen hplain]
  by_cases hend : ending = .eof
  · subst hend
    have hending : (Source.ofStream chunks .eof).ending = .eof := rfl
    have haction := Server.respond_of_eof env (hsrc ▸ hplain) (by rw [hsrc, hending])
    rw [havail] at haction
    by_cases hempty : s.rb.unread ++ streamData chunks = []
    · rw [haction, if_pos hempty]
      simp [hempty, Action.closes]
    · rw [haction, if_neg hempty, ← parse_request_open_iff]
      simp only [hending, ne_eq, not_true_eq_false, or_false, hempty, not_false_eq_true,
        true_and, not_and, Bool.not_eq_false]
  · exact iff_of_true (fun _ => .inr hend) fun h => hend h.1

/-- The request line of a client that posts to a file. -/
def postRequest : List (Option (Chunk UInt8 100)) :=
  [some ⟨ascii "POST /a \n", by decide, by decide⟩]

/-- After a GET request for a file, whose reply closes the connection, the loop ends, although the
client has shut the connection down. -/
theorem drain_ends_after_get :
    let s := (Server.start 3).accept 4 (.ofStream getRequest .eof)
    Terminates drainRound ((s.respond roomyEnv 4).2.reader 4) := by
  intro s
  refine (drain_ends_iff (show _ = some (Source.ofStream getRequest .eof) from rfl)).mpr ?_
    (by decide +kernel)
  rintro ⟨-, -, requestType, fileName, htokens, hopen⟩
  have hline : requestTokens (requestLine (streamData getRequest)) =
      some (ascii "GET", ascii "/a") := by
    decide +kernel
  obtain ⟨rfl, rfl⟩ := Prod.mk.inj (Option.some.inj (hline.symm.trans htokens))
  refine hopen ⟨rfl, ⟨ascii "AB", fun _ => false⟩, rfl, ?_⟩
  rintro ⟨i, -, hfails⟩
  cases hfails

/-- After a POST request, end of file keeps the loop going for ever. -/
theorem drain_spins_after_post :
    ¬ ∀ (s : Server) (env : Env) (fd : Nat) (chunks : List (Option (Chunk UInt8 100)))
      (ending : Ending), s.sockets fd = some (.ofStream chunks ending) →
      (s.respond env fd).1 ≠ .crash →
      Terminates drainRound ((s.respond env fd).2.reader fd) := by
  intro h
  have hends := h ((Server.start 3).accept 4 (.ofStream postRequest .eof)) roomyEnv 4
    postRequest .eof rfl (by decide +kernel)
  rw [Server.drain_terminates_iff (show _ = some (Source.ofStream postRequest .eof) from rfl)
    (Source.of_stream_plain _ _)] at hends
  rcases hends with hclosed | hfail
  · exact absurd hclosed (by decide +kernel)
  · exact hfail rfl

end UnixNet.EpollWeb
