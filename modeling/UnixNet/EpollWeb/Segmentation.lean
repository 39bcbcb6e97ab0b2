import UnixNet.EpollWeb.Drain
import UnixNet.EpollWeb.Isolation

/-!
# Requests that arrive in pieces

A client's bytes arrive in pieces, and a read on the non-blocking socket fails with EAGAIN when
the bytes of a piece are used up. `Readline` reports that as -1, which the event loop takes for a
failed connection: it closes the descriptor, and the bytes already read are gone. So the handling
of a request does not depend on the pieces exactly when the first of them holds the request line
(`segmentation_independent_iff`).
-/

namespace UnixNet.EpollWeb

open NetLib UnixNet.Wrap

/-- Bytes that arrive together, as the chunks in which `read` returns them. -/
structure Arrival where
  chunks : List (Option (Chunk UInt8 100))
  nonempty : streamData chunks ≠ []

/-- The bytes of an arrival. -/
def Arrival.data (arrival : Arrival) : Bytes :=
  streamData arrival.chunks

/-- What the reads return: the chunks of an arrival and then EAGAIN. -/
def Arrival.script (arrival : Arrival) : List (ReadOutcome UInt8 100) :=
  (arrival.chunks.map fun chunk => chunk.elim .interrupted .data) ++ [.fail .eagain]

/-- A connection on which bytes arrive in pieces. -/
def arriving (first : Arrival) (later : List Arrival) (ending : Ending) : Source UInt8 100 :=
  ⟨(first :: later).flatMap Arrival.script, ending⟩

/-- All bytes that a client sends. -/
def sentBytes (first : Arrival) (later : List Arrival) : Bytes :=
  first.data ++ later.flatMap Arrival.data

/-- The first `Readline` of an event fails after it has taken bytes out of the socket. No later
call gets them. -/
def Server.discards (s : Server) (fd : Nat) : Prop :=
  (readline 1500 (s.reader fd)).1.ret < 0 ∧ (readline 1500 (s.reader fd)).1.stored ≠ []

/-- The actions at successive events on a descriptor, one for each arrival, until the descriptor
is closed or the server does not come back to `epoll_wait`. -/
def Server.actions (env : Env) (fuel fd : Nat) : Nat → Server → List Action
  | 0, _ => []
  | events + 1, s =>
      (s.respond env fd).1 ::
        match s.serve env fuel fd with
        | none => []
        | some (_, s) => if (s.sockets fd).isSome then s.actions env fuel fd events else []

/-- The action on the request: the first one that is not about a failed or closed connection. -/
def Server.requestAction (s : Server) (env : Env) (fuel fd events : Nat) : Option Action :=
  (s.actions env fuel fd events).find? fun action => action ≠ .readError ∧ action ≠ .clientClose

/-- The length of the request line that `Readline` is to extract. -/
def requestLineLength (bytes : Bytes) : Nat :=
  (takeLine isNewline 1499 bytes).length

variable {env : Env} {s : Server} {fd : Nat} {first : Arrival} {later : List Arrival}
  {ending : Ending}

/-- The first arrival is ready, and EAGAIN follows it. -/
theorem arriving_ready (first : Arrival) (later : List Arrival) (ending : Ending) :
    (arriving first later ending).ready = first.data ∧
      (arriving first later ending).stop = .fail .eagain := by
  have hscript : (arriving first later ending).script =
      (first.chunks.map fun chunk => chunk.elim .interrupted .data) ++
        (.fail .eagain :: later.flatMap Arrival.script) := by
    simp [arriving, Arrival.script]
  have hnothing : readyScript (.fail .eagain :: later.flatMap Arrival.script) = [] := rfl
  constructor
  · rw [Source.ready, hscript, ready_script_append, hnothing, List.append_nil, Arrival.data]
  · rw [Source.stop, hscript, stop_script_append]
    rfl

/-- What a reader with an empty buffer has in store when an event is reported. -/
theorem Server.avail_arriving (hdrained : s.rb.readCnt ≤ 0)
    (hopen : s.sockets fd = some (arriving first later ending)) :
    (s.reader fd).avail = first.data ∧ (s.reader fd).src.stop = .fail .eagain := by
  have hsrc := Server.reader_src hopen
  have hunread : (s.reader fd).rb.unread = [] :=
    ReadBuffer.unread_of_cnt_nonpos hdrained
  obtain ⟨hready, hstop⟩ := arriving_ready first later ending
  rw [Reader.avail, hunread, hsrc, List.nil_append]
  exact ⟨hready, hstop⟩

variable (env) in
/-- A parsed line is taken neither for a failed nor for a closed connection. -/
theorem parse_request_ne (buf : Bytes) :
    parseRequest env buf ≠ .readError ∧ parseRequest env buf ≠ .clientClose := by
  rw [parse_request_eq]
  cases requestTokens buf <;> simp

variable (env) in
/-- When the first arrival holds the request line, the request is parsed from the whole stream and
nothing is discarded. -/
theorem Server.request_action_complete (fuel events : Nat) (hdrained : s.rb.readCnt ≤ 0)
    (hopen : s.sockets fd = some (arriving first later ending))
    (hcomplete : lineComplete isNewline 1499 first.data = true) :
    s.requestAction env fuel fd (events + 1) =
        some (parseRequest env (requestLine (sentBytes first later))) ∧
      ¬ s.discards fd := by
  obtain ⟨havail, -⟩ := Server.avail_arriving hdrained hopen
  have hstored : lineComplete isNewline (1500 - 1) (s.reader fd).avail = true :=
    havail.symm ▸ hcomplete
  obtain ⟨hline, -, -⟩ := readline_complete hstored
  have hret : 0 < (readline 1500 (s.reader fd)).1.ret := by
    rw [hline]
    show 0 < 1 + _
    omega
  have haction : (s.respond env fd).1 = parseRequest env (requestLine (sentBytes first later)) := by
    show handleLine env (readline 1500 (s.reader fd)).1 = _
    rw [handleLine, if_neg (by omega), if_neg (by omega), hline, havail, requestLine, sentBytes,
      take_line_append hcomplete]
  refine ⟨?_, fun h => absurd h.1 (by omega)⟩
  rw [requestAction, actions, List.find?_cons_of_pos, haction]
  rw [haction]
  simpa using parse_request_ne env (requestLine (sentBytes first later))

variable (env) in
/-- When the first arrival does not hold the request line, the connection counts as failed and is
closed: the bytes of the arrival are discarded and the request is not handled. -/
theorem Server.request_action_incomplete (fuel events : Nat) (hdrained : s.rb.readCnt ≤ 0)
    (hopen : s.sockets fd = some (arriving first later ending))
    (hincomplete : lineComplete isNewline 1499 first.data = false) :
    s.requestAction env fuel fd events = none ∧ s.discards fd := by
  obtain ⟨havail, hstop⟩ := Server.avail_arriving hdrained hopen
  have hstored : lineComplete isNewline (1500 - 1) (s.reader fd).avail = false :=
    havail.symm ▸ hincomplete
  have hline := readline_incomplete hstored
  rw [hstop, if_neg (by decide), havail] at hline
  have hret : (readline 1500 (s.reader fd)).1.ret < 0 := by
    rw [hline]
    show (-1 : Int) < 0
    omega
  have haction : (s.respond env fd).1 = .readError := by
    show handleLine env (readline 1500 (s.reader fd)).1 = _
    rw [handleLine, if_pos hret]
  have hdiscards : s.discards fd := by
    refine ⟨hret, ?_⟩
    rw [hline]
    exact first.nonempty
  refine ⟨?_, hdiscards⟩
  cases events with
  | zero => rfl
  | succ events =>
      have hrest : s.actions env fuel fd (events + 1) = [.readError] := by
        rw [actions, haction]
        cases hserve : s.serve env fuel fd with
        | none => rfl
        | some result =>
            have hclosed := Server.serve_closed hserve (by rw [haction]; rfl)
            show Action.readError :: (if (result.2.sockets fd).isSome = true then _ else _) = _
            rw [hclosed]
            rfl
      rw [requestAction, hrest]
      rfl

/-- A stream that has a newline somewhere holds its first line entirely. -/
theorem line_complete_of_mem {k : Nat} {bytes : Bytes} (h : (10 : UInt8) ∈ bytes) :
    lineComplete isNewline k bytes = true := by
  induction k generalizing bytes with
  | zero => rfl
  | succ k ih =>
      cases bytes with
      | nil => cases h
      | cons c rest =>
          rw [lineComplete, Bool.or_eq_true]
          rcases List.mem_cons.mp h with rfl | h
          · exact .inl rfl
          · exact .inr (ih h)

/-- The first arrival holds the request line of the whole stream exactly if it is as long. -/
theorem first_arrival_complete_iff (h : (10 : UInt8) ∈ sentBytes first later) :
    lineComplete isNewline 1499 first.data = true ↔
      requestLineLength (sentBytes first later) ≤ first.data.length :=
  line_complete_prefix_iff ⟨_, rfl⟩ (line_complete_of_mem h)

/-- The handling of a request depends on how it arrives in pieces. Take two runs of the server, and
in each an event on a connection whose first arrival is reported; let the two clients send the same
bytes, with a newline among them. Then the server takes the same action on the request and discards
no byte of it, if and only if in both runs the first arrival is at least as long as the request
line that `Readline` is to extract (the line, or its first 1499 bytes). -/
theorem segmentation_independent_iff {lfd otherLfd : Nat} {other : Server}
    {event otherEvent : Event} {rest otherRest : List Event} {otherFirst : Arrival}
    {otherLater : List Arrival} {otherEnding : Ending} (fuel events otherEvents : Nat)
    (hrun : Reachable lfd (s, .batch (event :: rest)))
    (hother : Reachable otherLfd (other, .batch (otherEvent :: otherRest)))
    (hopen : s.sockets event.fd = some (arriving first later ending))
    (hopenOther : other.sockets otherEvent.fd =
      some (arriving otherFirst otherLater otherEnding))
    (hsame : sentBytes otherFirst otherLater = sentBytes first later)
    (hline : (10 : UInt8) ∈ sentBytes first later) :
    (s.requestAction env fuel event.fd (events + 1) =
          other.requestAction env fuel otherEvent.fd (otherEvents + 1) ∧
        ¬ s.discards event.fd ∧ ¬ other.discards otherEvent.fd) ↔
      (requestLineLength (sentBytes first later) ≤ first.data.length ∧
        requestLineLength (sentBytes first later) ≤ otherFirst.data.length) := by
  have hdrained := (reachable_inv hrun).drained
  have hdrainedOther := (reachable_inv hother).drained
  rw [← first_arrival_complete_iff hline, ← hsame,
    ← first_arrival_complete_iff (hsame.symm ▸ hline)]
  -- an arrival that ends within the line is thrown away
  cases hfirst : lineComplete isNewline 1499 first.data with
  | false =>
      have hdiscards :=
        (Server.request_action_incomplete env fuel 0 hdrained hopen hfirst).2
      exact iff_of_false (fun h => h.2.1 hdiscards) (by simp)
  | true =>
      obtain ⟨haction, hkept⟩ :=
        Server.request_action_complete env fuel events hdrained hopen hfirst
      cases hsecond : lineComplete isNewline 1499 otherFirst.data with
      | false =>
          have hdiscards :=
            (Server.request_action_incomplete env fuel 0 hdrainedOther hopenOther hsecond).2
          exact iff_of_false (fun h => h.2.2 hdiscards) (by simp)
      | true =>
          obtain ⟨hactionOther, hkeptOther⟩ := Server.request_action_complete env fuel otherEvents
            hdrainedOther hopenOther hsecond
          refine iff_of_true ⟨?_, hkept, hkeptOther⟩ ⟨rfl, rfl⟩
          rw [haction, hactionOther, hsame]

/-- A request that arrives in one piece. -/
def wholeRequest : Arrival :=
  ⟨getRequest, by decide⟩

/-- The first piece of the same request. -/
def requestHead : Arrival :=
  ⟨[some ⟨ascii "GE", by decide, by decide⟩], by decide⟩

/-- The second piece. -/
def requestTail : Arrival :=
  ⟨[some ⟨ascii "T /a \n", by decide, by decide⟩], by decide⟩

/-- The same request in one piece that is read in two chunks. -/
def readInPieces : Arrival :=
  ⟨[some ⟨ascii "GE", by decide, by decide⟩, none, some ⟨ascii "T /a \n", by decide, by decide⟩],
    by decide⟩

/-- A request that has arrived entirely is handled in the same way however it is read. -/
theorem request_read_in_pieces :
    ((Server.start 3).accept 4 (arriving wholeRequest [] .eof)).requestAction roomyEnv 5 4 1 =
        ((Server.start 3).accept 4 (arriving readInPieces [] .eof)).requestAction roomyEnv 5 4 1 ∧
      ¬ ((Server.start 3).accept 4 (arriving wholeRequest [] .eof)).discards 4 ∧
      ¬ ((Server.start 3).accept 4 (arriving readInPieces [] .eof)).discards 4 :=
  (segmentation_independent_iff 5 0 0 (first_event_reachable _) (first_event_reachable _) rfl rfl
    (by decide) (by decide)).mpr (by decide)

/-- A request line cut after two bytes is not handled at all. -/
theorem request_cut_in_line :
    ¬ ∀ (s other : Server) (env : Env) (event otherEvent : Event) (rest otherRest : List Event)
      (first otherFirst : Arrival) (later otherLater : List Arrival) (ending otherEnding : Ending)
      (fuel : Nat),
      Reachable 3 (s, .batch (event :: rest)) →
      Reachable 3 (other, .batch (otherEvent :: otherRest)) →
      s.sockets event.fd = some (arriving first later ending) →
      other.sockets otherEvent.fd = some (arriving otherFirst otherLater otherEnding) →
      sentBytes otherFirst otherLater = sentBytes first later →
      (10 : UInt8) ∈ sentBytes first later →
      s.requestAction env fuel event.fd (later.length + 1) =
          other.requestAction env fuel otherEvent.fd (otherLater.length + 1) ∧
        ¬ s.discards event.fd ∧ ¬ other.discards otherEvent.fd := by
  intro h
  have hsame := h _ _ roomyEnv ⟨4, true⟩ ⟨4, true⟩ [] [] wholeRequest requestHead [] [requestTail]
    .eof .eof 5 (first_event_reachable _) (first_event_reachable _) rfl rfl (by decide) (by decide)
  have hopen : ((Server.start 3).accept 4 (arriving requestHead [requestTail] .eof)).sockets 4 =
      some (arriving requestHead [requestTail] .eof) := rfl
  have hcut : lineComplete isNewline 1499 requestHead.data = false := by decide
  exact hsame.2.2 (Server.request_action_incomplete roomyEnv 5 0 (Int.le_refl 0) hopen hcut).2

end UnixNet.EpollWeb
