import UnixNet.Lib.Intake
import UnixNet.LibeventWeb.Requests
import UnixNet.RequestLine

/-!
# A connection of the libevent web server

The life of a `bufferevent` from `listener_cb` on. Of libevent only this matters: the read callback
runs when bytes have arrived, what `bufferevent_write` appends to the output buffer moves to the
socket when the event loop runs the write event, and `bufferevent_free` discards what is left in the
buffer. No event callback is registered, so nothing happens when the peer closes the connection or
the socket has an error. `run_freed_iff` says which runs free the connection.
-/

namespace UnixNet.LibeventWeb

open NetLib UnixNet.Bufferevent

/-- Whether the `bufferevent` exists. `undefined` is the state after a read callback whose `sscanf`
ran out of its arrays. -/
inductive Status where
  | live
  | freed
  | undefined
  deriving DecidableEq

/-- What the server does to a `bufferevent`. `read` are the calls of `bufferevent_read` in one read
callback. -/
inductive Use where
  | read
  | call (c : Call)
  deriving DecidableEq

/-- A connection: the output buffer, the bytes that have been moved to the socket, and those that
were discarded. `uses` are all that was done to the `bufferevent`, and `passed` the paths of all
calls of `processingRequests`. -/
structure Connection where
  status : Status
  output : Bytes
  socket : Bytes
  discarded : Bytes
  uses : List Use
  passed : List Bytes
  deriving DecidableEq

/-- The connection that `listener_cb` has set up. -/
def Connection.start : Connection :=
  ⟨.live, [], [], [], [], []⟩

/-- One call of a request handler. -/
def Connection.apply (conn : Connection) (c : Call) : Connection :=
  match c with
  | .free => { conn with
      status := .freed
      output := []
      discarded := conn.discarded ++ conn.output
      uses := conn.uses ++ [.call c] }
  | _ => { conn with
      output := conn.output ++ c.queued
      uses := conn.uses ++ [.call c] }

/-- The path that `read_cb` passes to `processingRequests`, if it calls it. There is no result when
the scan has none. `method` and `path` are empty strings before the scan. -/
def requestPath (input : Bytes) : Option (Option Bytes) :=
  (scanRequest (readBuf input)).map fun scanned =>
    if scanned.method.getD [] = ascii "GET" then some (scanned.path.getD []) else none

/-- `read_cb(bev, ctx)` when `input` has arrived. The first `bufferevent_read` takes the bytes that
are scanned, and the loop behind it all others. -/
def Connection.readCb (conn : Connection) (env : Env) (input : Bytes) : Connection :=
  let conn := { conn with uses := conn.uses ++ [.read] }
  match requestPath input with
  | none => { conn with status := .undefined }
  | some none => conn
  | some (some path) =>
      (processingRequests env path).foldl Connection.apply
        { conn with passed := conn.passed ++ [path] }

/-- What happens to a connection. `read` is the arrival of bytes, with what the calls of the read
callback return; `write` the write event, in which the socket takes some bytes. -/
inductive Event where
  | read (env : Env) (input : Bytes)
  | write (count : Nat)
  | peerClosed
  | socketError

/-- One event. Nothing happens to a `bufferevent` that does not exist. -/
def Connection.step (conn : Connection) (event : Event) : Connection :=
  match conn.status, event with
  | .live, .read env input => conn.readCb env input
  | .live, .write count => { conn with
      output := conn.output.drop count
      socket := conn.socket ++ conn.output.take count }
  | _, _ => conn

/-- All events of a connection. -/
def run (events : List Event) : Connection :=
  events.foldl Connection.step .start

/-- The read callback scans its array without running out of it. -/
def Event.scans : Event → Bool
  | .read _ input => (requestPath input).isSome
  | _ => true

/-- The read callback answers a GET request that `processingRequests` answers to the end. -/
def Event.answers : Event → Bool
  | .read env input =>
      match requestPath input with
      | some (some path) => frees env path
      | _ => false
  | _ => false

/-- Some event is a GET request that is answered to the end, and all events before it scan. -/
def Answered (events : List Event) : Prop :=
  ∃ before event after, events = before ++ event :: after ∧
    (∀ e ∈ before, e.scans = true) ∧ event.answers = true

/-! ## One request -/

/-- Calls other than `bufferevent_free` leave their bytes in the output buffer. -/
theorem foldl_apply_of_not_free {calls : List Call} (h : .free ∉ calls) (conn : Connection) :
    calls.foldl Connection.apply conn =
      { conn with
        output := conn.output ++ queued calls
        uses := conn.uses ++ calls.map .call } := by
  induction calls generalizing conn with
  | nil => simp [queued]
  | cons c rest ih =>
      obtain ⟨hc, hrest⟩ := not_or.mp (mt List.mem_cons.mpr h)
      have happly : conn.apply c =
          { conn with output := conn.output ++ c.queued, uses := conn.uses ++ [.call c] } := by
        cases c with
        | free => exact absurd rfl hc
        | _ => rfl
      rw [List.foldl_cons, happly, ih hrest]
      simp [queued]

/-- What `processingRequests` does to a connection. When it frees the connection, everything in the
output buffer is discarded, and its own response with it. -/
theorem foldl_processing_requests (env : Env) (path : Bytes) (conn : Connection) :
    (processingRequests env path).foldl Connection.apply conn =
      if frees env path then
        { conn with
          status := .freed
          output := []
          discarded := conn.discarded ++ (conn.output ++ queued (processingRequests env path))
          uses := conn.uses ++ (processingRequests env path).map .call }
      else
        { conn with
          output := conn.output ++ queued (processingRequests env path)
          uses := conn.uses ++ (processingRequests env path).map .call } := by
  obtain ⟨made, hfree, hcalls⟩ := processing_requests_free env path
  rw [hcalls, List.foldl_append, foldl_apply_of_not_free hfree]
  cases frees env path with
  | true =>
      have hqueued : queued (made ++ [.free]) = queued made := by
        simp [queued, Call.queued]
      simp only [if_true, hqueued]
      simp [Connection.apply]
  | false => simp

/-- A read callback that frees a live connection discards the response and what was left in the
output buffer before it. -/
theorem read_cb_freed {conn : Connection} (hlive : conn.status = .live) {env : Env} {input : Bytes}
    (h : (conn.readCb env input).status = .freed) :
    ∃ path, requestPath input = some (some path) ∧ frees env path = true ∧
      (conn.readCb env input).discarded =
        conn.discarded ++ (conn.output ++ queued (processingRequests env path)) := by
  unfold Connection.readCb at h ⊢
  cases hpath : requestPath input with
  | none => simp [hpath] at h
  | some passed =>
      cases passed with
      | none => simp [hpath, hlive] at h
      | some path =>
          simp only [hpath, foldl_processing_requests] at h ⊢
          cases hfrees : frees env path with
          | false => simp [hfrees, hlive] at h
          | true => exact ⟨path, rfl, hfrees, rfl⟩

/-! ## Runs -/

/-- What one event can do: run the read callback or the write event, on a live connection, or
nothing. -/
theorem step_cases (conn : Connection) (event : Event) :
    (∃ env input, conn.status = .live ∧ event = .read env input ∧
        conn.step event = conn.readCb env input) ∨
      (∃ count, conn.status = .live ∧ event = .write count ∧
        conn.step event = { conn with
          output := conn.output.drop count
          socket := conn.socket ++ conn.output.take count }) ∨
      conn.step event = conn := by
  cases hstatus : conn.status with
  | live =>
      cases event with
      | read env input => exact .inl ⟨env, input, rfl, rfl, by simp [Connection.step, hstatus]⟩
      | write count => exact .inr (.inl ⟨count, rfl, rfl, by simp [Connection.step, hstatus]⟩)
      | peerClosed => exact .inr (.inr (by simp [Connection.step, hstatus]))
      | socketError => exact .inr (.inr (by simp [Connection.step, hstatus]))
  | freed => exact .inr (.inr (by simp [Connection.step, hstatus]))
  | undefined => exact .inr (.inr (by simp [Connection.step, hstatus]))

/-- Nothing happens to a connection that is not live. -/
theorem foldl_step_of_not_live {conn : Connection} (h : conn.status ≠ .live) (events : List Event) :
    events.foldl Connection.step conn = conn := by
  have hstep : ∀ event, conn.step event = conn := by
    intro event
    rcases step_cases conn event with ⟨_, _, hlive, -⟩ | ⟨_, hlive, -⟩ | hsame
    · exact absurd hlive h
    · exact absurd hlive h
    · exact hsame
  induction events with
  | nil => rfl
  | cons event rest ih => rw [List.foldl_cons, hstep, ih]

/-- The status after one event. -/
theorem step_status {conn : Connection} (h : conn.status = .live) (event : Event) :
    (conn.step event).status =
      if event.answers then .freed else if event.scans then .live else .undefined := by
  cases event with
  | read env input =>
      simp only [Connection.step, h]
      cases hpath : requestPath input with
      | none => simp [Connection.readCb, Event.answers, Event.scans, hpath]
      | some passed =>
          cases passed with
          | none => simp [Connection.readCb, Event.answers, Event.scans, hpath, h]
          | some path =>
              simp only [Connection.readCb, Event.answers, Event.scans, hpath,
                foldl_processing_requests]
              cases frees env path <;> simp [h]
  | write count => simp [Connection.step, h, Event.answers, Event.scans]
  | peerClosed => simp [Connection.step, h, Event.answers, Event.scans]
  | socketError => simp [Connection.step, h, Event.answers, Event.scans]

/-- Whether a request is answered depends on the first event, if that leaves the connection live, no
more than on its scan. -/
theorem answered_cons_iff {event : Event} {rest : List Event} :
    Answered (event :: rest) ↔
      event.answers = true ∨ event.scans = true ∧ Answered rest := by
  constructor
  · intro ⟨before, answered, after, heq, hbefore, hanswers⟩
    cases before with
    | nil =>
        obtain ⟨rfl, -⟩ := List.cons.inj heq
        exact .inl hanswers
    | cons first before =>
        obtain ⟨rfl, rfl⟩ := List.cons.inj heq
        obtain ⟨hscans, hbefore⟩ := List.forall_mem_cons.mp hbefore
        exact .inr ⟨hscans, before, answered, after, rfl, hbefore, hanswers⟩
  · intro h
    rcases h with hanswers | ⟨hscans, before, answered, after, rfl, hbefore, hanswers⟩
    · exact ⟨[], event, rest, rfl, fun e he => absurd he List.not_mem_nil, hanswers⟩
    · exact ⟨event :: before, answered, after, rfl, List.forall_mem_cons.mpr ⟨hscans, hbefore⟩,
        hanswers⟩

/-- A connection is freed exactly in the runs in which a request is answered. -/
theorem run_freed_iff (events : List Event) :
    (run events).status = .freed ↔ Answered events := by
  have hfrom : ∀ conn : Connection, conn.status = .live →
      ((events.foldl Connection.step conn).status = .freed ↔ Answered events) := by
    induction events with
    | nil =>
        intro conn hlive
        refine iff_of_false (by simp [hlive]) ?_
        intro ⟨before, event, after, heq, _⟩
        cases before <;> cases heq
    | cons event rest ih =>
        intro conn hlive
        have hstatus := step_status hlive event
        rw [List.foldl_cons, answered_cons_iff]
        cases hanswers : event.answers with
        | true =>
            -- the connection is freed here, and nothing happens to it any more
            rw [hanswers, if_pos rfl] at hstatus
            rw [foldl_step_of_not_live (by rw [hstatus]; decide)]
            exact iff_of_true hstatus (.inl rfl)
        | false =>
            rw [hanswers, if_neg Bool.false_ne_true] at hstatus
            cases hscans : event.scans with
            | true =>
                rw [hscans, if_pos rfl] at hstatus
                rw [ih _ hstatus]
                simp
            | false =>
                rw [hscans, if_neg Bool.false_ne_true] at hstatus
                rw [foldl_step_of_not_live (by rw [hstatus]; decide), hstatus]
                simp
  exact hfrom .start rfl

/-! ## The requests of a connection -/

/-- How the read callbacks take paths out of what arrives. -/
def intake : Intake UInt8 Env Bytes :=
  ⟨requestPath, fun _ => [], frees⟩

/-- What the read callbacks have passed. They keep nothing. -/
def Connection.toIntake (conn : Connection) : Intake.State UInt8 Bytes :=
  match conn.status with
  | .live => ⟨.reading, [], conn.passed⟩
  | .freed => ⟨.stopped, [], conn.passed⟩
  | .undefined => ⟨.failed, [], conn.passed⟩

/-- A reader fails when the connection is undefined. -/
theorem Connection.to_intake_failed_iff (conn : Connection) :
    conn.toIntake.phase = .failed ↔ conn.status = .undefined := by
  cases hstatus : conn.status <;> simp [toIntake, hstatus]

/-- The messages are the paths. -/
theorem Connection.to_intake_taken (conn : Connection) : conn.toIntake.taken = conn.passed := by
  cases hstatus : conn.status <;> simp [toIntake, hstatus]

/-- The read callbacks take paths as `intake` says. -/
theorem run_reads (arrivals : List (Env × Bytes)) (conn : Connection) :
    ((arrivals.map fun arrival => Event.read arrival.1 arrival.2).foldl Connection.step
        conn).toIntake = arrivals.foldl intake.step conn.toIntake := by
  rw [List.foldl_map]
  refine (List.foldl_hom Connection.toIntake ?_).symm
  intro conn arrival
  cases hstatus : conn.status with
  | live =>
      rcases hpath : requestPath arrival.2 with _ | _ | path
      · simp [Connection.toIntake, Connection.step, Connection.readCb, Intake.step, intake, hstatus,
          hpath]
      · simp [Connection.toIntake, Connection.step, Connection.readCb, Intake.step, intake, hstatus,
          hpath]
      · cases hfrees : frees arrival.1 path with
        | true => simp [Connection.toIntake, Connection.step, Connection.readCb, Intake.step,
            intake, foldl_processing_requests, hstatus, hpath, hfrees]
        | false => simp [Connection.toIntake, Connection.step, Connection.readCb, Intake.step,
            intake, foldl_processing_requests, hstatus, hpath, hfrees]
  | freed => simp [Connection.toIntake, Connection.step, Intake.step, hstatus]
  | undefined => simp [Connection.toIntake, Connection.step, Intake.step, hstatus]

end UnixNet.LibeventWeb
