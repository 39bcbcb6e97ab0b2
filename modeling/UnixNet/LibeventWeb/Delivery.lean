import UnixNet.LibeventWeb.Connection
import UnixNet.LibeventWeb.Framing

/-!
# Whether a response reaches the socket

`processingRequests` queues a response and frees the connection in the same callback, before the
event loop can run a write event. What is in the output buffer then is discarded. So everything that
is queued reaches the socket only in the runs in which no request is answered (`delivered_iff`).
-/

namespace UnixNet.LibeventWeb

open NetLib UnixNet.Pub UnixNet.Bufferevent

/-- The bytes a use appends to the output buffer. -/
def Use.queued : Use → Bytes
  | .read => []
  | .call c => c.queued

/-- Everything that was ever put into the output buffer. -/
def Connection.queued (conn : Connection) : Bytes :=
  conn.uses.flatMap Use.queued

/-- When the connection has been freed, every queued byte has been moved to the socket. -/
def Delivered (conn : Connection) : Prop :=
  conn.status = .freed → conn.queued = conn.socket

/-- What was queued has been moved to the socket, was discarded, or is in the output buffer. That is
empty when the connection has been freed. -/
structure Conserved (conn : Connection) : Prop where
  parts : conn.queued = conn.socket ++ (conn.discarded ++ conn.output)
  kept : conn.status ≠ .freed → conn.discarded = []
  emptied : conn.status = .freed → conn.output = []

/-- The bytes of a list of calls. -/
theorem flat_map_queued_calls (calls : List Call) :
    (calls.map Use.call).flatMap Use.queued = queued calls := by
  rw [List.flatMap_map]
  rfl

/-- A read callback conserves what was queued. -/
theorem read_cb_conserved {conn : Connection} (hlive : conn.status = .live) (h : Conserved conn)
    (env : Env) (input : Bytes) : Conserved (conn.readCb env input) := by
  obtain ⟨hparts, hkept, -⟩ := h
  have hnone : conn.discarded = [] := hkept (by rw [hlive]; decide)
  have hread : (conn.uses ++ [Use.read]).flatMap Use.queued = conn.socket ++ conn.output := by
    rw [List.flatMap_append, ← Connection.queued, hparts, hnone]
    simp [Use.queued]
  unfold Connection.readCb
  simp only
  split
  · exact ⟨by simpa [Connection.queued, hnone] using hread, fun _ => hnone, fun h => by cases h⟩
  · exact ⟨by simpa [Connection.queued, hnone] using hread, fun _ => hnone,
      fun h => by rw [hlive] at h; cases h⟩
  · next path _ =>
      have hcalls : (conn.uses ++ [Use.read] ++ (processingRequests env path).map Use.call).flatMap
          Use.queued = conn.socket ++ (conn.output ++ queued (processingRequests env path)) := by
        rw [List.flatMap_append, hread, flat_map_queued_calls, List.append_assoc]
      rw [foldl_processing_requests]
      cases frees env path with
      | true => exact ⟨by simpa [Connection.queued, hnone] using hcalls, fun h => absurd rfl h,
          fun _ => rfl⟩
      | false => exact ⟨by simpa [Connection.queued, hnone] using hcalls, fun _ => hnone,
          fun h => by rw [if_neg Bool.false_ne_true] at h; rw [hlive] at h; cases h⟩

/-- In every run nothing that was queued is forgotten. -/
theorem run_conserved (events : List Event) : Conserved (run events) := by
  refine List.foldlRecOn events Connection.step ⟨rfl, fun _ => rfl, fun _ => rfl⟩ ?_
  intro conn h event _
  rcases step_cases conn event with ⟨env, input, hlive, -, hstep⟩ | ⟨count, hlive, -, hstep⟩ | hstep
  · rw [hstep]
    exact read_cb_conserved hlive h env input
  · -- the write event moves bytes from the front of the buffer to the socket
    rw [hstep]
    obtain ⟨hparts, hkept, -⟩ := h
    have hnone : conn.discarded = [] := hkept (by rw [hlive]; decide)
    refine ⟨?_, fun _ => hnone, fun h => by rw [hlive] at h; cases h⟩
    show conn.queued = conn.socket ++ conn.output.take count ++
      (conn.discarded ++ conn.output.drop count)
    rw [hparts, hnone, List.nil_append, List.nil_append, List.append_assoc,
      List.take_append_drop]
  · rwa [hstep]

/-- A request that is answered to the end has queued at least a status line. -/
theorem queued_answer_ne {env : Env} {path : Bytes} (hwrites : ∀ i, env.write i = true)
    (h : frees env path = true) : queued (processingRequests env path) ≠ [] := by
  obtain ⟨next, hcalls, ⟨hnot, -⟩ | ⟨code, msg, type, length, hfit, hworking⟩⟩ :=
    processing_requests_eq env path
  · rw [h] at hnot
    cases hnot
  · have hzeros : (zeros 1500).length = 1500 := List.length_replicate
    have hfirst := (send_header_first env code length msg type _).trans hworking
    rw [write_text env (hzeros.symm ▸ hfit)] at hfirst
    obtain ⟨made, hmade, -⟩ := hfirst
    intro hnil
    have hline : statusLine code msg = [] := by
      rw [hcalls, hmade, queued_append, queued_append, queued_write, if_pos (hwrites _),
        Int.toNat_natCast, List.take_length] at hnil
      simp only [List.append_eq_nil_iff] at hnil
      exact hnil.1.1.2
    simp [statusLine, crlf] at hline

/-- What is discarded when a request has been answered. -/
theorem run_discarded {events : List Event}
    (hwrites : ∀ env input, .read env input ∈ events → ∀ i, env.write i = true)
    (h : (run events).status = .freed) : (run events).discarded ≠ [] := by
  refine List.foldlRecOn (motive := fun conn => conn.status = .freed → conn.discarded ≠ [])
    events Connection.step (fun h => by cases h) ?_ h
  intro conn ih event hmem hfreed
  rcases step_cases conn event with ⟨env, input, hlive, rfl, hstep⟩ | ⟨_, hlive, -, hstep⟩ | hstep
  · rw [hstep] at hfreed ⊢
    obtain ⟨path, -, hfrees, hdiscarded⟩ := read_cb_freed hlive hfreed
    rw [hdiscarded, ne_eq, List.append_eq_nil_iff, List.append_eq_nil_iff]
    exact fun h => queued_answer_ne (hwrites env input hmem) hfrees h.2.2
  · rw [hstep] at hfreed
    exact absurd (hlive.symm.trans hfreed) (by decide)
  · rw [hstep] at hfreed ⊢
    exact ih hfreed

/-- When the response reaches the socket. In every run in which libevent queues every write: all
bytes that were queued have been moved to the socket before the connection is freed, if and only if
no read callback of the run got a GET request for a path that does not exist, a regular file or a
directory that could be scanned, after callbacks whose scans stayed in their arrays. -/
theorem delivered_iff {events : List Event}
    (hwrites : ∀ env input, .read env input ∈ events → ∀ i, env.write i = true) :
    Delivered (run events) ↔ ¬ Answered events := by
  have hconserved := run_conserved events
  rw [← run_freed_iff]
  constructor
  · intro hdelivered hfreed
    have heq := hdelivered hfreed
    rw [hconserved.parts, hconserved.emptied hfreed, List.append_nil,
      List.append_right_eq_self] at heq
    exact run_discarded hwrites hfreed heq
  · intro hnot hfreed
    exact absurd hfreed hnot

/-- A document root in which every name is a directory that cannot be scanned. -/
def refusedEnv : Env where
  stat _ := some ⟨.directory, 4096⟩
  openFile _ := some ⟨ascii "<ul>", fun _ => false⟩
  scandir _ := none
  write _ := true

/-- A request for one of them, and a write event. -/
def refusedRun : List Event :=
  [.read refusedEnv (ascii "GET /d HTTP/1.1\r\n\r\n"), .write 1000]

/-- What is queued there reaches the socket, and the connection is not freed. -/
theorem delivered_refused_directory :
    Delivered (run refusedRun) ∧ (run refusedRun).socket = (run refusedRun).queued ∧
      (run refusedRun).queued ≠ [] := by
  refine ⟨(delivered_iff fun env input h => ?_).mpr ?_, by decide +kernel, by decide +kernel⟩
  · simp only [refusedRun, List.mem_cons, Event.read.injEq, reduceCtorEq, List.not_mem_nil,
      or_false] at h
    obtain ⟨rfl, -⟩ := h
    exact fun _ => rfl
  · rw [← run_freed_iff]
    decide +kernel

/-- The response to a request for the file `a` is discarded before the socket could take it. -/
theorem response_discarded :
    ¬ ∀ events : List Event,
      (∀ env input, .read env input ∈ events → ∀ i, env.write i = true) →
      Delivered (run events) := by
  intro h
  have hdelivered := h [.read smallEnv (ascii "GET /a HTTP/1.1\r\n\r\n"), .write 1000] (by
    intro env input hmem
    simp only [List.mem_cons, Event.read.injEq, reduceCtorEq, List.not_mem_nil, or_false] at hmem
    obtain ⟨rfl, -⟩ := hmem
    exact fun _ => rfl)
  exact absurd (hdelivered (by decide +kernel)) (by decide +kernel)

end UnixNet.LibeventWeb
