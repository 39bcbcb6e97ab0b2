import UnixNet.LibeventWeb.Connection

/-!
# Who frees a connection of the libevent web server

`processingRequests` frees the connection at the end of a response, and nobody else does:
`listener_cb` registers no event callback. So no connection is freed twice or used after that, but
one is freed only if a request is answered (`freed_exactly_once_iff`).
-/

namespace UnixNet.LibeventWeb

open NetLib UnixNet.Bufferevent

/-- Nothing is done to the `bufferevent` after it was freed, and so it is not freed again. -/
structure NeverUsedFreed (conn : Connection) : Prop where
  once : conn.uses.count (.call .free) ≤ 1
  last : ∀ before after, conn.uses = before ++ .call .free :: after → after = []

/-- The `bufferevent` was freed, once, and nothing was done to it after that. -/
structure FreedExactlyOnce (conn : Connection) : Prop extends NeverUsedFreed conn where
  freed : .call .free ∈ conn.uses

/-- The `bufferevent_free` is the last use of a connection that is freed, and there is none of
another. -/
def Owned (conn : Connection) : Prop :=
  ∃ init, .call .free ∉ init ∧
    conn.uses = init ++ if conn.status = .freed then [.call .free] else []

/-- A connection whose only free is its last use is not used after that. -/
theorem Owned.never_used_freed {conn : Connection} (h : Owned conn) : NeverUsedFreed conn := by
  obtain ⟨init, hinit, huses⟩ := h
  have hcount : init.count (.call .free) = 0 := List.count_eq_zero.mpr hinit
  constructor
  · rw [huses, List.count_append, hcount]
    split <;> simp
  · intro before after heq
    rw [huses] at heq
    have hfreed : conn.status = .freed := by
      by_contra hnot
      rw [if_neg hnot, List.append_nil] at heq
      exact hinit (heq ▸ by simp)
    rw [if_pos hfreed] at heq
    rcases List.append_eq_append_iff.mp heq with ⟨more, -, hmore⟩ | ⟨more, hmore, hafter⟩
    · -- the free in the middle is the one at the end
      have hlength := congrArg List.length hmore
      simp only [List.length_append, List.length_cons, List.length_nil] at hlength
      exact List.eq_nil_of_length_eq_zero (by omega)
    · cases more with
      | nil => exact (List.cons.inj hafter).2
      | cons use more =>
          -- a free in the middle would be one of `init`
          obtain ⟨rfl, -⟩ := List.cons.inj hafter
          exact absurd (hmore ▸ by simp) hinit

/-- Such a connection was freed if its status says so. -/
theorem Owned.mem_iff {conn : Connection} (h : Owned conn) :
    .call .free ∈ conn.uses ↔ conn.status = .freed := by
  obtain ⟨init, hinit, huses⟩ := h
  rw [huses, List.mem_append, or_iff_right hinit]
  split <;> simp_all

/-- A read callback keeps the free last. -/
theorem read_cb_owned {conn : Connection} (hlive : conn.status = .live) (h : Owned conn) (env : Env)
    (input : Bytes) : Owned (conn.readCb env input) := by
  obtain ⟨init, hinit, huses⟩ := h
  rw [hlive, if_neg (by decide), List.append_nil] at huses
  have hread : .call .free ∉ init ++ [Use.read] := by
    simpa using hinit
  unfold Connection.readCb
  simp only [huses]
  split
  · exact ⟨_, hread, by simp⟩
  · exact ⟨_, hread, by simp [hlive]⟩
  · next path _ =>
      obtain ⟨made, hmade, hcalls⟩ := processing_requests_free env path
      have hcallsInit : .call .free ∉ init ++ [Use.read] ++ made.map .call := by
        simp only [List.mem_append, not_or] at hread ⊢
        exact ⟨hread, by simpa using hmade⟩
      refine ⟨_, hcallsInit, ?_⟩
      rw [foldl_processing_requests, hcalls]
      cases frees env path with
      | true => simp
      | false => simp [hlive]

/-- In every run the free comes last. -/
theorem run_owned (events : List Event) : Owned (run events) := by
  refine List.foldlRecOn events Connection.step ⟨[], List.not_mem_nil, rfl⟩ ?_
  intro conn h event _
  rcases step_cases conn event with ⟨env, input, hlive, -, hstep⟩ | ⟨count, -, -, hstep⟩ | hstep
  · rw [hstep]
    exact read_cb_owned hlive h env input
  · rw [hstep]
    exact h
  · rwa [hstep]

/-- Which connections are freed exactly once. In every run, whatever arrives, whatever the file
system answers and whenever the peer closes the connection or the socket has an error: the
connection is not freed twice and not used after it was freed. It has been freed when all callbacks
have run if and only if some read callback got a GET request for a path that does not exist, a
regular file or a directory that could be scanned, and no scan before that ran out of its arrays. -/
theorem freed_exactly_once_iff (events : List Event) :
    NeverUsedFreed (run events) ∧ (FreedExactlyOnce (run events) ↔ Answered events) := by
  have howned := run_owned events
  refine ⟨howned.never_used_freed, ?_⟩
  rw [← run_freed_iff, ← howned.mem_iff]
  exact ⟨fun h => h.freed, fun h => ⟨howned.never_used_freed, h⟩⟩

/-- A connection whose peer closes it without a request is never freed. -/
theorem closed_connection_leaks : ¬ ∀ events : List Event, FreedExactlyOnce (run events) := by
  intro h
  exact absurd (h [.peerClosed]).freed (by decide)

end UnixNet.LibeventWeb
