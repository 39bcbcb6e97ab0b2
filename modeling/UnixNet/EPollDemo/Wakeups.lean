import UnixNet.EPollDemo.Server

/-!
# The edge-triggered server misses no wake-up

When `demo03` calls `epoll_wait`, every listed connection with something unread is pending, whatever
the clients have done between its steps. `Attentive` is what holds at every step: a connection that
is asleep is among those of the `for` loop that are left to be drained.
-/

namespace UnixNet.EPollDemo

open NetLib

/-- The listening descriptor is no connection, and every connection that is asleep is among the
reported ones that the `for` loop is not done with. -/
structure Attentive (lfd : Nat) (s : Server) : Prop where
  listener : s.kernel.interest lfd = none
  awake : s.pc ≠ .ended → ∀ fd, s.kernel.Asleep fd → fd ∈ s.pc.batch

variable {lfd : Nat} {s next : Server} {event : Event}

/-- A connection is not at the listening descriptor. -/
theorem Attentive.ne_listener (h : Attentive lfd s) {fd : Nat} {c : Conn UInt8}
    (hc : s.kernel.conn fd = some c) : fd ≠ lfd := by
  rintro rfl
  have hnone := h.listener
  rw [Kernel.interest, hc] at hnone
  cases hnone

/-- The `for` loop goes on behind a descriptor that is not asleep. -/
theorem Attentive.leave (h : Attentive lfd s) {fd : Nat} {rest : List Nat}
    (hpc : s.pc = .serving (fd :: rest)) (hnext : next.pc = forLoop rest)
    (hlistener : next.kernel.interest lfd = none)
    (hasleep : ∀ d, next.kernel.Asleep d → d ≠ fd ∧ s.kernel.Asleep d) : Attentive lfd next := by
  refine ⟨hlistener, fun _ d hd => ?_⟩
  obtain ⟨hne, hbefore⟩ := hasleep d hd
  have hmem := h.awake (by rw [hpc]; simp) d hbefore
  rw [hpc] at hmem
  rw [hnext, batch_forLoop]
  exact (List.mem_cons.mp hmem).resolve_left hne

/-- The inner loop leaves a connection when nothing can be read, or when it has closed it. -/
theorem Attentive.serve (h : Attentive lfd s) {fd : Nat} {rest : List Nat}
    (hpc : s.pc = .serving (fd :: rest)) (hstep : Demo03.serve s fd rest event = some next) :
    Attentive lfd next := by
  cases event with
  | read n =>
      obtain ⟨-, rfl⟩ := eq_of_guarded hstep
      refine ⟨interest_read.trans h.listener, fun hended d hd => ?_⟩
      show d ∈ s.pc.batch
      rcases asleep_read hd with hd | rfl
      · exact h.awake hended d hd
      · rw [hpc]
        exact List.mem_cons_self
  | readEof =>
      obtain ⟨-, rfl⟩ := eq_of_guarded hstep
      refine h.leave hpc rfl ?_ fun d hd => asleep_close hd
      show (s.kernel.close fd).interest lfd = none
      rw [interest_close]
      split
      · rfl
      · exact h.listener
  | readFailed errno =>
      simp only [Demo03.serve] at hstep
      split at hstep
      · -- EAGAIN: the connection is not asleep, for there is nothing to read
        obtain ⟨hreadable, rfl⟩ := eq_of_guarded hstep
        refine h.leave hpc rfl h.listener fun d hd => ⟨?_, hd⟩
        rintro rfl
        rw [readable_of_asleep hd] at hreadable
        cases hreadable
      · obtain rfl := Option.some.inj hstep
        refine ⟨?_, fun hended d hd => h.awake hended d (asleep_del hd)⟩
        show (s.kernel.del fd).interest lfd = none
        rw [interest_del, h.listener]
        simp
  | traffic | forget | wait | waitFailed | accept | acceptFailed | add => cases hstep

/-- Every event keeps every connection that is asleep in the `for` loop. -/
theorem Attentive.step (h : Attentive lfd s) (hstep : Demo03.step lfd s event = some next) :
    Attentive lfd next := by
  cases moves_of_step hstep with
  | traffic t k ht =>
      exact ⟨(interest_traffic ht).trans h.listener,
        fun hpc d hd => h.awake hpc d (asleep_traffic ht hd)⟩
  | forget fd =>
      exact ⟨interest_forget.trans h.listener, fun hpc d hd => h.awake hpc d (asleep_forget hd)⟩
  | wait batch hpc hnodup hready =>
      refine ⟨interest_report.trans h.listener, fun _ d hd => ?_⟩
      show d ∈ (forLoop batch).batch
      rw [batch_forLoop]
      -- the batch is new, and nothing was asleep before it
      refine (asleep_report hd).resolve_left fun hd => ?_
      have hmem := h.awake (by rw [hpc]; simp) d hd
      rw [hpc] at hmem
      exact List.not_mem_nil hmem
  | waitFailed hpc => exact ⟨h.listener, fun hended => absurd rfl hended⟩
  | accept cfd rest x queue hpc hne hfree =>
      refine ⟨?_, fun _ d hd => ?_⟩
      · show (s.kernel.open x queue cfd).interest lfd = none
        rw [interest_open, if_neg hne.symm]
        exact h.listener
      · -- what was asleep before is behind the listening descriptor
        have hasleep := asleep_open hd
        have hmem := h.awake (by rw [hpc]; simp) d hasleep
        obtain ⟨c, hc, -⟩ := hasleep
        rw [hpc] at hmem
        exact (List.mem_cons.mp hmem).resolve_left (h.ne_listener hc)
  | acceptFailed rest hpc => exact ⟨h.listener, fun hended => absurd rfl hended⟩
  | add cfd rest hpc =>
      refine ⟨?_, fun _ d hd => ?_⟩
      · show (s.kernel.add cfd).interest lfd = none
        rw [interest_add, h.listener]
        simp
      · have hmem := h.awake (by rw [hpc]; simp) d (asleep_add hd)
        rw [hpc] at hmem
        show d ∈ (forLoop rest).batch
        rwa [batch_forLoop]
  | serve _ _ fd rest hpc hne hserve => exact h.serve hpc hserve

/-- It holds in every run. -/
theorem attentive_of_run {events : List Event}
    (h : runEvents (Demo03.step lfd) .start events = some s) : Attentive lfd s :=
  run_events_induction (fun _ s => Attentive lfd s)
    ⟨rfl, fun _ _ ⟨_, hc, _⟩ => nomatch hc⟩ (fun _ _ _ _ hdone hstep => hdone.step hstep) h

/-- Every time `demo03` calls `epoll_wait`, a connection in the interest list that has unread bytes,
or that the client has closed, is pending, so that the call can report it, however the clients have
sent and closed between the steps of the server. -/
theorem no_lost_wakeup {events : List Event}
    (h : runEvents (Demo03.step lfd) .start events = some s) (hwait : s.pc = .waiting) {fd : Nat}
    {c : Conn UInt8} (hc : s.kernel.conn fd = some c) (hlisted : c.interest = .listed)
    (hreadable : c.inbox.readable = true) :
    c.pending = true ∧ ∃ next, Demo03.step lfd s (.wait [fd]) = some next ∧
      next.pc = .serving [fd] := by
  have hattentive := attentive_of_run h
  have hpending : c.pending = true := by
    by_contra hnot
    have hmem := hattentive.awake (by rw [hwait]; simp) fd
      ⟨c, hc, hlisted, hreadable, Bool.eq_false_iff.mpr hnot⟩
    rw [hwait] at hmem
    exact List.not_mem_nil hmem
  have hne : fd ≠ lfd := hattentive.ne_listener hc
  have hedge : s.kernel.edge fd = true := by
    rw [Kernel.edge, hc, Option.any_some, hlisted, hpending, hreadable]
    rfl
  exact ⟨hpending, _, if_pos ⟨hwait, by simp, by simp, by simp [hne, hedge]⟩, rfl⟩

/-- A client sends before it is accepted, before it is put into the list, and between the reads of
the inner loop, the last time after the EAGAIN that ends it. -/
def sendsBetweenSteps : List Event :=
  [.traffic .connect, .wait [3], .traffic (.send (.queued 0) (ascii "abc")), .accept 4,
    .traffic (.send (.accepted 4) (ascii "de")), .add, .wait [4], .read 4,
    .traffic (.send (.accepted 4) (ascii "fg")), .read 3, .readFailed .eagain,
    .traffic (.send (.accepted 4) (ascii "h"))]

/-- The last byte is reported. -/
theorem no_lost_wakeup_between_steps :
    ∃ s c, runEvents (Demo03.step 3) .start sendsBetweenSteps = some s ∧
      s.kernel.conn 4 = some c ∧ c.inbox.unread = ascii "h" ∧ c.pending = true := by
  have hrun : ∃ s, runEvents (Demo03.step 3) .start sendsBetweenSteps = some s := ⟨_, rfl⟩
  obtain ⟨s, hrun⟩ := hrun
  have hs := Option.some.inj hrun
  have hconn : s.kernel.conn 4 = some ⟨⟨ascii "h", false⟩, .listed, true⟩ := by
    rw [← hs]
    rfl
  exact ⟨s, _, hrun, hconn, rfl, (no_lost_wakeup hrun (by rw [← hs]; rfl) hconn rfl rfl).1⟩

end UnixNet.EPollDemo
