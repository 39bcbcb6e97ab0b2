import UnixNet.EPollDemo.Server

/-!
# What the edge-triggered server writes to the terminal

`demo03` reads up to four bytes into an array of four zero bytes and writes the array, whatever the
`read` returned. `PrintsReceived` says that what it writes for a connection, from `Accept` on and as
long as it has not closed the connection, is what it has received on it; `prints_received_iff` says
for which runs this is so.
-/

namespace UnixNet.EPollDemo

open NetLib

/-- What was read of the connections of a descriptor. -/
def Server.received (s : Server) (fd : Nat) : Bytes :=
  s.reads.flatMap fun read => if read.1 = fd then read.2 else []

/-- What is written to the terminal for the connections of a descriptor. -/
def Output.text (fd : Nat) : Output → Bytes
  | .terminal conn text => if conn = fd then text.getD [] else []
  | .socket _ _ => []

/-- What was written to the terminal for the connections of a descriptor. -/
def Server.written (s : Server) (fd : Nat) : Bytes :=
  s.output.flatMap (Output.text fd)

/-- The events of a run of `demo03` with the state `accepted` after the connection of a descriptor
was accepted, and the state `s` in the end, where the server has not closed it. -/
def Connected (lfd fd : Nat) (events : List Event) (accepted s : Server) : Prop :=
  ∃ before during, events = before ++ [.accept fd] ++ during ∧ .accept fd ∉ during ∧
    runEvents (Demo03.step lfd) .start (before ++ [.accept fd]) = some accepted ∧
      runEvents (Demo03.step lfd) accepted during = some s ∧ s.kernel.interest fd ≠ none

/-- At every point of a run, what `demo03` has written for a connection is what it has received on
it. -/
def PrintsReceived (lfd : Nat) (events : List Event) : Prop :=
  ∀ fd done accepted s, done <+: events → Connected lfd fd done accepted s →
    ∃ data, s.received fd = accepted.received fd ++ data ∧
      s.written fd = accepted.written fd ++ data

variable {lfd fd n : Nat} {s next : Server} {event : Event}

/-! ## One event -/

/-- A `read` that returned `n` bytes: they are received, and the whole array is written. -/
def Server.printStep (s : Server) (fd n : Nat) : Server :=
  s.readStep fd n s.pc fun data => [.terminal fd (some (overwrite data (zeros 4)))]

theorem received_print_step (d : Nat) : (s.printStep fd n).received d =
    s.received d ++ if fd = d then (s.unread fd).take n else [] := by
  simp [Server.received, Server.printStep, Server.readStep]

theorem written_print_step (d : Nat) : (s.printStep fd n).written d =
    s.written d ++ if fd = d then overwrite ((s.unread fd).take n) (zeros 4) else [] := by
  simp [Server.written, Server.printStep, Server.readStep, Output.text]

/-- A descriptor with something unread is open. -/
theorem interest_of_unread (h : 0 < (s.unread fd).length) : s.kernel.interest fd ≠ none := by
  intro hnone
  rw [Kernel.interest, Option.map_eq_none_iff] at hnone
  rw [Server.unread, hnone] at h
  exact absurd h (by decide)

/-- When a `read` returns bytes, a descriptor is served that is open. -/
theorem step_read (h : Demo03.step lfd s (.read n) = some next) :
    ∃ fd, s.CanRead fd n 4 ∧ next = s.printStep fd n := by
  cases moves_of_step h with
  | serve _ _ fd rest hpc hne hserve =>
      obtain ⟨hcan, rfl⟩ := eq_of_guarded hserve
      exact ⟨fd, hcan, rfl⟩

/-- What an event does to the connection of a descriptor, unless it is that a connection is accepted
there: the descriptor is closed, or nothing is read or written, or a `read` returns some bytes. -/
def Continues (fd : Nat) (event : Event) (s next : Server) : Prop :=
  (s.kernel.interest fd = none → next.kernel.interest fd = none) ∧
    (next.kernel.interest fd = none ∨
      next.received fd = s.received fd ∧ next.written fd = s.written fd ∨
        ∃ n conn, event = .read n ∧ s.CanRead conn n 4 ∧ next = s.printStep conn n)

/-- An event that opens no descriptor, and with which nothing is read or written. -/
theorem Continues.of_silent (hopen : s.kernel.interest fd = none → next.kernel.interest fd = none)
    (hreads : next.reads = s.reads) (houtput : next.output = s.output) :
    Continues fd event s next := by
  refine ⟨hopen, .inr (.inl ⟨?_, ?_⟩)⟩
  · rw [Server.received, hreads, Server.received]
  · rw [Server.written, houtput, Server.written]

/-- A descriptor is closed, with the message. -/
theorem Continues.hang_up (conn : Nat) (pc : Pc) : Continues fd event s (s.hangUp conn pc) := by
  have hinterest : (s.hangUp conn pc).kernel.interest fd =
      if fd = conn then none else s.kernel.interest fd := interest_close
  by_cases hfd : fd = conn
  · rw [if_pos hfd] at hinterest
    exact ⟨fun _ => hinterest, .inl hinterest⟩
  · rw [if_neg hfd] at hinterest
    refine ⟨hinterest.trans, .inr (.inl ⟨rfl, ?_⟩)⟩
    have hne : ¬ conn = fd := fun heq => hfd heq.symm
    simp [Server.written, Server.hangUp, Output.text, hne]

/-- A round of the inner loop. -/
theorem Continues.serve {conn : Nat} {rest : List Nat}
    (h : Demo03.serve s conn rest event = some next) : Continues fd event s next := by
  cases event with
  | read n =>
      obtain ⟨hcan, rfl⟩ := eq_of_guarded h
      have hopen : (s.printStep conn n).kernel.interest fd = s.kernel.interest fd := interest_read
      exact ⟨hopen.trans, .inr (.inr ⟨n, conn, rfl, hcan, rfl⟩)⟩
  | readEof =>
      obtain ⟨-, rfl⟩ := eq_of_guarded h
      exact .hang_up conn _
  | readFailed errno =>
      simp only [Demo03.serve] at h
      split at h
      · obtain ⟨-, rfl⟩ := eq_of_guarded h
        exact .of_silent id rfl rfl
      · obtain rfl := Option.some.inj h
        refine .of_silent (fun hnone => ?_) rfl rfl
        show (s.kernel.del conn).interest fd = none
        rw [interest_del, hnone]
        exact ite_self _
  | traffic | forget | wait | waitFailed | accept | acceptFailed | add => cases h

/-- Every event but the one that a connection is accepted at the descriptor. -/
theorem Continues.step (h : Demo03.step lfd s event = some next) (hne : event ≠ .accept fd) :
    Continues fd event s next := by
  cases moves_of_step h with
  | traffic t k ht => exact .of_silent (interest_traffic ht).trans rfl rfl
  | forget d => exact .of_silent interest_forget.trans rfl rfl
  | wait batch hpc hnodup hready => exact .of_silent interest_report.trans rfl rfl
  | waitFailed hpc => exact .of_silent id rfl rfl
  | accept cfd rest x queue hpc hlfd hfree =>
      have hcfd : ¬ fd = cfd := fun heq => hne (heq ▸ rfl)
      refine .of_silent (fun hnone => ?_) rfl rfl
      show (s.kernel.open x queue cfd).interest fd = none
      rw [interest_open, if_neg hcfd, hnone]
  | acceptFailed rest hpc => exact .of_silent id rfl rfl
  | add cfd rest hpc =>
      refine .of_silent (fun hnone => ?_) rfl rfl
      show (s.kernel.add cfd).interest fd = none
      rw [interest_add, hnone]
      exact ite_self _
  | serve _ _ d rest hpc hlfd hserve => exact .serve hserve

/-! ## Runs -/

/-- The connection of an open descriptor was accepted at some time. -/
theorem connected_of_open {events : List Event}
    (hrun : runEvents (Demo03.step lfd) .start events = some s)
    (hopen : s.kernel.interest fd ≠ none) : ∃ accepted, Connected lfd fd events accepted s := by
  refine (run_events_induction (fun done s => runEvents (Demo03.step lfd) .start done = some s ∧
    (s.kernel.interest fd ≠ none → ∃ accepted, Connected lfd fd done accepted s)) ?_ ?_ hrun).2
      hopen
  · exact ⟨rfl, fun h => absurd rfl h⟩
  · rintro done s event next ⟨hdone, ih⟩ hstep
    have hnext := run_events_concat.mpr ⟨s, hdone, hstep⟩
    refine ⟨hnext, fun hstays => ?_⟩
    by_cases haccept : event = .accept fd
    · subst haccept
      exact ⟨next, done, [], (List.append_nil _).symm, List.not_mem_nil, hnext, rfl, hstays⟩
    · -- no other event opens the descriptor
      have hbefore := mt (Continues.step hstep haccept).1 hstays
      obtain ⟨accepted, before, during, rfl, hnot, hfirst, hlast, -⟩ := ih hbefore
      refine ⟨accepted, before, during ++ [event], (List.append_assoc _ _ _), ?_, hfirst,
        run_events_concat.mpr ⟨s, hlast, hstep⟩, hstays⟩
      rw [List.mem_append, List.mem_singleton, not_or]
      exact ⟨hnot, fun heq => haccept heq.symm⟩

/-- One more event while the connection stays open. -/
theorem Connected.concat {done : List Event} {accepted : Server}
    (h : Connected lfd fd done accepted s) (hstep : Demo03.step lfd s event = some next)
    (hne : event ≠ .accept fd) (hopen : next.kernel.interest fd ≠ none) :
    Connected lfd fd (done ++ [event]) accepted next := by
  obtain ⟨before, during, rfl, hnot, hfirst, hlast, -⟩ := h
  refine ⟨before, during ++ [event], List.append_assoc _ _ _, ?_, hfirst,
    run_events_concat.mpr ⟨s, hlast, hstep⟩, hopen⟩
  rw [List.mem_append, List.mem_singleton, not_or]
  exact ⟨hnot, fun heq => hne heq.symm⟩

/-- When every `read` that returns bytes returns four, what is written for a connection is what is
received on it. -/
theorem printed_of_four {events : List Event} {accepted : Server}
    (hfour : ∀ n, .read n ∈ events → n = 4) (hnot : .accept fd ∉ events)
    (hrun : runEvents (Demo03.step lfd) accepted events = some s) :
    s.kernel.interest fd = none ∨ ∃ data, s.received fd = accepted.received fd ++ data ∧
      s.written fd = accepted.written fd ++ data := by
  refine run_events_induction (fun done s => (∀ n, .read n ∈ done → n = 4) → .accept fd ∉ done →
    (s.kernel.interest fd = none ∨ ∃ data, s.received fd = accepted.received fd ++ data ∧
      s.written fd = accepted.written fd ++ data)) ?_ ?_ hrun hfour hnot
  · exact fun _ _ => .inr ⟨[], (List.append_nil _).symm, (List.append_nil _).symm⟩
  · intro done s event next ih hstep hfour hnot
    rw [List.mem_append, List.mem_singleton, not_or] at hnot
    -- a descriptor that is closed is not opened again, since it is not accepted again
    obtain ⟨hkeeps, hcases⟩ := Continues.step hstep fun heq => hnot.2 heq.symm
    rcases ih (fun n hn => hfour n (List.mem_append_left _ hn)) hnot.1 with
      hclosed | ⟨data, hin, hout⟩
    · exact .inl (hkeeps hclosed)
    · rcases hcases with hclosed | ⟨hreceived, hwritten⟩ | ⟨n, conn, rfl, hcan, rfl⟩
      · exact .inl hclosed
      · exact .inr ⟨data, hreceived.trans hin, hwritten.trans hout⟩
      · have hn : n = 4 := hfour n (List.mem_append_right _ (List.mem_singleton_self _))
        have hlength : ((s.unread conn).take n).length = 4 := by
          rw [List.length_take]
          omega
        have hwhole : overwrite ((s.unread conn).take n) (zeros 4) = (s.unread conn).take n := by
          rw [overwrite, hlength]
          exact List.append_nil _
        refine .inr ⟨data ++ if conn = fd then (s.unread conn).take n else [], ?_, ?_⟩
        · rw [received_print_step, hin, List.append_assoc]
        · rw [written_print_step, hout, hwhole, List.append_assoc]

/-- When what is written for a connection is always what is received on it, every `read` that
returns bytes returns four. -/
theorem four_of_printed {events : List Event}
    (hrun : runEvents (Demo03.step lfd) .start events = some s) (h : PrintsReceived lfd events)
    (hread : .read n ∈ events) : n = 4 := by
  obtain ⟨before, after, rfl⟩ := List.append_of_mem hread
  obtain ⟨mid, hbefore, hafter⟩ := run_events_split hrun
  obtain ⟨next, hstep, -⟩ := run_events_cons.mp hafter
  obtain ⟨conn, hcan, rfl⟩ := step_read hstep
  -- the connection is compared before this `read` and after it
  have hopen : mid.kernel.interest conn ≠ none :=
    interest_of_unread (Nat.lt_of_lt_of_le hcan.1 hcan.2.2)
  have hstays : (mid.printStep conn n).kernel.interest conn ≠ none := by
    rwa [show (mid.printStep conn n).kernel.interest conn = _ from interest_read]
  obtain ⟨accepted, hconn⟩ := connected_of_open hbefore hopen
  obtain ⟨first, hin, hout⟩ := h conn before accepted mid (List.prefix_append _ _) hconn
  have hprefix : before ++ [.read n] <+: before ++ .read n :: after :=
    (List.prefix_append_right_inj before).mpr (List.prefix_append [.read n] after)
  obtain ⟨second, hin2, hout2⟩ := h conn _ accepted _ hprefix
    (hconn.concat hstep (by simp) hstays)
  rw [received_print_step, if_pos rfl, hin, List.append_assoc] at hin2
  rw [written_print_step, if_pos rfl, hout, List.append_assoc] at hout2
  have hsame : overwrite ((mid.unread conn).take n) (zeros 4) = (mid.unread conn).take n := by
    have hboth : first ++ overwrite ((mid.unread conn).take n) (zeros 4) =
        first ++ (mid.unread conn).take n := by
      rw [List.append_cancel_left hout2, List.append_cancel_left hin2]
    exact List.append_cancel_left hboth
  -- the array has four bytes, and so has what was read
  have hlength := congrArg List.length hsame
  have hsize : ((mid.unread conn).take n).length = n := by
    rw [List.length_take]
    omega
  rw [length_overwrite (by rw [hsize]; exact hcan.2.1), hsize] at hlength
  exact hlength.symm

/-- What `demo03` writes for each connection is what it has received on it if and only if every
`read` that returns bytes returns four. -/
theorem prints_received_iff {events : List Event}
    (hrun : runEvents (Demo03.step lfd) .start events = some s) :
    PrintsReceived lfd events ↔ ∀ n, .read n ∈ events → n = 4 := by
  refine ⟨fun h n => four_of_printed hrun h, fun hfour fd done accepted s hprefix hconn => ?_⟩
  obtain ⟨before, during, rfl, hnot, hfirst, hlast, hopen⟩ := hconn
  refine (printed_of_four (fun n hn => hfour n ?_) hnot hlast).resolve_left hopen
  exact hprefix.subset (List.mem_append_right _ hn)

/-- A client connects and sends some bytes, which are read at once. -/
def sends (data : Bytes) : List Event :=
  [.traffic .connect, .wait [3], .accept 5, .add, .traffic (.send (.accepted 5) data), .wait [5],
    .read data.length, .readFailed .eagain]

/-- Four bytes are written as they are. -/
theorem prints_four_bytes : PrintsReceived 3 (sends (ascii "abcd")) :=
  have hrun : ∃ s, runEvents (Demo03.step 3) .start (sends (ascii "abcd")) = some s := ⟨_, rfl⟩
  (prints_received_iff hrun.choose_spec).mpr (by simp [sends, ascii, charBytes])

/-- One byte is written with three zero bytes behind it. -/
theorem not_prints_one_byte : ¬ PrintsReceived 3 (sends (ascii "a")) := by
  intro h
  have hrun : ∃ s, runEvents (Demo03.step 3) .start (sends (ascii "a")) = some s := ⟨_, rfl⟩
  have hfour := four_of_printed hrun.choose_spec h (n := 1) (by simp [sends, ascii, charBytes])
  cases hfour

end UnixNet.EPollDemo
