import UnixNet.EpollWeb.Server

/-!
# Connections are kept apart

`my_read` has one buffer for all descriptors, but a drain loop that comes to its end leaves it
empty: the loop is left through a failing `Readline` only. So the buffer is empty whenever the
loop body is entered, and the request line of an event comes from the connection the event is
about. Read `request_line_isolated` first; `invariant_step` is what a step keeps.
-/

namespace UnixNet.EpollWeb

open NetLib UnixNet.Wrap

/-- A descriptor that may be reported: the listening one or an open connection. -/
def Server.Watched (s : Server) (lfd fd : Nat) : Prop :=
  fd = lfd ∨ (s.sockets fd).isSome = true

/-- The events still to be handled. -/
def Control.pending : Control → List Event
  | .wait => []
  | .batch events => events

/-- What holds between any two steps of the main loop. -/
structure Invariant (lfd : Nat) (s : Server) (control : Control) : Prop where
  drained : s.rb.readCnt ≤ 0
  listening : s.sockets lfd = none
  watched : ∀ fd ∈ s.interest, s.Watched lfd fd
  nodup : (control.pending.map Event.fd).Nodup
  pending : ∀ event ∈ control.pending, s.Watched lfd event.fd

variable {lfd : Nat}

/-- A drain loop that comes to its end leaves no unread byte. -/
theorem drain_empties {fuel : Nat} {r final : Reader}
    (h : whileLoop drainRound fuel r = some final) : final.rb.readCnt ≤ 0 := by
  obtain ⟨last, htest, rfl⟩ := while_loop_exit h
  refine readline_cnt ?_
  have hret : ¬ 0 ≤ (readline 1500 last).1.ret := by
    simpa [drainRound] using htest
  omega

/-- What `serve` returns is the state before with one descriptor read, and perhaps closed. -/
theorem Server.serve_spec {s : Server} {env : Env} {fuel fd : Nat} {result : Action × Server}
    (h : s.serve env fuel fd = some result) :
    result.2.rb.readCnt ≤ 0 ∧
      (∀ d, d ≠ fd → result.2.sockets d = s.sockets d) ∧
      ((result.2.interest = s.interest ∧
          (result.2.sockets fd).isSome = (s.sockets fd).isSome) ∨
        (result.2.interest = s.interest.filter (· ≠ fd) ∧ result.2.sockets fd = none)) := by
  obtain ⟨-, -, final, hdrain, hnext⟩ := Server.serve_eq_some h
  rw [hnext]
  refine ⟨drain_empties hdrain, ?_, ?_⟩
  · intro d hd
    rw [(Server.sockets_of_ne _ final hd).1, s.respond_sockets_of_ne env hd]
  · rcases s.respond_cases env fd with ⟨hinterest, hopen⟩ | ⟨hinterest, hclosed⟩
    · left
      exact ⟨hinterest, by rw [Server.is_some_set_reader, hopen]⟩
    · right
      refine ⟨hinterest, ?_⟩
      rw [← Option.not_isSome_iff_eq_none, Server.is_some_set_reader, hclosed]
      simp

/-- A new connection keeps the invariant. -/
theorem Invariant.accept {s : Server} {event : Event} {rest : List Event} {cfd : Nat}
    (input : Source UInt8 100) (h : Invariant lfd s (.batch (event :: rest))) (hcfd : cfd ≠ lfd) :
    Invariant lfd (s.accept cfd input) (.batch rest) := by
  have hwatched : ∀ fd, s.Watched lfd fd → (s.accept cfd input).Watched lfd fd := by
    intro fd hfd
    rcases hfd with rfl | hopen
    · exact .inl rfl
    · right
      show (if fd = cfd then some input else s.sockets fd).isSome = true
      split
      · rfl
      · exact hopen
  refine ⟨h.drained, ?_, ?_, (List.nodup_cons.mp h.nodup).2, ?_⟩
  · show (if lfd = cfd then some input else s.sockets lfd) = none
    rw [if_neg (Ne.symm hcfd)]
    exact h.listening
  · intro fd hfd
    rcases List.mem_append.mp hfd with hfd | hfd
    · exact hwatched fd (h.watched fd hfd)
    · right
      obtain rfl := List.mem_singleton.mp hfd
      simp [Server.accept]
  · intro e he
    exact hwatched e.fd (h.pending e (List.mem_cons_of_mem _ he))

/-- Handling an event of a client keeps the invariant. -/
theorem Invariant.serve {s : Server} {event : Event} {rest : List Event} {env : Env} {fuel : Nat}
    {result : Action × Server} (h : Invariant lfd s (.batch (event :: rest)))
    (hfd : event.fd ≠ lfd) (hserve : s.serve env fuel event.fd = some result) :
    Invariant lfd result.2 (.batch rest) := by
  obtain ⟨hdrained, hothers, hself⟩ := Server.serve_spec hserve
  refine ⟨hdrained, ?_, ?_, (List.nodup_cons.mp h.nodup).2, ?_⟩
  · show result.2.sockets lfd = none
    rw [hothers lfd (Ne.symm hfd)]
    exact h.listening
  · intro fd hinterest
    -- the socket that was served stays, or is removed from the interest list
    rcases hself with ⟨hsame, hopen⟩ | ⟨hremoved, -⟩
    · rcases h.watched fd (hsame ▸ hinterest) with rfl | hwatched
      · exact .inl rfl
      · right
        by_cases heq : fd = event.fd
        · rw [heq, hopen, ← heq]
          exact hwatched
        · rw [hothers fd heq]
          exact hwatched
    · rw [hremoved, List.mem_filter] at hinterest
      obtain ⟨hmem, hneq⟩ := hinterest
      rcases h.watched fd hmem with rfl | hwatched
      · exact .inl rfl
      · right
        rw [hothers fd (by simpa using hneq)]
        exact hwatched
  · -- a batch names each descriptor once: the other events are about other descriptors
    intro e he
    have hother : e.fd ≠ event.fd := by
      intro heq
      exact (List.nodup_cons.mp h.nodup).1 (heq ▸ List.mem_map_of_mem he)
    rcases h.pending e (List.mem_cons_of_mem _ he) with hlfd | hwatched
    · exact .inl hlfd
    · right
      rw [hothers e.fd hother]
      exact hwatched

/-- Every step of the main loop keeps the invariant. -/
theorem invariant_step {state next : Server × Control} (h : Invariant lfd state.1 state.2)
    (hstep : Step lfd state next) : Invariant lfd next.1 next.2 := by
  cases hstep with
  | idle s => exact h
  | wake s events _ hnodup hregistered =>
      exact ⟨h.drained, h.listening, h.watched, hnodup,
        fun event hevent => h.watched _ (hregistered event hevent)⟩
  | finish s => exact ⟨h.drained, h.listening, h.watched, List.nodup_nil, by simp [Control.pending]⟩
  | accept s event rest cfd input _ _ hcfd _ => exact h.accept input hcfd
  | serve s event rest env fuel result hfd _ hserve => exact h.serve hfd hserve
  | skip s event rest =>
      exact ⟨h.drained, h.listening, h.watched, (List.nodup_cons.mp h.nodup).2,
        fun e he => h.pending e (List.mem_cons_of_mem _ he)⟩

/-- The invariant holds in every state of every run. -/
theorem reachable_inv {state : Server × Control} (h : Reachable lfd state) :
    Invariant lfd state.1 state.2 := by
  have hstart : Invariant lfd (Server.start lfd) .wait := by
    refine ⟨Int.le_refl 0, rfl, ?_, List.nodup_nil, by simp [Control.pending]⟩
    intro fd hfd
    exact .inl (List.mem_singleton.mp hfd)
  exact reachable_invariant (fun state => Invariant lfd state.1 state.2) hstart
    (fun _ _ hinv hstep => invariant_step hinv hstep) h

/-- Isolation. Whenever the body of the event loop is entered, the static buffer holds no unread
byte. So for an event on a client's descriptor, which denotes an open connection at that moment,
the line that the body parses is the beginning of the bytes which that connection delivers during
the call of `Readline`: what the body does is `handleLine` of that line. -/
theorem request_line_isolated {s : Server} {event : Event} {rest : List Event}
    (h : Reachable lfd (s, .batch (event :: rest))) :
    s.rb.readCnt ≤ 0 ∧
      (event.fd ≠ lfd → ∃ input, s.sockets event.fd = some input ∧
        ∃ line after got, readline 1500 (s.reader event.fd) = (line, after) ∧
          input.Delivered after.src got ∧ line.stored <+: got ∧
          (∀ env, (s.respond env event.fd).1 = handleLine env line) ∧
          ∀ env fuel result, s.serve env fuel event.fd = some result →
            result.1 = handleLine env line) := by
  have hinv := reachable_inv h
  refine ⟨hinv.drained, ?_⟩
  intro hclient
  rcases hinv.pending event List.mem_cons_self with hlfd | hopen
  · exact absurd hlfd hclient
  obtain ⟨input, hinput⟩ := Option.isSome_iff_exists.mp hopen
  obtain ⟨got, hgot, hline⟩ := readline_took 1500 (s.reader event.fd)
  have hempty : (s.reader event.fd).rb.unread = [] :=
    ReadBuffer.unread_of_cnt_nonpos hinv.drained
  rw [hempty, List.nil_append] at hline
  refine ⟨input, hinput, (readline 1500 (s.reader event.fd)).1,
    (readline 1500 (s.reader event.fd)).2, got, rfl, ?_, ⟨_, hline.symm⟩, ?_, ?_⟩
  · exact Server.reader_src hinput ▸ hgot
  · intro env
    exact s.respond_action env event.fd
  · intro env fuel result hserve
    rw [(Server.serve_eq_some hserve).1, s.respond_action]

/-- A client that has sent one request line and then nothing. -/
def oneLine : Source UInt8 100 :=
  .ofStream getRequest (.fail .eagain)

/-- A first client connects, and an event on its descriptor is reported. -/
theorem first_event_reachable (input : Source UInt8 100) :
    Reachable 3 ((Server.start 3).accept 4 input, .batch [⟨4, true⟩]) := by
  have hwake : Step 3 (.start 3, .wait) (.start 3, .batch [⟨3, true⟩]) :=
    .wake _ _ (by decide) (by decide) (by simp [Server.start])
  have haccept : Step 3 (.start 3, .batch [⟨3, true⟩])
      ((Server.start 3).accept 4 input, .batch []) :=
    .accept _ _ _ 4 input rfl rfl (by decide) rfl
  have hagain : Step 3 ((Server.start 3).accept 4 input, .wait)
      ((Server.start 3).accept 4 input, .batch [⟨4, true⟩]) :=
    .wake _ _ (by decide) (by decide) (by simp [Server.start, Server.accept])
  exact (((Relation.ReflTransGen.single hwake).tail haccept).tail (.finish _)).tail hagain

/-- The first line of the first client. -/
theorem request_line_isolated_first :
    ((Server.start 3).accept 4 oneLine).rb.readCnt ≤ 0 ∧
      ((4 : Nat) ≠ 3 → ∃ input, ((Server.start 3).accept 4 oneLine).sockets 4 = some input ∧
        ∃ line after got,
          readline 1500 (((Server.start 3).accept 4 oneLine).reader 4) = (line, after) ∧
          input.Delivered after.src got ∧ line.stored <+: got ∧
          (∀ env, (((Server.start 3).accept 4 oneLine).respond env 4).1 = handleLine env line) ∧
          ∀ env fuel result, ((Server.start 3).accept 4 oneLine).serve env fuel 4 = some result →
            result.1 = handleLine env line) :=
  request_line_isolated (first_event_reachable oneLine)

end UnixNet.EpollWeb
