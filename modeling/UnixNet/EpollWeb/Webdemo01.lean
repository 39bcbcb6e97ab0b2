import UnixNet.Lib.Echo
import UnixNet.Lib.Execution

/-!
# The epoll echo server

`webdemo01.c` prints what a client sends and sends it back. It closes a connection when a read
returns 0, and for no other reason: when a read fails, the -1 that `Read` returns is the length of
the two writes. `Server.iterate` is the body of the main loop, with the descriptors that
`epoll_wait` reported; at the top of the loop the interest list is the listening descriptor and the
open connections (`interest_list_invariant`).
-/

namespace UnixNet.Webdemo01

open NetLib

/-- The system calls of the main loop. -/
inductive Call where
  | accept (ret : Option Nat)
  | add (fd : Nat)
  | read (fd : Nat)
  | del (fd : Nat)
  | close (fd : Nat)
  | write (fd : Nat) (w : WriteCall)

/-- The interest list, the connections that were accepted and not closed, and the calls made so
far. -/
structure Server where
  interest : List Nat
  opened : List Nat
  calls : List Call

/-- The server before its first `epoll_wait`. -/
def Server.start (lfd : Nat) : Server where
  interest := [lfd]
  opened := []
  calls := [.add lfd]

/-- An element of `events`, with what the calls for it return: `accept` is `none` when `Accept`
gives up, and `Read` has repeated what failed with EINTR. `stale` is what the buffer holds, which is
not initialised. -/
inductive Ready where
  | listening (accept : Option Nat)
  | client (fd : Nat) (read : Except Ending (Chunk UInt8 1024)) (stale : Bytes)

/-- What follows a `Read` that returned `len`. -/
def reply (stale : Bytes) : Except Ending (Chunk UInt8 1024) → Reply
  | .error .eof => .close
  | .error (.fail _) => .answer [⟨.stdout, stale, -1⟩, ⟨.peer, stale, -1⟩]
  | .ok chunk =>
      .answer [⟨.stdout, overwrite chunk.data stale, chunk.data.length⟩,
        ⟨.peer, overwrite chunk.data stale, chunk.data.length⟩]

/-- One more call. -/
def Server.call (s : Server) (c : Call) : Server :=
  { s with calls := s.calls ++ [c] }

/-- `int cfd = Accept(lfd, NULL, NULL)` and `EPOLL_CTL_ADD`, and whether the process goes on. -/
def Server.accept (s : Server) (ret : Option Nat) : Bool × Server :=
  let s := s.call (.accept ret)
  match ret with
  | none => (false, s)
  | some cfd =>
      (true, { s.call (.add cfd) with
        interest := s.interest ++ [cfd], opened := s.opened ++ [cfd] })

/-- `EPOLL_CTL_DEL` and `close`. -/
def Server.hangUp (s : Server) (fd : Nat) : Server :=
  { (s.call (.del fd)).call (.close fd) with
    interest := s.interest.filter (· ≠ fd), opened := s.opened.filter (· ≠ fd) }

/-- The branch for a client. -/
def Server.serve (s : Server) (fd : Nat) (read : Except Ending (Chunk UInt8 1024))
    (stale : Bytes) : Server :=
  let s := s.call (.read fd)
  match reply stale read with
  | .answer writes => { s with calls := s.calls ++ writes.map (.write fd) }
  | .close | .exit => s.hangUp fd

/-- `for (int i = 0; i < nready; i++)` over the events still to be handled, and whether the process
goes on. -/
def Server.iterate (s : Server) : List Ready → Bool × Server
  | [] => (true, s)
  | .listening ret :: rest =>
      match s.accept ret with
      | (false, s) => (false, s)
      | (true, s) => s.iterate rest
  | .client fd read stale :: rest => (s.serve fd read stale).iterate rest

/-- `accept` returns descriptors that are not open, and `epoll_wait` reports clients that are in the
interest list. -/
def Possible (lfd : Nat) : Server → List Ready → Prop
  | _, [] => True
  | s, .listening ret :: rest =>
      (∀ cfd, ret = some cfd → cfd ≠ lfd ∧ cfd ∉ s.opened) ∧ Possible lfd (s.accept ret).2 rest
  | s, .client fd read stale :: rest =>
      (fd ≠ lfd ∧ fd ∈ s.interest) ∧ Possible lfd (s.serve fd read stale) rest

/-- One round of the main loop that does not end the process. -/
inductive Step (lfd : Nat) : Server → Server → Prop where
  | round (s : Server) (events : List Ready) :
      Possible lfd s events → (s.iterate events).1 = true → Step lfd s (s.iterate events).2

/-- The states at the top of the main loop. -/
def Reachable (lfd : Nat) (s : Server) : Prop :=
  Relation.ReflTransGen (Step lfd) (Server.start lfd) s

/-! ## The interest list -/

/-- The interest list is the listening descriptor and the open connections. -/
def Invariant (lfd : Nat) (s : Server) : Prop :=
  s.interest = lfd :: s.opened ∧ lfd ∉ s.opened

variable {lfd : Nat} {s : Server}

/-- A new connection is watched. -/
theorem Invariant.accept (h : Invariant lfd s) {ret : Option Nat}
    (hnew : ∀ cfd, ret = some cfd → cfd ≠ lfd ∧ cfd ∉ s.opened) :
    Invariant lfd (s.accept ret).2 := by
  obtain ⟨hlist, hlfd⟩ := h
  cases ret with
  | none => exact ⟨hlist, hlfd⟩
  | some cfd =>
      refine ⟨?_, ?_⟩
      · show s.interest ++ [cfd] = lfd :: (s.opened ++ [cfd])
        rw [hlist, List.cons_append]
      · show lfd ∉ s.opened ++ [cfd]
        rw [List.mem_append, List.mem_singleton]
        rintro (hmem | heq)
        · exact hlfd hmem
        · exact (hnew cfd rfl).1 heq.symm

/-- A connection that is closed is not watched any more. -/
theorem Invariant.serve (h : Invariant lfd s) {fd : Nat} (hfd : fd ≠ lfd)
    (read : Except Ending (Chunk UInt8 1024)) (stale : Bytes) :
    Invariant lfd (s.serve fd read stale) := by
  obtain ⟨hlist, hlfd⟩ := h
  have hhangUp : Invariant lfd ((s.call (.read fd)).hangUp fd) := by
    refine ⟨?_, ?_⟩
    · show s.interest.filter (· ≠ fd) = lfd :: s.opened.filter (· ≠ fd)
      rw [hlist, List.filter_cons_of_pos (by simpa using hfd.symm)]
    · show lfd ∉ s.opened.filter (· ≠ fd)
      exact fun hmem => hlfd (List.mem_of_mem_filter hmem)
  unfold Server.serve
  cases hreply : reply stale read with
  | answer writes => exact ⟨hlist, hlfd⟩
  | close => exact hhangUp
  | exit => exact hhangUp

/-- A round keeps the list right. -/
theorem Invariant.iterate (h : Invariant lfd s) {events : List Ready}
    (hpossible : Possible lfd s events) : Invariant lfd (s.iterate events).2 := by
  induction events generalizing s with
  | nil => exact h
  | cons ready rest ih =>
      cases ready with
      | listening ret =>
          have hnext := h.accept hpossible.1
          have hrest := ih hnext hpossible.2
          unfold Server.iterate
          cases haccept : s.accept ret with
          | mk goes next =>
              rw [haccept] at hnext hrest
              cases goes with
              | true => exact hrest
              | false => exact hnext
      | client fd read stale => exact ih (h.serve hpossible.1.1 read stale) hpossible.2

/-- At the top of the main loop the listening descriptor and the open connections are watched, and
nothing else is. -/
theorem interest_list_invariant (h : Reachable lfd s) : Invariant lfd s := by
  refine reachable_invariant (Invariant lfd) ⟨rfl, List.not_mem_nil⟩ ?_ h
  intro s next hs hstep
  cases hstep with
  | round events hpossible _ => exact hs.iterate hpossible

/-! ## Echoing -/

/-- The server answers with what it has read, and also when a read fails. -/
theorem echo_server (stale : Bytes) : EchoServer id (reply stale) where
  chunk chunk := by
    refine ⟨_, rfl, by simp, fun room => ?_⟩
    -- the write to the terminal does not reach the peer
    show [] ++ List.flatMap (WriteCall.accepted room) [_] = _
    rw [List.nil_append, List.flatMap_singleton, accepted_peer,
      take_overwrite (Nat.min_le_left _ _), List.map_id]
  ending ending writes h := by
    cases ending with
    | eof => cases h
    | fail errno =>
        obtain rfl := Reply.answer.inj h
        exact ⟨⟨.stdout, stale, -1⟩, List.mem_cons_self, show (-1 : Int) < 0 by decide⟩

end UnixNet.Webdemo01
