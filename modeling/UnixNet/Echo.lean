import UnixNet.EpollWeb.Webdemo01
import UnixNet.PollDemo.Server
import UnixNet.TcpServerDemo.SelectServer

/-!
# The echo servers

`pollDemo.c`, `selectFun.c` and `webdemo01.c` send back what they read, the first in upper case.
None of them looks at what `Write` returns, so a byte is lost whenever a socket takes less than it
is given; and `webdemo01.c` does not look for a failing read either (`echo_iff`).
-/

namespace UnixNet

open NetLib

namespace PollDemo

/-- What follows a `Read`. -/
def reply : Except Ending (Chunk UInt8 80) → Reply
  | .error (.fail errno) => if errno = econnreset then .close else .exit
  | .error .eof => .close
  | .ok chunk => .answer [⟨.peer, chunk.data.map toupper, chunk.data.length⟩]

/-- The branch for a readable slot of the poll server. -/
theorem Server.serve_slot_eq (s : Server) (k : Round) (i : Nat) :
    s.serveSlot k i =
      match reply (k.read i) with
      | .answer writes =>
          (true, { s.call (.read (s.client i).fd) with
            calls := s.calls ++ [.read (s.client i).fd] ++
              writes.map fun w => .write (s.client i).fd (w.buf.take w.len.toNat) })
      | .close => (s.call (.read (s.client i).fd)).disconnect k i
      | .exit => (false, s.call (.read (s.client i).fd)) := by
  unfold serveSlot
  cases k.read i with
  | ok chunk =>
      have htake : (chunk.data.map toupper).take chunk.data.length = chunk.data.map toupper :=
        List.take_of_length_le (List.length_map _).le
      simp [reply, Server.call, htake]
  | error ending =>
      cases ending with
      | eof => rfl
      | fail errno =>
          by_cases herrno : errno = econnreset
          · simp only [reply, herrno, if_true]
          · simp only [reply, herrno, if_false]

/-- The poll server sends back what it has read in upper case. -/
theorem echo_server : EchoServer toupper reply where
  chunk chunk := by
    refine ⟨_, rfl, by simp, fun room => ?_⟩
    rw [List.flatMap_singleton, accepted_peer]
  ending ending writes h := by
    cases ending with
    | eof => cases h
    | fail errno =>
        simp only [reply] at h
        split at h <;> cases h

/-- The poll server goes on exactly when it has read something. -/
theorem goes_on_eq (t : Turn 80) : goesOn reply t = t.hasData := by
  obtain ⟨read, room⟩ := t
  cases read with
  | ok chunk => rfl
  | error ending =>
      cases ending with
      | eof => rfl
      | fail errno =>
          by_cases herrno : errno = econnreset
          · simp [goesOn, reply, Turn.hasData, herrno]
          · simp [goesOn, reply, Turn.hasData, herrno]

end PollDemo

namespace TcpServerDemo

/-- What follows a `Read`. Only the echo is modelled: the `printf` in front of it reads on behind a
full array without NUL. -/
def reply : Except Ending (Chunk UInt8 1500) → Reply
  | .error (.fail _) => .close
  | .error .eof => .close
  | .ok chunk => .answer [⟨.peer, chunk.data, chunk.data.length⟩]

/-- The branch for a readable descriptor of the select server. -/
theorem Server.serve_eq (s : Server) (k : Round) (i : Nat) :
    s.serve k i =
      match reply (k.read i) with
      | .answer writes =>
          { s.call (.read i) with
            calls := s.calls ++ [.read i] ++
              writes.map fun w => .write i (w.buf.take w.len.toNat) }
      | .close | .exit => (s.call (.read i)).remove i := by
  unfold serve
  cases k.read i with
  | ok chunk => simp [reply, Server.call]
  | error ending => cases ending <;> rfl

/-- The select server sends back what it has read. -/
theorem echo_server : EchoServer id reply where
  chunk chunk := by
    refine ⟨_, rfl, by simp, fun room => ?_⟩
    rw [List.flatMap_singleton, accepted_peer, List.map_id]
  ending ending writes h := by
    cases ending <;> cases h

/-- The select server goes on exactly when it has read something. -/
theorem goes_on_eq (t : Turn 1500) : goesOn reply t = t.hasData := by
  obtain ⟨read, room⟩ := t
  cases read with
  | ok chunk => rfl
  | error ending => cases ending <;> rfl

end TcpServerDemo

/-- The peer has not closed the connection before this turn or in it. -/
def notEof {cap : Nat} (t : Turn cap) : Bool :=
  match t.read with
  | .error .eof => false
  | _ => true

/-- `webdemo01` goes on unless the peer has closed the connection. -/
theorem Webdemo01.goes_on_eq (stale : Bytes) (t : Turn 1024) :
    goesOn (reply stale) t = notEof t := by
  obtain ⟨read, room⟩ := t
  cases read with
  | ok chunk => rfl
  | error ending => cases ending <;> rfl

/-- When the echo servers return every byte. For every client and all that `Read` and `Write` may
return on its connection: as long as the connection is open, the client's socket has got what was
read, in upper case from the poll server, and no `Write` had a length that is negative or above what
was just read, if and only if every `Write` of data took all of it, and, for `webdemo01`, no `Read`
failed before the client closed the connection. -/
theorem echo_iff (pollTurns : List (Turn 80)) (selectTurns : List (Turn 1500)) (stale : Bytes)
    (epollTurns : List (Turn 1024)) :
    (Echoes PollDemo.toupper PollDemo.reply pollTurns ↔
      ∀ t ∈ pollTurns.takeWhile Turn.hasData, t.data.length ≤ t.room + 1) ∧
    (Echoes id TcpServerDemo.reply selectTurns ↔
      ∀ t ∈ selectTurns.takeWhile Turn.hasData, t.data.length ≤ t.room + 1) ∧
    (Echoes id (Webdemo01.reply stale) epollTurns ↔
      ∀ t ∈ epollTurns.takeWhile notEof, t.hasData = true ∧ t.data.length ≤ t.room + 1) := by
  have hdata : ∀ {cap : Nat} (turns : List (Turn cap)),
      (∀ t ∈ turns.takeWhile Turn.hasData, t.Whole) ↔
        ∀ t ∈ turns.takeWhile Turn.hasData, t.data.length ≤ t.room + 1 := by
    intro cap turns
    refine forall₂_congr fun t ht => and_iff_right ?_
    exact List.mem_takeWhile_imp ht
  refine ⟨?_, ?_, ?_⟩
  · rw [PollDemo.echo_server.echoes_iff, funext PollDemo.goes_on_eq, hdata]
  · rw [TcpServerDemo.echo_server.echoes_iff, funext TcpServerDemo.goes_on_eq, hdata]
  · rw [(Webdemo01.echo_server stale).echoes_iff, funext (Webdemo01.goes_on_eq stale)]
    rfl

/-- The first two servers lose a byte when a socket takes one of two, and the third writes with a
length of -1 when a read fails. -/
theorem echo_lost_byte :
    ¬ (∀ turns, Echoes PollDemo.toupper PollDemo.reply turns) ∧
      ¬ (∀ turns, Echoes id TcpServerDemo.reply turns) ∧
      ¬ ∀ stale turns, Echoes id (Webdemo01.reply stale) turns := by
  refine ⟨fun h => ?_, fun h => ?_, fun h => ?_⟩
  · have hfaithful := h [⟨.ok ⟨ascii "ab", by decide, by decide⟩, 0⟩] _ List.prefix_rfl
    exact absurd (hfaithful.1 rfl) (by decide)
  · have hfaithful := h [⟨.ok ⟨ascii "ab", by decide, by decide⟩, 0⟩] _ List.prefix_rfl
    exact absurd (hfaithful.1 rfl) (by decide)
  · have hfaithful := h [] [⟨.error (.fail .eagain), 0⟩] _ List.prefix_rfl
    exact absurd (hfaithful.2 (-1, 0) (by decide)).1 (by decide)

end UnixNet
