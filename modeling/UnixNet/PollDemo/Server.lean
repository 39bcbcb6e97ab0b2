import Mathlib.Logic.Function.Basic
import UnixNet.Lib.Execution
import UnixNet.Lib.Sockets
import UnixNet.Lib.Source

/-!
# The main loop of the poll server

`pollDemo.c` keeps its connections in the array that it hands to `poll`: slot 0 is the listening
descriptor, and a slot with a negative descriptor is unused. `Server.iterate` is the loop body. It
also says whether the loop goes on: `perr_exit` ends the process. `Step` is one round of the loop,
in which `poll`, the clients and the system may do anything they can.
-/

namespace UnixNet.PollDemo

open NetLib

/-- `OPEN_MAX` -/
def openMax : Nat := 1024

/-- `POLLIN` -/
def pollin : Nat := 1

/-- `ECONNRESET` -/
def econnreset : Errno := .other 104

/-- `toupper` in the C locale. -/
def toupper (c : UInt8) : UInt8 :=
  if 97 ≤ c ∧ c ≤ 122 then c - 32 else c

/-- `struct pollfd` -/
structure Pollfd where
  fd : Int
  events : Nat
  revents : Nat
  deriving DecidableEq

/-- The variables of `main` that live from one round to the next, and the calls made so far. The
elements of `client` are those below `openMax`. -/
structure Server where
  client : Nat → Pollfd
  maxi : Nat
  calls : List (SocketCall Int)

/-- The server before its first `poll`. The array is not initialised: `stale` is what it held. -/
def Server.start (listenfd : Int) (stale : Nat → Pollfd) : Server where
  client i :=
    if i = 0 then ⟨listenfd, pollin, (stale 0).revents⟩
    else ⟨-1, (stale i).events, (stale i).revents⟩
  maxi := 0
  calls := []

/-- What `poll` returns: -1 and nothing else, or the events it reports for each slot. -/
inductive PollReturn where
  | failed
  | ready (reported : Nat → Nat)

/-- What the system calls of one round return. `accept` is `none` when `Accept` gives up, `read` and
`closeFails` tell about the descriptor in a slot. `Read` has repeated what failed with EINTR. -/
structure Round where
  poll : PollReturn
  accept : Option Int
  read : Nat → Except Ending (Chunk UInt8 80)
  closeFails : Nat → Bool

/-- One more call. -/
def Server.call (s : Server) (c : SocketCall Int) : Server :=
  { s with calls := s.calls ++ [c] }

/-- Change one slot. -/
def Server.set (s : Server) (i : Nat) (slot : Pollfd) : Server :=
  { s with client := Function.update s.client i slot }

/-- The slots after `poll(client, maxi + 1, -1)`: it writes the `revents` of the slots it is given,
and ignores a negative descriptor. -/
def Server.polled (s : Server) (reported : Nat → Nat) (i : Nat) : Pollfd :=
  if i ≤ s.maxi then
    { s.client i with revents := if (s.client i).fd < 0 then 0 else reported i }
  else s.client i

/-- `nready = poll(client, maxi + 1, -1)`: the number of slots with events. -/
def Server.poll (s : Server) : PollReturn → Int × Server
  | .failed => (-1, s)
  | .ready reported =>
      (((List.range (s.maxi + 1)).countP fun i => (s.polled reported i).revents ≠ 0 : Nat),
        { s with client := s.polled reported })

/-- `for (i = 1; i < OPEN_MAX; i++)`: the search for an unused slot, with `left` rounds to go. -/
def findSlot (client : Nat → Pollfd) : Nat → Nat → Nat
  | 0, i => i
  | left + 1, i => if (client i).fd < 0 then i else findSlot client left (i + 1)

/-- The index at which the search stops, `openMax` when all slots are in use. -/
def Server.freeSlot (s : Server) : Nat :=
  findSlot s.client (openMax - 1) 1

/-- Save a new connection in an unused slot; "too many clients" ends the process. -/
def Server.save (s : Server) (connfd : Int) : Bool × Server :=
  let i := s.freeSlot
  if i = openMax then (false, s)
  else
    let s := s.set i { s.client i with fd := connfd, events := pollin }
    (true, { s with maxi := if i > s.maxi then i else s.maxi })

/-- `Close(sockfd); client[i].fd = -1;` -/
def Server.disconnect (s : Server) (k : Round) (i : Nat) : Bool × Server :=
  let closed := s.call (.close (s.client i).fd)
  if k.closeFails i then (false, closed)
  else (true, closed.set i { s.client i with fd := -1 })

/-- Read the descriptor in a slot and answer. -/
def Server.serveSlot (s : Server) (k : Round) (i : Nat) : Bool × Server :=
  let sockfd := (s.client i).fd
  let s := s.call (.read sockfd)
  match k.read i with
  | .error (.fail errno) => if errno = econnreset then s.disconnect k i else (false, s)
  | .error .eof => s.disconnect k i
  | .ok chunk => (true, s.call (.write sockfd (chunk.data.map toupper)))

/-- `for (i = 1; i <= maxi; i++)` over the slots still to be looked at. -/
def scan (k : Round) : List Nat → Int → Server → Bool × Server
  | [], _, s => (true, s)
  | i :: rest, nready, s =>
      if (s.client i).fd < 0 then scan k rest nready s
      else if (s.client i).revents &&& pollin = 0 then scan k rest nready s
      else
        match s.serveSlot k i with
        | (false, s) => (false, s)
        | (true, s) => if nready - 1 ≤ 0 then (true, s) else scan k rest (nready - 1) s

/-- The slots that the scan looks at. -/
def Server.slots (s : Server) : List Nat :=
  List.range' 1 s.maxi

/-- The branch for a connection request. -/
def Server.accept (s : Server) (k : Round) (nready : Int) : Bool × Server :=
  let s := s.call (.accept k.accept)
  match k.accept with
  | none => (false, s)
  | some connfd =>
      match s.save connfd with
      | (false, s) => (false, s)
      | (true, s) => if nready - 1 = 0 then (true, s) else scan k s.slots (nready - 1) s

/-- The body of the main loop, and whether the loop goes on. -/
def Server.iterate (s : Server) (k : Round) : Bool × Server :=
  let (nready, s) := s.poll k.poll
  if (s.client 0).revents &&& pollin ≠ 0 then s.accept k nready
  else scan k s.slots nready s

/-- `Accept` returns a descriptor that is not open. -/
def Fresh (listenfd : Int) (s : Server) (k : Round) : Prop :=
  ∀ connfd, k.accept = some connfd →
    0 ≤ connfd ∧ connfd ≠ listenfd ∧ connfd ∉ connections s.calls

/-- One round of the main loop that does not end the process. -/
inductive Step (listenfd : Int) : Server → Server → Prop where
  | round (s : Server) (k : Round) :
      Fresh listenfd s k → (s.iterate k).1 = true → Step listenfd s (s.iterate k).2

/-- The states at the top of the main loop. -/
def Reachable (listenfd : Int) (stale : Nat → Pollfd) (s : Server) : Prop :=
  Relation.ReflTransGen (Step listenfd) (Server.start listenfd stale) s

/-! ## Pieces of the loop body -/

/-- A slot that is not changed. -/
theorem Server.set_of_ne (s : Server) {i j : Nat} (slot : Pollfd) (h : j ≠ i) :
    (s.set i slot).client j = s.client j :=
  Function.update_of_ne h _ _

/-- The slot that is changed. -/
@[simp] theorem Server.set_self (s : Server) (i : Nat) (slot : Pollfd) :
    (s.set i slot).client i = slot :=
  Function.update_self _ _ _

/-- Polling changes nothing but `revents`. -/
@[simp] theorem Server.polled_fd (s : Server) (reported : Nat → Nat) (i : Nat) :
    (s.polled reported i).fd = (s.client i).fd ∧
      (s.polled reported i).events = (s.client i).events := by
  unfold polled
  split <;> exact ⟨rfl, rfl⟩

/-- The search stops at the first unused slot, or behind the last one. -/
theorem find_slot_spec (client : Nat → Pollfd) (left i : Nat) :
    i ≤ findSlot client left i ∧ findSlot client left i ≤ i + left ∧
      (findSlot client left i < i + left → (client (findSlot client left i)).fd < 0) ∧
      ∀ j, i ≤ j → j < findSlot client left i → 0 ≤ (client j).fd := by
  induction left generalizing i with
  | zero =>
      refine ⟨Nat.le_refl i, Nat.le_refl i, ?_, ?_⟩
      · intro h
        exact absurd h (Nat.lt_irrefl i)
      · intro j hj hlt
        exact absurd hlt (Nat.not_lt.mpr hj)
  | succ left ih =>
      rw [findSlot]
      split
      · next hfree =>
          refine ⟨Nat.le_refl i, by omega, fun _ => hfree, ?_⟩
          intro j hj hlt
          omega
      · next hused =>
          obtain ⟨hlow, hhigh, hfree, hbelow⟩ := ih (i + 1)
          refine ⟨by omega, by omega, fun h => hfree (by omega), ?_⟩
          intro j hj hlt
          by_cases heq : j = i
          · rw [heq]
            omega
          · exact hbelow j (by omega) hlt

/-- A slot is read; then its connection was closed and the slot is unused, or all slots are as
before. The process ends, or goes on with the slot served. -/
theorem Server.serve_slot_cases (s : Server) (k : Round) (i : Nat) :
    (∃ data, s.serveSlot k i =
        (true, (s.call (.read (s.client i).fd)).call (.write (s.client i).fd data))) ∨
      s.serveSlot k i = (true, ((s.call (.read (s.client i).fd)).call
        (.close (s.client i).fd)).set i { s.client i with fd := -1 }) ∨
      s.serveSlot k i =
        (false, (s.call (.read (s.client i).fd)).call (.close (s.client i).fd)) ∨
      s.serveSlot k i = (false, s.call (.read (s.client i).fd)) := by
  have hdisconnect : (s.call (.read (s.client i).fd)).disconnect k i =
        (true, ((s.call (.read (s.client i).fd)).call
          (.close (s.client i).fd)).set i { s.client i with fd := -1 }) ∨
      (s.call (.read (s.client i).fd)).disconnect k i =
        (false, (s.call (.read (s.client i).fd)).call (.close (s.client i).fd)) := by
    unfold disconnect
    cases k.closeFails i with
    | true => exact .inr rfl
    | false => exact .inl rfl
  unfold serveSlot
  cases hread : k.read i with
  | ok chunk => exact .inl ⟨_, rfl⟩
  | error ending =>
      cases ending with
      | eof =>
          rcases hdisconnect with h | h
          · exact .inr (.inl h)
          · exact .inr (.inr (.inl h))
      | fail errno =>
          by_cases herrno : errno = econnreset
          · simp only [herrno, if_true]
            rcases hdisconnect with h | h
            · exact .inr (.inl h)
            · exact .inr (.inr (.inl h))
          · refine .inr (.inr (.inr ?_))
            simp only [herrno, if_false]

end UnixNet.PollDemo
