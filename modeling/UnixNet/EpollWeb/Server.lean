import UnixNet.EpollWeb.SendData
import UnixNet.Lib.Execution
import UnixNet.Wrap.Readline

/-!
# The main loop of the epoll web server

One process serves all clients. `Server` is what it keeps between events: the static buffer of
`my_read`, which all descriptors share, the sockets that are open, and the epoll interest list.
`Server.respond` is the part of the loop body up to the drain loop, `Server.serve` the whole body
for an event on a client's descriptor, and `Step` one step of the main loop, in which epoll, the
clients and the file system may do anything they can.
-/

namespace UnixNet.EpollWeb

open NetLib UnixNet.Wrap

/-- An event that `epoll_wait` reports. -/
structure Event where
  fd : Nat
  epollin : Bool

/-- The state of the process between two events. A socket is what its reads will return. -/
structure Server where
  rb : ReadBuffer
  sockets : Nat → Option (Source UInt8 100)
  interest : List Nat

/-- The process before its first `epoll_wait`. -/
def Server.start (lfd : Nat) : Server where
  rb := .initial
  sockets _ := none
  interest := [lfd]

/-- Reading a descriptor that is not open. -/
def closedSource : Source UInt8 100 :=
  ⟨[], .fail .ebadf⟩

/-- What `Readline` on a descriptor works on. -/
def Server.reader (s : Server) (fd : Nat) : Reader :=
  ⟨s.rb, (s.sockets fd).getD closedSource⟩

/-- The state after reading a descriptor. -/
def Server.setReader (s : Server) (fd : Nat) (r : Reader) : Server where
  rb := r.rb
  sockets d := if d = fd then (s.sockets d).map fun _ => r.src else s.sockets d
  interest := s.interest

/-- `epoll_ctl(epFd, EPOLL_CTL_DEL, fd, &ev)` and `close(fd)` -/
def Server.close (s : Server) (fd : Nat) : Server where
  rb := s.rb
  sockets d := if d = fd then none else s.sockets d
  interest := s.interest.filter (· ≠ fd)

/-- A new connection: `Accept`, and `epoll_ctl(epFd, EPOLL_CTL_ADD, cfd, &ev)`. -/
def Server.accept (s : Server) (cfd : Nat) (input : Source UInt8 100) : Server where
  rb := s.rb
  sockets d := if d = cfd then some input else s.sockets d
  interest := s.interest ++ [cfd]

/-- `strtok(s, " ")`, and what a further `strtok(NULL, " ")` works on. -/
def strtok (s : Bytes) : Option (Bytes × Bytes) :=
  match s.dropWhile (· = 32) with
  | [] => none
  | c :: rest =>
      some ((c :: rest).takeWhile (· ≠ 32), ((c :: rest).dropWhile (· ≠ 32)).drop 1)

/-- What the loop body does about the first line it read. With `crash` a missing token is passed
to `printf`; `calls` are the calls of `SendData`, if it is called. -/
inductive Action where
  | readError
  | clientClose
  | crash
  | request (requestType fileName : Bytes) (calls : List Call)
  deriving DecidableEq

/-- The branch for a line: `buf` is the string in the buffer. -/
def parseRequest (env : Env) (buf : Bytes) : Action :=
  match strtok buf with
  | none => .crash
  | some (requestType, rest) =>
      match strtok rest with
      | none => .crash
      | some (fileName, _) =>
          .request requestType fileName
            (if requestType = ascii "GET" then sendData env fileName else [])

/-- The three branches on `ret`. -/
def handleLine (env : Env) (line : Line) : Action :=
  if line.ret < 0 then .readError
  else if line.ret = 0 then .clientClose
  else parseRequest env (cstr line.stored)

/-- The branch that was taken closed the descriptor. -/
def Action.closes : Action → Bool
  | .readError => true
  | .clientClose => true
  | .crash => false
  | .request _ _ calls => calls.contains .close

/-- The loop body up to the drain loop. -/
def Server.respond (s : Server) (env : Env) (fd : Nat) : Action × Server :=
  let (line, r) := readline 1500 (s.reader fd)
  let action := handleLine env line
  (action, if action.closes then (s.setReader fd r).close fd else s.setReader fd r)

/-- `Readline(fd, buf, sizeof(buf)) >= 0`, the test of the drain loop. -/
def drainRound (r : Reader) : Bool × Reader :=
  (0 ≤ (readline 1500 r).1.ret, (readline 1500 r).2)

/-- The loop body for an event on a client's descriptor. It has no result when a token is missing,
and none when the drain loop goes on for more than `fuel` rounds. -/
def Server.serve (s : Server) (env : Env) (fuel fd : Nat) : Option (Action × Server) :=
  let (action, s) := s.respond env fd
  if action = .crash then none
  else (whileLoop drainRound fuel (s.reader fd)).map fun r => (action, s.setReader fd r)

/-- Where the main loop is: before `epoll_wait`, or in the loop over the reported events. -/
inductive Control where
  | wait
  | batch (events : List Event)

/-- One step of the main loop. `epoll_wait` reports registered descriptors, each at most once;
`Accept` returns a descriptor that is not open, of a connection whose reads may return anything;
an event without EPOLLIN is passed over. -/
inductive Step (lfd : Nat) : Server × Control → Server × Control → Prop where
  | idle (s : Server) : Step lfd (s, .wait) (s, .wait)
  | wake (s : Server) (events : List Event) :
      events.length ≤ 1024 → (events.map Event.fd).Nodup →
      (∀ event ∈ events, event.fd ∈ s.interest) →
      Step lfd (s, .wait) (s, .batch events)
  | finish (s : Server) : Step lfd (s, .batch []) (s, .wait)
  | accept (s : Server) (event : Event) (rest : List Event) (cfd : Nat)
      (input : Source UInt8 100) :
      event.fd = lfd → event.epollin = true → cfd ≠ lfd → s.sockets cfd = none →
      Step lfd (s, .batch (event :: rest)) (s.accept cfd input, .batch rest)
  | serve (s : Server) (event : Event) (rest : List Event) (env : Env) (fuel : Nat)
      (result : Action × Server) :
      event.fd ≠ lfd → event.epollin = true → s.serve env fuel event.fd = some result →
      Step lfd (s, .batch (event :: rest)) (result.2, .batch rest)
  | skip (s : Server) (event : Event) (rest : List Event) :
      event.epollin = false → Step lfd (s, .batch (event :: rest)) (s, .batch rest)

/-- The states the main loop can come to. -/
def Reachable (lfd : Nat) (state : Server × Control) : Prop :=
  Relation.ReflTransGen (Step lfd) (Server.start lfd, .wait) state

/-- A request line that arrives in one chunk. -/
def getRequest : List (Option (Chunk UInt8 100)) :=
  [some ⟨ascii "GET /a \n", by decide, by decide⟩]

/-! ## Reading and closing one descriptor -/

/-- The reader of an open descriptor reads its socket. -/
theorem Server.reader_src {s : Server} {fd : Nat} {input : Source UInt8 100}
    (h : s.sockets fd = some input) : (s.reader fd).src = input := by
  show (s.sockets fd).getD closedSource = input
  rw [h, Option.getD_some]

/-- After reading an open descriptor, its reader is the one that was left. -/
theorem Server.reader_set_reader {s : Server} {fd : Nat} (h : (s.sockets fd).isSome = true)
    (r : Reader) : (s.setReader fd r).reader fd = r := by
  obtain ⟨input, hinput⟩ := Option.isSome_iff_exists.mp h
  simp [setReader, reader, hinput]

/-- Reading or closing a descriptor leaves the sockets of the others alone. -/
theorem Server.sockets_of_ne (s : Server) {fd d : Nat} (r : Reader) (h : d ≠ fd) :
    (s.setReader fd r).sockets d = s.sockets d ∧ (s.close fd).sockets d = s.sockets d := by
  simp [setReader, close, h]

@[simp] theorem Server.is_some_set_reader (s : Server) (fd d : Nat) (r : Reader) :
    ((s.setReader fd r).sockets d).isSome = (s.sockets d).isSome := by
  unfold setReader
  show (if d = fd then _ else _ : Option _).isSome = _
  split <;> simp

/-- What the loop body does is decided by the line it reads from the descriptor of the event. -/
theorem Server.respond_action (s : Server) (env : Env) (fd : Nat) :
    (s.respond env fd).1 = handleLine env (readline 1500 (s.reader fd)).1 :=
  rfl

/-- The body has a result when no token is missing and the drain loop comes to its end. -/
theorem Server.serve_eq_some {s : Server} {env : Env} {fuel fd : Nat} {result : Action × Server}
    (h : s.serve env fuel fd = some result) :
    result.1 = (s.respond env fd).1 ∧ result.1 ≠ .crash ∧
      ∃ final, whileLoop drainRound fuel ((s.respond env fd).2.reader fd) = some final ∧
        result.2 = (s.respond env fd).2.setReader fd final := by
  unfold serve at h
  generalize s.respond env fd = responded at h ⊢
  obtain ⟨action, after⟩ := responded
  by_cases hcrash : action = .crash
  · simp [hcrash] at h
  · simp only [hcrash, if_false, Option.map_eq_some_iff] at h
    obtain ⟨final, hdrain, rfl⟩ := h
    exact ⟨rfl, hcrash, final, hdrain, rfl⟩

/-- Responding leaves the sockets of the other descriptors alone. -/
theorem Server.respond_sockets_of_ne (s : Server) (env : Env) {fd d : Nat} (h : d ≠ fd) :
    (s.respond env fd).2.sockets d = s.sockets d := by
  by_cases hclose : (handleLine env (readline 1500 (s.reader fd)).1).closes = true
  · simp [respond, hclose, setReader, close, h]
  · simp [respond, hclose, setReader, h]

/-- Responding keeps a descriptor open and registered, or closes and deregisters it. -/
theorem Server.respond_cases (s : Server) (env : Env) (fd : Nat) :
    ((s.respond env fd).2.interest = s.interest ∧
        ((s.respond env fd).2.sockets fd).isSome = (s.sockets fd).isSome) ∨
      ((s.respond env fd).2.interest = s.interest.filter (· ≠ fd) ∧
        (s.respond env fd).2.sockets fd = none) := by
  by_cases hclose : (handleLine env (readline 1500 (s.reader fd)).1).closes = true
  · right
    simp [respond, hclose, setReader, close]
  · left
    simp [respond, hclose, setReader]

/-- A descriptor that was closed stays closed through the drain loop. -/
theorem Server.serve_closed {s : Server} {env : Env} {fuel fd : Nat} {result : Action × Server}
    (h : s.serve env fuel fd = some result) (hcloses : (s.respond env fd).1.closes = true) :
    (result.2.sockets fd).isSome = false := by
  obtain ⟨-, -, final, -, hnext⟩ := Server.serve_eq_some h
  have hclosed : (s.respond env fd).2 =
      (s.setReader fd (readline 1500 (s.reader fd)).2).close fd :=
    if_pos hcloses
  rw [hnext, Server.is_some_set_reader, hclosed]
  simp [close]

/-- The reader of a closed descriptor. -/
theorem Server.reader_close (s : Server) (fd : Nat) :
    (s.close fd).reader fd = ⟨s.rb, closedSource⟩ := by
  simp [reader, close]

end UnixNet.EpollWeb
