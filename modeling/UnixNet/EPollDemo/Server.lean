import UnixNet.Lib.Epoll
import UnixNet.Lib.Execution
import UnixNet.Lib.Source
import UnixNet.Lib.Text

/-!
# The level-triggered and the edge-triggered epoll server

`demo02.c` and `demo03.c` have the same main loop up to the branch for a client that can be read:
`demo02` reads once, `demo03` reads until EAGAIN, in pieces of four bytes. `Server.mainStep` is one
event of the loop with that branch as a parameter; between any two steps of the server the clients
may do whatever they can. `Moves` is its inversion: what an event does, and when it can happen.
-/

namespace UnixNet.EPollDemo

open NetLib

/-- Where the main loop is: at `epoll_wait`, in the `for` loop with the descriptors in `eArr` that
are left, the first of which is looked at, or between `Accept` and `EPOLL_CTL_ADD`. -/
inductive Pc where
  | waiting
  | serving (batch : List Nat)
  | adding (cfd : Nat) (rest : List Nat)
  | ended
  deriving DecidableEq

/-- The next round of the `for` loop, or the next of the `while` loop. -/
def forLoop : List Nat → Pc
  | [] => .waiting
  | fd :: rest => .serving (fd :: rest)

/-- The reported descriptors that the `for` loop is not done with. -/
def Pc.batch : Pc → List Nat
  | .serving batch => batch
  | .adding _ rest => rest
  | .waiting | .ended => []

/-- What is written while a connection is served: to the terminal, where the text of a `printf` is
`none` if the buffer has no end, or to a socket. -/
inductive Output where
  | terminal (conn : Nat) (text : Option Bytes)
  | socket (fd : Nat) (data : Bytes)
  deriving DecidableEq

/-- The server and the kernel, with what was read of each connection and what was written. -/
structure Server where
  pc : Pc
  kernel : Kernel Nat UInt8
  reads : List (Nat × Bytes)
  output : List Output

/-- What can happen. `wait` carries the descriptors that are reported, `accept` the new one, `read`
the number of bytes returned. -/
inductive Event where
  | traffic (t : Traffic Nat UInt8)
  | forget (fd : Nat)
  | wait (batch : List Nat)
  | waitFailed
  | accept (cfd : Nat)
  | acceptFailed
  | add
  | read (n : Nat)
  | readEof
  | readFailed (errno : Errno)
  deriving DecidableEq

/-- The server before its first `epoll_wait`. -/
def Server.start : Server where
  pc := .waiting
  kernel := ⟨[], fun _ => none⟩
  reads := []
  output := []

/-- `"client close\n"` with its NUL, as `sizeof` counts it. -/
def closeMessage : Bytes :=
  ascii "client close\n" ++ [0]

/-- The branch for the listening descriptor. `epoll_ctl` puts the new descriptor, which is open and
not in the list, into the list. -/
def Server.listen (lfd : Nat) (s : Server) (rest : List Nat) : Event → Option Server
  | .accept cfd =>
      match s.kernel.backlog with
      | [] => none
      | x :: queue =>
          if cfd ≠ lfd ∧ s.kernel.conn cfd = none then
            some { s with pc := .adding cfd rest, kernel := s.kernel.open x queue cfd }
          else none
  | .acceptFailed => some { s with pc := .ended }
  | _ => none

/-- One event of the main loop. There is no result when it cannot happen. `trigger` says which
clients `epoll_wait` can report, and `serve` is the branch for a client. All that is reported has
`EPOLLIN` set. -/
def Server.mainStep (lfd : Nat) (trigger : Kernel Nat UInt8 → Nat → Bool)
    (serve : Server → Nat → List Nat → Event → Option Server) (s : Server) :
    Event → Option Server
  | .traffic t => (s.kernel.traffic t).map fun k => { s with kernel := k }
  | .forget fd => some { s with kernel := s.kernel.forget fd }
  | .wait batch =>
      if s.pc = .waiting ∧ batch.Nodup ∧ batch.length ≤ 1024 ∧
          ∀ fd ∈ batch, if fd = lfd then s.kernel.backlog.isEmpty = false
            else trigger s.kernel fd = true then
        some { s with pc := forLoop batch, kernel := s.kernel.report batch }
      else none
  | .waitFailed => if s.pc = .waiting then some { s with pc := .ended } else none
  | event =>
      match s.pc with
      | .serving (fd :: rest) => if fd = lfd then s.listen lfd rest event else serve s fd rest event
      | .adding cfd rest =>
          if event = .add then some { s with pc := forLoop rest, kernel := s.kernel.add cfd }
          else none
      | _ => none

/-- The bytes that have arrived on a connection and were not read. -/
def Server.unread (s : Server) (fd : Nat) : Bytes :=
  (s.kernel.conn fd).elim [] fun c => c.inbox.unread

/-- `n = read(eArr[i].data.fd, buf, sizeof(buf))` can return `n` bytes. -/
abbrev Server.CanRead (s : Server) (fd n cap : Nat) : Prop :=
  0 < n ∧ n ≤ cap ∧ n ≤ (s.unread fd).length

/-- The `read` can return 0: there is nothing to read, and the client has closed its end. -/
def Server.atEof (s : Server) (fd : Nat) : Bool :=
  (s.kernel.conn fd).any fun c => c.inbox.unread.isEmpty && c.inbox.eof

/-- A `read` returned `n` bytes, which are then written out. -/
def Server.readStep (s : Server) (fd n : Nat) (next : Pc) (output : Bytes → List Output) : Server :=
  let data := (s.unread fd).take n
  { s with pc := next
           kernel := s.kernel.read fd n
           reads := s.reads ++ [(fd, data)]
           output := s.output ++ output data }

/-- `close`, `EPOLL_CTL_DEL`, which fails then, and the message. -/
def Server.hangUp (s : Server) (fd : Nat) (next : Pc) : Server :=
  { s with pc := next
           kernel := s.kernel.close fd
           output := s.output ++ [.terminal fd (some closeMessage)] }

/-- `EPOLL_CTL_DEL`, and nothing else. -/
def Server.abandon (s : Server) (fd : Nat) (next : Pc) : Server :=
  { s with pc := next, kernel := s.kernel.del fd }

/-- The branch of `demo02` for a client. After a `read` that returned 0 it breaks out of the `for`
loop. -/
def Demo02.serve (s : Server) (fd : Nat) (rest : List Nat) : Event → Option Server
  | .read n =>
      if s.CanRead fd n 1024 then
        some (s.readStep fd n (forLoop rest) fun data =>
          [.terminal fd ((printedText (overwrite data (zeros 1024))).map (· ++ [10])),
            .socket fd (ascii "serverReceived\n" ++ [0])])
      else none
  | .readEof => if s.atEof fd = true then some (s.hangUp fd .waiting) else none
  | .readFailed _ => some (s.abandon fd (forLoop rest))
  | _ => none

/-- A round of the inner loop of `demo03`. It breaks out of that loop when there is nothing to read
and when a `read` returned 0. It writes the whole buffer, and to `STDIN_FILENO`. -/
def Demo03.serve (s : Server) (fd : Nat) (rest : List Nat) : Event → Option Server
  | .read n =>
      if s.CanRead fd n 4 then
        some (s.readStep fd n s.pc fun data =>
          [.terminal fd (some (overwrite data (zeros 4)))])
      else none
  | .readEof => if s.atEof fd = true then some (s.hangUp fd (forLoop rest)) else none
  | .readFailed errno =>
      if errno = .eagain then
        if s.kernel.readable fd = false then some { s with pc := forLoop rest } else none
      else some (s.abandon fd s.pc)
  | _ => none

/-- One event of `demo02`. -/
def Demo02.step (lfd : Nat) : Server → Event → Option Server :=
  Server.mainStep lfd Kernel.level Demo02.serve

/-- One event of `demo03`. -/
def Demo03.step (lfd : Nat) : Server → Event → Option Server :=
  Server.mainStep lfd Kernel.edge Demo03.serve

/-- What an event does, and when it can happen. -/
inductive Moves (lfd : Nat) (trigger : Kernel Nat UInt8 → Nat → Bool)
    (serve : Server → Nat → List Nat → Event → Option Server) : Server → Event → Server → Prop where
  | traffic (s : Server) (t : Traffic Nat UInt8) (k : Kernel Nat UInt8)
      (ht : s.kernel.traffic t = some k) :
      Moves lfd trigger serve s (.traffic t) { s with kernel := k }
  | forget (s : Server) (fd : Nat) :
      Moves lfd trigger serve s (.forget fd) { s with kernel := s.kernel.forget fd }
  | wait (s : Server) (batch : List Nat) (hpc : s.pc = .waiting) (hnodup : batch.Nodup)
      (hready : ∀ fd ∈ batch, fd ≠ lfd → trigger s.kernel fd = true) :
      Moves lfd trigger serve s (.wait batch)
        { s with pc := forLoop batch, kernel := s.kernel.report batch }
  | waitFailed (s : Server) (hpc : s.pc = .waiting) :
      Moves lfd trigger serve s .waitFailed { s with pc := .ended }
  | accept (s : Server) (cfd : Nat) (rest : List Nat) (x : Inbox UInt8) (queue : List (Inbox UInt8))
      (hpc : s.pc = .serving (lfd :: rest)) (hne : cfd ≠ lfd) (hfree : s.kernel.conn cfd = none) :
      Moves lfd trigger serve s (.accept cfd)
        { s with pc := .adding cfd rest, kernel := s.kernel.open x queue cfd }
  | acceptFailed (s : Server) (rest : List Nat) (hpc : s.pc = .serving (lfd :: rest)) :
      Moves lfd trigger serve s .acceptFailed { s with pc := .ended }
  | add (s : Server) (cfd : Nat) (rest : List Nat) (hpc : s.pc = .adding cfd rest) :
      Moves lfd trigger serve s .add { s with pc := forLoop rest, kernel := s.kernel.add cfd }
  | serve (s next : Server) (event : Event) (fd : Nat) (rest : List Nat)
      (hpc : s.pc = .serving (fd :: rest)) (hne : fd ≠ lfd)
      (hserve : serve s fd rest event = some next) : Moves lfd trigger serve s event next

variable {lfd : Nat} {trigger : Kernel Nat UInt8 → Nat → Bool}
  {serve : Server → Nat → List Nat → Event → Option Server} {s next : Server} {event : Event}

/-- The branch for the listening descriptor. -/
theorem moves_of_listen {rest : List Nat} (hpc : s.pc = .serving (lfd :: rest))
    (h : s.listen lfd rest event = some next) : Moves lfd trigger serve s event next := by
  cases event with
  | accept cfd =>
      simp only [Server.listen] at h
      split at h
      · cases h
      · obtain ⟨⟨hne, hfree⟩, rfl⟩ := eq_of_guarded h
        exact .accept s cfd rest _ _ hpc hne hfree
  | acceptFailed =>
      obtain rfl := Option.some.inj h
      exact .acceptFailed s rest hpc
  | traffic | forget | wait | waitFailed | add | read | readEof | readFailed => cases h

/-- Every event of the main loop is one of these. -/
theorem moves_of_step (h : s.mainStep lfd trigger serve event = some next) :
    Moves lfd trigger serve s event next := by
  have hloop : (match s.pc with
      | .serving (fd :: rest) => if fd = lfd then s.listen lfd rest event else serve s fd rest event
      | .adding cfd rest =>
          if event = .add then some { s with pc := forLoop rest, kernel := s.kernel.add cfd }
          else none
      | _ => none) = some next → Moves lfd trigger serve s event next := by
    intro h
    split at h
    · next fd rest hpc =>
        split at h
        · next hfd => exact moves_of_listen (hfd ▸ hpc) h
        · next hfd => exact .serve s next event fd rest hpc hfd h
    · next cfd rest hpc =>
        obtain ⟨rfl, rfl⟩ := eq_of_guarded h
        exact .add s cfd rest hpc
    · cases h
  cases event with
  | traffic t =>
      obtain ⟨k, hk, rfl⟩ := Option.map_eq_some_iff.mp h
      exact .traffic s t k hk
  | forget fd =>
      obtain rfl := Option.some.inj h
      exact .forget s fd
  | wait batch =>
      obtain ⟨⟨hpc, hnodup, -, hready⟩, rfl⟩ := eq_of_guarded h
      refine .wait s batch hpc hnodup fun fd hfd hne => ?_
      simpa [hne] using hready fd hfd
  | waitFailed =>
      obtain ⟨hpc, rfl⟩ := eq_of_guarded h
      exact .waitFailed s hpc
  | accept | acceptFailed | add | read | readEof | readFailed => exact hloop h

@[simp] theorem batch_forLoop (batch : List Nat) : (forLoop batch).batch = batch := by
  cases batch <;> rfl

end UnixNet.EPollDemo
