import Mathlib.Data.List.Basic
import Mathlib.Tactic.Common
import UnixNet.Lib.Text

/-!
# The calls of a server on its sockets

The behaviour of a server that works on several connections, as the list of calls it makes on
them. `connections` are the descriptors that were accepted and have not been closed, `reads` the
descriptors that were read. Descriptors are of any type.
-/

namespace NetLib

/-- A call on a socket. `accept` carries what it returned, `none` for a failure. -/
inductive SocketCall (δ : Type*) where
  | accept (ret : Option δ)
  | read (fd : δ)
  | write (fd : δ) (data : Bytes)
  | close (fd : δ)
  deriving DecidableEq

variable {δ : Type*} [DecidableEq δ]

/-- What a call does to the list of open connections. -/
def SocketCall.effect (live : List δ) : SocketCall δ → List δ
  | .accept (some fd) => live ++ [fd]
  | .close fd => live.filter (· ≠ fd)
  | _ => live

/-- The descriptors accepted and not yet closed. -/
def connections (calls : List (SocketCall δ)) : List δ :=
  calls.foldl SocketCall.effect []

/-- The descriptor of a call that reads. -/
def SocketCall.readFd : SocketCall δ → Option δ
  | .read fd => some fd
  | _ => none

/-- The descriptors that were read, in the order of the calls. -/
def reads (calls : List (SocketCall δ)) : List δ :=
  calls.filterMap SocketCall.readFd

/-- Whether a call is an `accept`. -/
def SocketCall.isAccept : SocketCall δ → Bool
  | .accept _ => true
  | _ => false

/-- One more call. -/
theorem connections_concat (calls : List (SocketCall δ)) (c : SocketCall δ) :
    connections (calls ++ [c]) = c.effect (connections calls) := by
  simp [connections, List.foldl_append]

/-- A new connection is open, and so are the others. -/
theorem mem_connections_accept {calls : List (SocketCall δ)} {fd d : δ} :
    d ∈ connections (calls ++ [.accept (some fd)]) ↔ d ∈ connections calls ∨ d = fd := by
  simp [connections_concat, SocketCall.effect]

/-- A closed connection is not open, the others are as before. -/
theorem mem_connections_close {calls : List (SocketCall δ)} {fd d : δ} :
    d ∈ connections (calls ++ [.close fd]) ↔ d ∈ connections calls ∧ d ≠ fd := by
  simp [connections_concat, SocketCall.effect]

omit [DecidableEq δ]

/-- The reads of two lists of calls, one after the other. -/
@[simp] theorem reads_append (calls more : List (SocketCall δ)) :
    reads (calls ++ more) = reads calls ++ reads more := by
  simp [reads]

@[simp] theorem reads_nil : reads ([] : List (SocketCall δ)) = [] := rfl

/-- Accepting a connection reads nothing. -/
@[simp] theorem reads_accept (ret : Option δ) (calls : List (SocketCall δ)) :
    reads (.accept ret :: calls) = reads calls := rfl

end NetLib
