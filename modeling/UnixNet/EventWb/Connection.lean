import UnixNet.EventWb.Framing
import UnixNet.Lib.Intake
import UnixNet.RequestLine

/-!
# A connection of the libevent test server

The life of a `bufferevent` from `listen_cb` on: `read_cb` runs when bytes have arrived, and
`bevent_cb` when the peer has closed the connection or the socket has an error. `read_cb` takes at
most 256 bytes out of the input buffer when they are not a GET request, and all bytes when they are.
-/

namespace UnixNet.EventWb

open NetLib UnixNet.Bufferevent

/-- Whether the `bufferevent` exists. `undefined` is the state after a read callback whose `sscanf`
ran out of its arrays, or that used an array to which `sscanf` had assigned nothing. -/
inductive Status where
  | live
  | freed
  | undefined
  deriving DecidableEq

/-- A connection: the bytes in the input buffer, the calls of all callbacks, and the paths of all
calls of `http_request`. -/
structure Connection where
  status : Status
  input : Bytes
  calls : List Call
  passed : List Bytes
  deriving DecidableEq

/-- The connection that `listen_cb` has set up. -/
def Connection.start : Connection :=
  ⟨.live, [], [], []⟩

/-- `tolower` in the C locale. -/
def tolower (c : UInt8) : UInt8 :=
  if 65 ≤ c ∧ c ≤ 90 then c + 32 else c

/-- `strcasecmp(s, t) == 0` -/
def strcasecmp (s t : Bytes) : Bool :=
  s.map tolower = t.map tolower

/-- The path that `read_cb` passes to `http_request`, if it calls it, when `input` is in the input
buffer. There is no result when the scan has none, or leaves an array that is used as it was:
`method` and `path` are not initialized. -/
def requestPath (input : Bytes) : Option (Option Bytes) :=
  if input = [] then some none
  else (scanRequest (readBuf input)).bind fun scanned => scanned.method.bind fun method =>
    if strcasecmp method (ascii "get") then scanned.path.map some else some none

/-- `read_cb(bev, ctx)`. All bytes are read when the first of them are a GET request, otherwise no
more than the array `buf` takes. -/
def Connection.readCb (conn : Connection) (env : Env) : Connection :=
  match requestPath conn.input with
  | none => { conn with status := .undefined }
  | some none => { conn with input := conn.input.drop 256 }
  | some (some path) => { conn with
      input := []
      calls := conn.calls ++ httpRequest env path
      passed := conn.passed ++ [path] }

/-- What happens to a connection. `read` is the arrival of bytes, with what the calls of the read
callback return; the others are what `bevent_cb` is called for. -/
inductive Event where
  | read (env : Env) (arrived : Bytes)
  | eof
  | error
  | connected

/-- `bevent_cb(bev, what, ctx)` for the end of the connection. -/
def Connection.free (conn : Connection) : Connection :=
  { conn with status := .freed, calls := conn.calls ++ [.free] }

/-- One event. Nothing happens to a `bufferevent` that does not exist. -/
def Connection.step (conn : Connection) (event : Event) : Connection :=
  match conn.status, event with
  | .live, .read env arrived => { conn with input := conn.input ++ arrived }.readCb env
  | .live, .eof => conn.free
  | .live, .error => conn.free
  | _, _ => conn

/-- All events of a connection. -/
def run (events : List Event) : Connection :=
  events.foldl Connection.step .start

/-! ## The requests of a connection -/

/-- How the read callbacks take paths out of what arrives. -/
def intake : Intake UInt8 Env Bytes :=
  ⟨requestPath, List.drop 256, fun _ _ => false⟩

/-- What the read callbacks have kept and passed. -/
def Connection.toIntake (conn : Connection) : Intake.State UInt8 Bytes :=
  match conn.status with
  | .live => ⟨.reading, conn.input, conn.passed⟩
  | .freed => ⟨.stopped, [], conn.passed⟩
  | .undefined => ⟨.failed, [], conn.passed⟩

/-- A reader fails when the connection is undefined. -/
theorem Connection.to_intake_failed_iff (conn : Connection) :
    conn.toIntake.phase = .failed ↔ conn.status = .undefined := by
  cases hstatus : conn.status <;> simp [toIntake, hstatus]

/-- The messages are the paths. -/
theorem Connection.to_intake_taken (conn : Connection) : conn.toIntake.taken = conn.passed := by
  cases hstatus : conn.status <;> simp [toIntake, hstatus]

/-- The read callbacks take paths as `intake` says. -/
theorem run_reads (arrivals : List (Env × Bytes)) (conn : Connection) :
    ((arrivals.map fun arrival => Event.read arrival.1 arrival.2).foldl Connection.step
        conn).toIntake = arrivals.foldl intake.step conn.toIntake := by
  rw [List.foldl_map]
  refine (List.foldl_hom Connection.toIntake ?_).symm
  intro conn arrival
  cases hstatus : conn.status with
  | live =>
      rcases hpath : requestPath (conn.input ++ arrival.2) with _ | _ | path
      · simp [Connection.toIntake, Connection.step, Connection.readCb, Intake.step, intake, hstatus,
          hpath]
      · simp [Connection.toIntake, Connection.step, Connection.readCb, Intake.step, intake, hstatus,
          hpath]
      · simp [Connection.toIntake, Connection.step, Connection.readCb, Intake.step, intake, hstatus,
          hpath]
  | freed => simp [Connection.toIntake, Connection.step, Intake.step, hstatus]
  | undefined => simp [Connection.toIntake, Connection.step, Intake.step, hstatus]

end UnixNet.EventWb
