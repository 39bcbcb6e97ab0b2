import UnixNet.Lib.BufferedSocket

/-!
# The proxy

`le-proxy.c` connects every client that it accepts to one server, and passes on what either of them
sends. Each of the two has a bufferevent, and each bufferevent has the other one as the argument of
its callbacks. When one side takes less than the other sends, the proxy stops reading from the other
side until the output has drained (`readcb`, `drainedWritecb`), and when one side ends, the other
one is closed once it was given everything (`eventcb`, `closeOnFinishedWritecb`). A callback has no
result when it uses a bufferevent that was freed. The `_linked` theorems say what each callback does
to two bufferevents that are both open.
-/

namespace UnixNet.LeProxy

open NetLib

/-- The two bufferevents of a connection. -/
inductive Side where
  | bIn
  | bOut
  deriving DecidableEq

/-- The other one. -/
def Side.other : Side → Side
  | .bIn => .bOut
  | .bOut => .bIn

/-- The write callbacks that are set at some time. -/
inductive WriteCb where
  | drained
  | closeOnFinished
  deriving DecidableEq

/-- A bufferevent of the proxy. The argument of its callbacks is the partner, or NULL. -/
abbrev Bev := BufSock UInt8 WriteCb (Option Side)

/-- Both bufferevents. -/
abbrev Proxy := Sockets Side UInt8 WriteCb (Option Side)

/-- `MAX_OUTPUT` -/
def maxOutput : Nat := 512 * 1024

/-- `readcb` -/
def readcb (s : Proxy) (bev : Side) (ctx : Option Side) : Option Proxy :=
  match ctx with
  | none => onSocket s bev (·.drain)
  | some partner => do
      let added ← onSocket s partner (·.add (s bev).input)
      let moved ← onSocket added bev (·.drain)
      if maxOutput ≤ (moved partner).output.length then
        -- the partner is given data faster than it can pass it on
        let set ← onSocket moved partner (·.setcb true (some .drained) (some bev))
        let marked ← onSocket set partner (·.setwatermark (maxOutput / 2))
        onSocket marked bev (·.disableRead)
      else pure moved

/-- `drained_writecb` -/
def drainedWritecb (s : Proxy) (bev : Side) (ctx : Option Side) : Option Proxy := do
  let set ← onSocket s bev (·.setcb true none ctx)
  let marked ← onSocket set bev (·.setwatermark 0)
  match ctx with
  | none => pure marked
  | some partner => onSocket marked partner (·.enableRead)

/-- `close_on_finished_writecb` -/
def closeOnFinishedWritecb (s : Proxy) (bev : Side) : Option Proxy :=
  if (s bev).output = [] then onSocket s bev (·.free) else onSocket s bev id

/-- What `eventcb` does to the partner: pending data is moved to it, and it is closed, at once if it
has nothing left to say. -/
def closePartner (s : Proxy) (bev partner : Side) : Option Proxy := do
  let moved ← readcb s bev (some partner)
  if (moved partner).output ≠ [] then
    let set ← onSocket moved partner (·.setcb false (some .closeOnFinished) none)
    onSocket set partner (·.disableRead)
  else onSocket moved partner (·.free)

/-- `eventcb` -/
def eventcb (s : Proxy) (bev : Side) (what : List Report) (ctx : Option Side) : Option Proxy :=
  if what.any Report.ends then do
    let closing ← match ctx with
      | none => pure s
      | some partner => closePartner s bev partner
    onSocket closing bev (·.free)
  else onSocket s bev id

/-- The callbacks of the proxy. -/
def callbacks : Callbacks Side UInt8 WriteCb (Option Side) where
  onRead := readcb
  onWrite
    | .drained => drainedWritecb
    | .closeOnFinished => fun s bev _ => closeOnFinishedWritecb s bev
  onEvent := eventcb

/-- Both bufferevents are freed, the one to the server first. -/
def freeBoth (s : Proxy) : Option Proxy := do
  let freed ← onSocket s .bOut (·.free)
  onSocket freed .bIn (·.free)

/-- `accept_cb`. `connects` says whether `bufferevent_socket_connect` succeeds, and `filter`, with
an encrypting wrapper, whether the wrapper can be made. -/
def acceptCb (connects : Bool) (filter : Option Bool) : Option Proxy :=
  let created : Proxy := fun _ => .new none
  if connects = false then freeBoth created
  else do
    let connecting ← onSocket created .bOut (·.connect)
    if filter = some false then freeBoth connecting
    else
      let first ← onSocket connecting .bIn (·.setcb true none (some .bOut))
      let second ← onSocket first .bOut (·.setcb true none (some .bIn))
      let third ← onSocket second .bIn (·.enableRead)
      onSocket third .bOut (·.enableRead)

/-- A bufferevent of an accepted connection. -/
def acceptedSide (side : Side) : Bev :=
  { ((BufSock.new none).setcb true none (some side.other)).enableRead with
    connecting := side == .bOut }

/-- The states of a connection in any order of events. `room` bounds what waits in an input
buffer. -/
def Reachable (room : Nat) (s : Proxy) : Prop :=
  ∃ connects filter start events, acceptCb connects filter = some start ∧
    runEvents (callbacks.step room) start events = some s

/-! ## A connection from one of its sides -/

/-- The connection with `b` at side `i` and `p` at the other one. -/
def pair (i : Side) (b p : Bev) : Proxy :=
  fun side => if side = i then b else p

theorem Side.other_ne (i : Side) : i.other ≠ i := by
  cases i <;> exact nofun

@[simp] theorem Side.other_other (i : Side) : i.other.other = i := by
  cases i <;> rfl

/-- There are only two sides. -/
theorem Side.eq_other_of_ne {i side : Side} (h : side ≠ i) : side = i.other := by
  cases i <;> cases side <;> first | rfl | exact absurd rfl h

variable {i : Side} {b p : Bev}

@[simp] theorem pair_self (i : Side) (b p : Bev) : pair i b p i = b :=
  if_pos rfl

@[simp] theorem pair_other (i : Side) (b p : Bev) : pair i b p i.other = p :=
  if_neg i.other_ne

theorem pair_eq (s : Proxy) (i : Side) : pair i (s i) (s i.other) = s := by
  funext side
  by_cases h : side = i
  · rw [h, pair_self]
  · rw [Side.eq_other_of_ne h, pair_other]

theorem pair_swap (i : Side) (b p : Bev) : pair i.other p b = pair i b p := by
  funext side
  by_cases h : side = i
  · rw [h, pair_self]
    exact if_neg i.other_ne.symm
  · rw [Side.eq_other_of_ne h, pair_other, pair_self]

@[simp] theorem update_pair_self (i : Side) (b p b' : Bev) :
    Function.update (pair i b p) i b' = pair i b' p := by
  rw [← pair_eq (Function.update (pair i b p) i b') i, Function.update_self,
    Function.update_of_ne i.other_ne, pair_other]

@[simp] theorem update_pair_other (i : Side) (b p p' : Bev) :
    Function.update (pair i b p) i.other p' = pair i b p' := by
  rw [← pair_eq (Function.update (pair i b p) i.other p') i, Function.update_self,
    Function.update_of_ne i.other_ne.symm, pair_self]

/-- Using the bufferevent at the side. -/
theorem on_pair_self {use : Bev → Bev} (h : b.isOpen = true) :
    onSocket (pair i b p) i use = some (pair i (use b) p) := by
  rw [on_socket_of_open (by rwa [pair_self]), pair_self, update_pair_self]

/-- Using the bufferevent at the other side. -/
theorem on_pair_other {use : Bev → Bev} (h : p.isOpen = true) :
    onSocket (pair i b p) i.other use = some (pair i b (use p)) := by
  rw [on_socket_of_open (by rwa [pair_other]), pair_other, update_pair_other]

/-! ## What the callbacks do -/

/-- The side that is read after `readcb`. -/
def readSide (b p : Bev) : Bev :=
  if maxOutput ≤ (p.output ++ b.input).length then b.drain.disableRead else b.drain

/-- The partner after `readcb`. -/
def fedSide (i : Side) (b p : Bev) : Bev :=
  if maxOutput ≤ (p.output ++ b.input).length then
    ((p.add b.input).setcb true (some .drained) (some i)).setwatermark (maxOutput / 2)
  else p.add b.input

/-- The partner after `eventcb`. -/
def leftSide (i : Side) (b p : Bev) : Bev :=
  if p.output ++ b.input = [] then (fedSide i b p).free
  else ((fedSide i b p).setcb false (some .closeOnFinished) none).disableRead

@[simp] theorem fed_side_output (i : Side) (b p : Bev) :
    (fedSide i b p).output = p.output ++ b.input := by
  unfold fedSide
  split <;> rfl

@[simp] theorem fed_side_isOpen (i : Side) (b p : Bev) : (fedSide i b p).isOpen = p.isOpen := by
  unfold fedSide
  split <;> rfl

@[simp] theorem read_side_isOpen (b p : Bev) : (readSide b p).isOpen = b.isOpen := by
  unfold readSide
  split <;> rfl

@[simp] theorem read_side_input (b p : Bev) : (readSide b p).input = [] := by
  unfold readSide
  split <;> rfl

/-- `readcb` changes neither what came from the peer nor what it was given. -/
theorem read_side_fields (b p : Bev) :
    (readSide b p).received = b.received ∧ (readSide b p).delivered = b.delivered ∧
      (readSide b p).broken = b.broken := by
  unfold readSide
  split <;> exact ⟨rfl, rfl, rfl⟩

theorem fed_side_fields (i : Side) (b p : Bev) :
    (fedSide i b p).received = p.received ∧ (fedSide i b p).delivered = p.delivered ∧
      (fedSide i b p).broken = p.broken := by
  unfold fedSide
  split <;> exact ⟨rfl, rfl, rfl⟩

/-- `readcb` moves the input to the partner, and stops reading when the partner has too much. -/
theorem readcb_linked (hb : b.isOpen = true) (hp : p.isOpen = true) :
    readcb (pair i b p) i (some i.other) = some (pair i (readSide b p) (fedSide i b p)) := by
  have hadd : onSocket (pair i b p) i.other (·.add b.input) = some (pair i b (p.add b.input)) :=
    on_pair_other hp
  have hdrain : onSocket (pair i b (p.add b.input)) i (·.drain) =
      some (pair i b.drain (p.add b.input)) := on_pair_self hb
  simp only [readcb, pair_self, hadd, hdrain, Option.bind_eq_bind, Option.bind_some, pair_other]
  by_cases hmuch : maxOutput ≤ (p.output ++ b.input).length
  · rw [if_pos (by exact hmuch), on_pair_other (by exact hp), Option.bind_some,
      on_pair_other (by exact hp), Option.bind_some, on_pair_self (by exact hb), readSide, fedSide,
      if_pos hmuch, if_pos hmuch]
  · rw [if_neg (by exact hmuch), readSide, fedSide, if_neg hmuch, if_neg hmuch]
    rfl

/-- `drained_writecb` goes on reading from the partner. -/
theorem drained_linked (hb : b.isOpen = true) (hp : p.isOpen = true) :
    drainedWritecb (pair i b p) i (some i.other) =
      some (pair i ((b.setcb true none (some i.other)).setwatermark 0) p.enableRead) := by
  rw [drainedWritecb, on_pair_self hb, Option.bind_eq_bind, Option.bind_some,
    on_pair_self (by exact hb), Option.bind_some]
  exact on_pair_other hp

/-- `close_on_finished_writecb` closes a bufferevent without output. -/
theorem close_on_finished_open (hb : b.isOpen = true) :
    closeOnFinishedWritecb (pair i b p) i =
      some (pair i (if b.output = [] then b.free else b) p) := by
  unfold closeOnFinishedWritecb
  rw [pair_self]
  split
  · exact on_pair_self hb
  · exact on_pair_self hb

/-- `eventcb` closes the bufferevent that ended, and its partner when that has said everything. -/
theorem eventcb_linked {what : List Report} (hwhat : what.any Report.ends = true)
    (hb : b.isOpen = true) (hp : p.isOpen = true) :
    eventcb (pair i b p) i what (some i.other) =
      some (pair i (readSide b p).free (leftSide i b p)) := by
  have hfed : (fedSide i b p).isOpen = true := by rwa [fed_side_isOpen]
  have hread : (readSide b p).isOpen = true := by rwa [read_side_isOpen]
  have hpartner : closePartner (pair i b p) i i.other =
      some (pair i (readSide b p) (leftSide i b p)) := by
    rw [closePartner, readcb_linked hb hp, Option.bind_eq_bind, Option.bind_some, pair_other,
      fed_side_output, leftSide]
    by_cases hnone : p.output ++ b.input = []
    · rw [if_neg (not_not.mpr hnone), if_pos hnone, on_pair_other hfed]
    · rw [if_pos hnone, if_neg hnone, on_pair_other hfed, Option.bind_some,
        on_pair_other (by exact hfed)]
  simp only [eventcb, hwhat, if_true, hpartner, Option.bind_eq_bind, Option.bind_some]
  exact on_pair_self hread

/-- Without a partner, `eventcb` only closes the bufferevent. -/
theorem eventcb_alone {what : List Report} (hwhat : what.any Report.ends = true)
    (hb : b.isOpen = true) : eventcb (pair i b p) i what none = some (pair i b.free p) := by
  simp only [eventcb, hwhat, if_true, Option.pure_def, Option.bind_eq_bind, Option.bind_some]
  exact on_pair_self hb

/-- Other events are ignored. -/
theorem eventcb_other {what : List Report} {ctx : Option Side}
    (hwhat : what.any Report.ends = false) (hb : b.isOpen = true) :
    eventcb (pair i b p) i what ctx = some (pair i b p) := by
  simp only [eventcb, hwhat, Bool.false_eq_true, if_false]
  exact on_pair_self hb

/-- Freeing both bufferevents. -/
theorem free_both_eq (hb : b.isOpen = true) (hp : p.isOpen = true) :
    freeBoth (pair .bIn b p) = some (pair .bIn b.free p.free) := by
  show (onSocket (pair .bIn b p) (Side.bIn.other) _ >>= _) = _
  rw [on_pair_other hp, Option.bind_eq_bind, Option.bind_some]
  exact on_pair_self hb

/-- An accepted connection. -/
def accepted : Proxy :=
  pair .bIn (acceptedSide .bIn) (acceptedSide .bOut)

theorem new_eq_pair : (fun _ => .new none : Proxy) = pair .bIn (.new none) (.new none) :=
  (pair_eq (fun _ => .new none) .bIn).symm

theorem on_connect : onSocket (pair .bIn (.new none) (.new none)) .bOut (·.connect) =
    some (pair .bIn (.new none) (BufSock.new none).connect) :=
  on_pair_other (i := .bIn) rfl

/-- Without a failure, both bufferevents are open, and each is the partner of the other. -/
theorem accept_cb_accepted {filter : Option Bool} (hfilter : filter ≠ some false) :
    acceptCb true filter = some accepted := by
  unfold acceptCb
  rw [if_neg (by decide), new_eq_pair, on_connect, Option.bind_eq_bind, Option.bind_some,
    if_neg hfilter, on_pair_self rfl, Option.bind_some]
  show (onSocket (pair .bIn _ (BufSock.new none).connect) (Side.bIn.other) _ >>= _) = _
  rw [on_pair_other rfl, Option.bind_eq_bind, Option.bind_some, on_pair_self rfl, Option.bind_some]
  exact on_pair_other (i := .bIn) rfl

/-- After a failure both bufferevents were freed, and nothing was sent or delivered. -/
theorem accept_cb_refused {connects : Bool} {filter : Option Bool}
    (h : connects = false ∨ filter = some false) :
    ∃ b p : Bev, acceptCb connects filter = some (pair .bIn b.free p.free) ∧
      b.delivered = p.received ∧ p.delivered = b.received := by
  unfold acceptCb
  cases connects with
  | false =>
      rw [if_pos rfl, new_eq_pair]
      exact ⟨_, _, free_both_eq rfl rfl, rfl, rfl⟩
  | true =>
      rw [if_neg (by decide), new_eq_pair, on_connect, Option.bind_eq_bind, Option.bind_some,
        if_pos (h.resolve_left (by decide))]
      exact ⟨_, _, free_both_eq rfl rfl, rfl, rfl⟩

end UnixNet.LeProxy
