import Mathlib.Data.List.TakeDrop
import UnixNet.Lib.Source
import UnixNet.Lib.Text

/-!
# Echo servers

The conversation of an echo server with one peer: in every turn the server reads, and either gives
the connection up or answers with some writes. A write may take less than it was given. `Echoes`
says that nothing is lost on the way as long as the connection is open; this is so exactly when
every turn before the last brings data and its write takes all of it (`echoes_iff`).
-/

namespace NetLib

/-- Where a server writes. -/
inductive Target where
  | stdout
  | peer
  deriving DecidableEq

/-- `write(fd, buf, len)` -/
structure WriteCall where
  target : Target
  buf : Bytes
  len : Int

/-- What a server does after a read: it writes, or closes the connection, or ends. -/
inductive Reply where
  | answer (writes : List WriteCall)
  | close
  | exit

/-- One turn: what the read returns, and what the socket takes, which is at most `room + 1`
bytes. -/
structure Turn (cap : Nat) where
  read : Except Ending (Chunk UInt8 cap)
  room : Nat

/-- The conversation so far. `lengths` are the lengths of the writes, each with the number of bytes
that were read just before. -/
structure Conversation where
  received : Bytes
  accepted : Bytes
  lengths : List (Int × Nat)
  isOpen : Bool

variable {cap : Nat}

/-- The bytes that are read in a turn. -/
def Turn.data (t : Turn cap) : Bytes :=
  match t.read with
  | .ok chunk => chunk.data
  | .error _ => []

/-- The turn brings data. -/
def Turn.hasData (t : Turn cap) : Bool :=
  match t.read with
  | .ok _ => true
  | .error _ => false

/-- The turn brings data, and the socket takes all of it. -/
def Turn.Whole (t : Turn cap) : Prop :=
  t.hasData = true ∧ t.data.length ≤ t.room + 1

instance (t : Turn cap) : Decidable t.Whole :=
  inferInstanceAs (Decidable (_ ∧ _))

/-- The bytes of a write that the peer's socket takes. A write of a negative length fails: it asks
for more bytes than there are addresses. -/
def WriteCall.accepted (room : Nat) (w : WriteCall) : Bytes :=
  match w.target with
  | .stdout => []
  | .peer => w.buf.take (min w.len (room + 1)).toNat

/-- A connection that was just accepted. -/
def Conversation.start : Conversation :=
  ⟨[], [], [], true⟩

/-- One turn of a server that answers with `reply`. -/
def Conversation.turn (reply : Except Ending (Chunk UInt8 cap) → Reply) (c : Conversation)
    (t : Turn cap) : Conversation :=
  if c.isOpen then
    match reply t.read with
    | .answer writes =>
        { received := c.received ++ t.data
          accepted := c.accepted ++ writes.flatMap (WriteCall.accepted t.room)
          lengths := c.lengths ++ writes.map fun w => (w.len, t.data.length)
          isOpen := true }
    | .close | .exit => { c with received := c.received ++ t.data, isOpen := false }
  else c

/-- The conversation after some turns. -/
def converse (reply : Except Ending (Chunk UInt8 cap) → Reply) (c : Conversation)
    (turns : List (Turn cap)) : Conversation :=
  turns.foldl (Conversation.turn reply) c

/-- While the connection is open, the peer has got all that was read, with `f` applied to each byte,
and no write had a length that is negative or above the number of bytes just read. -/
def Conversation.Faithful (f : UInt8 → UInt8) (c : Conversation) : Prop :=
  (c.isOpen = true → c.accepted = c.received.map f) ∧
    ∀ length ∈ c.lengths, 0 ≤ length.1 ∧ length.1 ≤ length.2

/-- The conversation is faithful after any number of turns. -/
def Echoes (f : UInt8 → UInt8) (reply : Except Ending (Chunk UInt8 cap) → Reply)
    (turns : List (Turn cap)) : Prop :=
  ∀ first, first <+: turns → (converse reply .start first).Faithful f

/-- The server goes on after such a turn. -/
def goesOn (reply : Except Ending (Chunk UInt8 cap) → Reply) (t : Turn cap) : Bool :=
  match reply t.read with
  | .answer _ => true
  | .close | .exit => false

/-- An echo server: it writes the bytes it has read to the peer, and whatever it writes has their
number as its length. If it answers when nothing was read, it writes with a negative length. -/
structure EchoServer (f : UInt8 → UInt8) (reply : Except Ending (Chunk UInt8 cap) → Reply) :
    Prop where
  chunk : ∀ chunk : Chunk UInt8 cap, ∃ writes, reply (.ok chunk) = .answer writes ∧
    (∀ w ∈ writes, w.len = chunk.data.length) ∧
    ∀ room, writes.flatMap (WriteCall.accepted room) =
      (chunk.data.map f).take (min chunk.data.length (room + 1))
  ending : ∀ ending writes, reply (.error ending) = .answer writes → ∃ w ∈ writes, w.len < 0

variable {f : UInt8 → UInt8} {reply : Except Ending (Chunk UInt8 cap) → Reply} {c : Conversation}

/-- What the socket takes of a write of `n` bytes. -/
theorem accepted_peer (buf : Bytes) (n room : Nat) :
    WriteCall.accepted room ⟨.peer, buf, n⟩ = buf.take (min n (room + 1)) := by
  show buf.take (min (n : Int) (room + 1)).toNat = buf.take (min n (room + 1))
  congr 1
  omega

/-- Nothing happens on a closed connection. -/
theorem converse_closed (hc : c.isOpen = false) (turns : List (Turn cap)) :
    converse reply c turns = c := by
  induction turns with
  | nil => rfl
  | cons t turns ih =>
      have hstep : c.turn reply t = c := by
        rw [Conversation.turn, hc, if_neg Bool.false_ne_true]
      show converse reply (c.turn reply t) turns = c
      rw [hstep, ih]

/-- After any number of turns: now, and after one turn and any number of others. -/
theorem forall_converse_cons {P : Conversation → Prop} (t : Turn cap) (turns : List (Turn cap)) :
    (∀ first, first <+: t :: turns → P (converse reply c first)) ↔
      P c ∧ ∀ first, first <+: turns → P (converse reply (c.turn reply t) first) := by
  constructor
  · intro h
    exact ⟨h [] List.nil_prefix,
      fun first hfirst => h (t :: first) ((List.prefix_cons_inj t).mpr hfirst)⟩
  · rintro ⟨hnow, hlater⟩ first hfirst
    cases first with
    | nil => exact hnow
    | cons u first =>
        obtain ⟨rfl, hrest⟩ := List.cons_prefix_cons.mp hfirst
        exact hlater first hrest

/-- A turn in which the server goes on keeps the conversation faithful exactly if it brings data and
the socket takes all of it. -/
theorem EchoServer.turn_iff (h : EchoServer f reply) (hopen : c.isOpen = true)
    (hc : c.Faithful f) {t : Turn cap} (hstays : goesOn reply t = true) :
    (c.turn reply t).isOpen = true ∧ ((c.turn reply t).Faithful f ↔ t.Whole) := by
  obtain ⟨read, room⟩ := t
  obtain ⟨hbytes, hlengths⟩ := hc
  have hbytes := hbytes hopen
  cases read with
  | ok chunk =>
      obtain ⟨writes, hreply, hlen, haccepted⟩ := h.chunk chunk
      have hturn : c.turn reply ⟨.ok chunk, room⟩ =
          ⟨c.received ++ chunk.data, c.accepted ++ writes.flatMap (WriteCall.accepted room),
            c.lengths ++ writes.map fun w => (w.len, chunk.data.length), true⟩ := by
        simp only [Conversation.turn, hopen, if_true, hreply]
        rfl
      have hnew : ∀ length ∈ writes.map fun w => (w.len, chunk.data.length),
          0 ≤ length.1 ∧ length.1 ≤ (length.2 : Int) := by
        refine List.forall_mem_map.mpr fun w hw => ?_
        show 0 ≤ w.len ∧ w.len ≤ (chunk.data.length : Int)
        rw [hlen w hw]
        omega
      rw [hturn]
      refine ⟨rfl, ?_⟩
      rw [Conversation.Faithful, and_iff_left (List.forall_mem_append.mpr ⟨hlengths, hnew⟩),
        forall_prop_of_true rfl, hbytes, List.map_append, List.append_cancel_left_eq, haccepted,
        List.take_eq_self_iff, List.length_map]
      show chunk.data.length ≤ min chunk.data.length (room + 1) ↔
        true = true ∧ chunk.data.length ≤ room + 1
      rw [and_iff_right rfl]
      omega
  | error ending =>
      -- the server answers although nothing was read
      cases hreply : reply (.error ending) with
      | close => simp [goesOn, hreply] at hstays
      | exit => simp [goesOn, hreply] at hstays
      | answer writes =>
          obtain ⟨w, hw, hneg⟩ := h.ending ending writes hreply
          have hturn : c.turn reply ⟨.error ending, room⟩ =
              ⟨c.received ++ [], c.accepted ++ writes.flatMap (WriteCall.accepted room),
                c.lengths ++ writes.map fun w => (w.len, 0), true⟩ := by
            simp only [Conversation.turn, hopen, if_true, hreply]
            rfl
          rw [hturn]
          refine ⟨rfl, iff_of_false (fun hfaithful => ?_) fun hwhole => by cases hwhole.1⟩
          have hrange := hfaithful.2 (w.len, 0)
            (List.mem_append_right _ (List.mem_map_of_mem hw))
          exact absurd hrange.1 (by omega)

/-- The conversation of an echo server from an open connection on. -/
theorem EchoServer.converse_iff (h : EchoServer f reply) (hopen : c.isOpen = true)
    (hc : c.Faithful f) (turns : List (Turn cap)) :
    (∀ first, first <+: turns → (converse reply c first).Faithful f) ↔
      ∀ t ∈ turns.takeWhile (goesOn reply), t.Whole := by
  induction turns generalizing c with
  | nil =>
      refine iff_of_true (fun first hfirst => ?_) (by simp)
      rw [List.prefix_nil.mp hfirst]
      exact hc
  | cons t turns ih =>
      rw [forall_converse_cons, and_iff_right hc]
      cases hstays : goesOn reply t with
      | true =>
          obtain ⟨hnext, hiff⟩ := h.turn_iff hopen hc hstays
          rw [List.takeWhile_cons_of_pos hstays, List.forall_mem_cons]
          by_cases hwhole : t.Whole
          · rw [ih hnext (hiff.mpr hwhole), and_iff_right hwhole]
          · refine iff_of_false (fun hall => hwhole (hiff.mp ?_)) fun hall => hwhole hall.1
            exact hall [] List.nil_prefix
      | false =>
          -- the connection is given up, and what was accepted does not matter any more
          rw [List.takeWhile_cons_of_neg (by rw [hstays]; exact Bool.false_ne_true)]
          refine iff_of_true (fun first _ => ?_) (by simp)
          have hclosed : c.turn reply t =
              { c with received := c.received ++ t.data, isOpen := false } := by
            unfold Conversation.turn
            unfold goesOn at hstays
            rw [hopen, if_pos rfl]
            cases hreply : reply t.read with
            | answer writes => simp [hreply] at hstays
            | close => rfl
            | exit => rfl
          rw [hclosed, converse_closed rfl]
          exact ⟨fun hopened => absurd hopened Bool.false_ne_true, hc.2⟩

/-- An echo server is faithful to its peer exactly if every turn before it gives the connection up
brings data, and the write of the turn takes all of it. -/
theorem EchoServer.echoes_iff (h : EchoServer f reply) (turns : List (Turn cap)) :
    Echoes f reply turns ↔ ∀ t ∈ turns.takeWhile (goesOn reply), t.Whole :=
  h.converse_iff rfl ⟨fun _ => rfl, by simp [Conversation.start]⟩ turns

end NetLib
