import Mathlib.Logic.Function.Basic
import Mathlib.Tactic.Common

/-!
# The kernel's side of `epoll`

Connections as a kernel keeps them for a server that waits with `epoll_wait`. A connection is in the
backlog until it is accepted; from then on it has a descriptor, which the server may put into its
interest list and take out of it. A listed descriptor becomes pending when it is added while
readable and whenever something arrives on it; this is what `epoll_wait` reports of edge-triggered
descriptors, and what it reports is no longer pending. Level-triggered descriptors are reported
while they are readable.

A descriptor is `Asleep` when it is listed and readable but not pending: the kernel does not report
it until something more arrives. The `asleep_*` lemmas say that only two operations send a
descriptor to sleep: `report` those that it reports, and `read` the one that is read.
-/

namespace NetLib

/-- The receiving end of a connection: what has arrived and was not read, and whether the peer has
closed its end. -/
structure Inbox (α : Type*) where
  unread : List α
  eof : Bool

/-- Whether an open descriptor was put into the interest list, and is still there. -/
inductive Interest where
  | never
  | listed
  | removed
  deriving DecidableEq

/-- An accepted connection. -/
structure Conn (α : Type*) where
  inbox : Inbox α
  interest : Interest
  pending : Bool

/-- The connections that wait to be accepted, the oldest first, and the open descriptors. -/
structure Kernel (δ α : Type*) where
  backlog : List (Inbox α)
  conn : δ → Option (Conn α)

/-- The other end of a connection: of one in the backlog, or of an open descriptor. -/
inductive Peer (δ : Type*) where
  | queued (i : Nat)
  | accepted (fd : δ)
  deriving DecidableEq

/-- What the peers do. -/
inductive Traffic (δ α : Type*) where
  | connect
  | send (peer : Peer δ) (data : List α)
  | close (peer : Peer δ)
  deriving DecidableEq

variable {δ α : Type*} [DecidableEq δ]

/-- A read would not block. -/
def Inbox.readable (x : Inbox α) : Bool :=
  !x.unread.isEmpty || x.eof

/-- Change an open descriptor. -/
def Kernel.alter (k : Kernel δ α) (fd : δ) (f : Conn α → Conn α) : Kernel δ α :=
  { k with conn := Function.update k.conn fd ((k.conn fd).map f) }

/-- The receiving end of a connection. -/
def Kernel.inbox (k : Kernel δ α) : Peer δ → Option (Inbox α)
  | .queued i => k.backlog[i]?
  | .accepted fd => (k.conn fd).map Conn.inbox

/-- Something arrives on a connection. -/
def Conn.arrive (x : Inbox α) (c : Conn α) : Conn α :=
  { c with inbox := x, pending := c.pending || c.interest = .listed }

/-- Something arrives: the receiving end is `x` now. -/
def Kernel.arrive (k : Kernel δ α) (x : Inbox α) : Peer δ → Kernel δ α
  | .queued i => { k with backlog := k.backlog.set i x }
  | .accepted fd => k.alter fd (Conn.arrive x)

/-- What a peer does. It sends nothing on a connection that it has closed. -/
def Kernel.traffic (k : Kernel δ α) : Traffic δ α → Option (Kernel δ α)
  | .connect => some { k with backlog := k.backlog ++ [⟨[], false⟩] }
  | .send peer data =>
      (k.inbox peer).bind fun x =>
        if x.eof = false ∧ data ≠ [] then some (k.arrive { x with unread := x.unread ++ data } peer)
        else none
  | .close peer =>
      (k.inbox peer).bind fun x =>
        if x.eof = false then some (k.arrive { x with eof := true } peer) else none

/-- `accept`: the connection `x` gets a descriptor, and `queue` is left in the backlog. -/
def Kernel.open (k : Kernel δ α) (x : Inbox α) (queue : List (Inbox α)) (fd : δ) : Kernel δ α where
  backlog := queue
  conn := Function.update k.conn fd (some ⟨x, .never, false⟩)

/-- `EPOLL_CTL_ADD` of an open descriptor. -/
def Kernel.add (k : Kernel δ α) (fd : δ) : Kernel δ α :=
  k.alter fd fun c => { c with interest := .listed, pending := c.inbox.readable }

/-- `EPOLL_CTL_DEL` of a descriptor that was added. -/
def Kernel.del (k : Kernel δ α) (fd : δ) : Kernel δ α :=
  k.alter fd fun c => { c with interest := .removed, pending := false }

/-- `close`, which also takes the descriptor out of the interest list. -/
def Kernel.close (k : Kernel δ α) (fd : δ) : Kernel δ α :=
  { k with conn := Function.update k.conn fd none }

/-- `read` takes `n` elements. -/
def Kernel.read (k : Kernel δ α) (fd : δ) (n : Nat) : Kernel δ α :=
  k.alter fd fun c => { c with inbox := { c.inbox with unread := c.inbox.unread.drop n } }

/-- `epoll_wait` reports these descriptors. -/
def Kernel.report (k : Kernel δ α) (batch : List δ) : Kernel δ α :=
  { k with conn := fun fd => (k.conn fd).map fun c =>
      { c with pending := c.pending && fd ∉ batch } }

/-- The kernel finds that a pending descriptor has nothing to report, and forgets it. -/
def Kernel.forget (k : Kernel δ α) (fd : δ) : Kernel δ α :=
  k.alter fd fun c => { c with pending := c.pending && c.inbox.readable }

/-- What the kernel knows of the interest of a descriptor, if it is open. -/
def Kernel.interest (k : Kernel δ α) (fd : δ) : Option Interest :=
  (k.conn fd).map Conn.interest

/-- The descriptor is open and a read would not block. -/
def Kernel.readable (k : Kernel δ α) (fd : δ) : Bool :=
  (k.conn fd).any fun c => c.inbox.readable

/-- `epoll_wait` can report an edge-triggered descriptor. -/
def Kernel.edge (k : Kernel δ α) (fd : δ) : Bool :=
  (k.conn fd).any fun c => c.interest = .listed && c.pending && c.inbox.readable

/-- `epoll_wait` can report a level-triggered descriptor. -/
def Kernel.level (k : Kernel δ α) (fd : δ) : Bool :=
  (k.conn fd).any fun c => c.interest = .listed && c.inbox.readable

/-- A connection that is listed and readable but not pending. -/
def Conn.Asleep (c : Conn α) : Prop :=
  c.interest = .listed ∧ c.inbox.readable = true ∧ c.pending = false

/-- A descriptor with such a connection. -/
def Kernel.Asleep (k : Kernel δ α) (fd : δ) : Prop :=
  ∃ c, k.conn fd = some c ∧ c.Asleep

variable {k next : Kernel δ α} {fd d : δ} {f : Conn α → Conn α}

/-! ## One descriptor -/

theorem alter_same : (k.alter fd f).conn fd = (k.conn fd).map f :=
  Function.update_self ..

theorem alter_ne (h : d ≠ fd) : (k.alter fd f).conn d = k.conn d :=
  Function.update_of_ne h ..

theorem open_same {x : Inbox α} {queue : List (Inbox α)} :
    (k.open x queue fd).conn fd = some ⟨x, .never, false⟩ :=
  Function.update_self ..

theorem open_ne {x : Inbox α} {queue : List (Inbox α)} (h : d ≠ fd) :
    (k.open x queue fd).conn d = k.conn d :=
  Function.update_of_ne h ..

theorem close_same : (k.close fd).conn fd = none :=
  Function.update_self ..

theorem close_ne (h : d ≠ fd) : (k.close fd).conn d = k.conn d :=
  Function.update_of_ne h ..

/-- A change that keeps the interest. -/
theorem interest_alter (h : ∀ c, (f c).interest = c.interest) :
    (k.alter fd f).interest d = k.interest d := by
  unfold Kernel.interest
  by_cases hd : d = fd
  · rw [hd, alter_same, Option.map_map]
    exact congrArg (Option.map · (k.conn fd)) (funext h)
  · rw [alter_ne hd]

/-- A change sends no descriptor to sleep except perhaps the one that is changed. -/
theorem asleep_alter (h : (k.alter fd f).Asleep d) :
    k.Asleep d ∨ d = fd ∧ ∃ c, k.conn fd = some c ∧ (f c).Asleep := by
  obtain ⟨c, hc, hasleep⟩ := h
  by_cases hd : d = fd
  · rw [hd, alter_same] at hc
    obtain ⟨c, hfd, rfl⟩ := Option.map_eq_some_iff.mp hc
    exact .inr ⟨hd, c, hfd, hasleep⟩
  · rw [alter_ne hd] at hc
    exact .inl ⟨c, hc, hasleep⟩

/-- What the peers do: a connection joins the backlog, or something arrives. -/
theorem traffic_cases {t : Traffic δ α} (ht : k.traffic t = some next) :
    next = { k with backlog := k.backlog ++ [⟨[], false⟩] } ∨ ∃ x peer, next = k.arrive x peer := by
  cases t with
  | connect => exact .inl (Option.some.inj ht).symm
  | send peer data =>
      obtain ⟨x, -, ht⟩ := Option.bind_eq_some_iff.mp ht
      obtain ⟨-, hnext⟩ := Option.ite_none_right_eq_some.mp ht
      exact .inr ⟨_, peer, (Option.some.inj hnext).symm⟩
  | close peer =>
      obtain ⟨x, -, ht⟩ := Option.bind_eq_some_iff.mp ht
      obtain ⟨-, hnext⟩ := Option.ite_none_right_eq_some.mp ht
      exact .inr ⟨_, peer, (Option.some.inj hnext).symm⟩

/-! ## Which operations send a descriptor to sleep -/

/-- What arrives on a listed connection wakes it. -/
theorem asleep_arrive {x : Inbox α} {c : Conn α} : ¬ (c.arrive x).Asleep := by
  rintro ⟨hlisted, -, hpending⟩
  have hlisted : c.interest = .listed := hlisted
  simp [Conn.arrive, hlisted] at hpending

/-- What the peers do sends nothing to sleep. -/
theorem asleep_traffic {t : Traffic δ α} (ht : k.traffic t = some next) (h : next.Asleep d) :
    k.Asleep d := by
  obtain rfl | ⟨x, peer, rfl⟩ := traffic_cases ht
  · exact h
  · cases peer with
    | queued i => exact h
    | accepted fd =>
        rcases asleep_alter h with h | ⟨-, c, -, hc⟩
        · exact h
        · exact absurd hc asleep_arrive

/-- A descriptor that was just opened is not listed. -/
theorem asleep_open {x : Inbox α} {queue : List (Inbox α)} (h : (k.open x queue fd).Asleep d) :
    k.Asleep d := by
  obtain ⟨c, hc, hasleep⟩ := h
  by_cases hd : d = fd
  · rw [hd, open_same] at hc
    rw [← Option.some.inj hc] at hasleep
    exact absurd hasleep.1 (by simp)
  · rw [open_ne hd] at hc
    exact ⟨c, hc, hasleep⟩

/-- A descriptor that is readable when it is added is pending. -/
theorem asleep_add (h : (k.add fd).Asleep d) : k.Asleep d := by
  rcases asleep_alter h with h | ⟨-, c, -, -, hreadable, hpending⟩
  · exact h
  · have hreadable : c.inbox.readable = true := hreadable
    have hpending : c.inbox.readable = false := hpending
    rw [hreadable] at hpending
    cases hpending

theorem asleep_del (h : (k.del fd).Asleep d) : k.Asleep d := by
  rcases asleep_alter h with h | ⟨-, c, -, hlisted, -⟩
  · exact h
  · cases hlisted

/-- A descriptor that was closed is not asleep. -/
theorem asleep_close (h : (k.close fd).Asleep d) : d ≠ fd ∧ k.Asleep d := by
  obtain ⟨c, hc, hasleep⟩ := h
  by_cases hd : d = fd
  · rw [hd, close_same] at hc
    cases hc
  · rw [close_ne hd] at hc
    exact ⟨hd, c, hc, hasleep⟩

/-- Reading may leave something behind. -/
theorem asleep_read {n : Nat} (h : (k.read fd n).Asleep d) : k.Asleep d ∨ d = fd :=
  (asleep_alter h).imp_right And.left

/-- What is reported is no longer pending. -/
theorem asleep_report {batch : List δ} (h : (k.report batch).Asleep d) :
    k.Asleep d ∨ d ∈ batch := by
  obtain ⟨c, hc, hlisted, hreadable, hpending⟩ := h
  obtain ⟨c, hd, rfl⟩ := Option.map_eq_some_iff.mp hc
  by_cases hmem : d ∈ batch
  · exact .inr hmem
  · refine .inl ⟨c, hd, hlisted, hreadable, ?_⟩
    simpa [hmem] using hpending

/-- The kernel forgets no descriptor that is readable. -/
theorem asleep_forget (h : (k.forget fd).Asleep d) : k.Asleep d := by
  rcases asleep_alter h with h | ⟨rfl, c, hc, hlisted, hreadable, hpending⟩
  · exact h
  · have hreadable : c.inbox.readable = true := hreadable
    have hpending : (c.pending && c.inbox.readable) = false := hpending
    rw [hreadable, Bool.and_true] at hpending
    exact ⟨c, hc, hlisted, hreadable, hpending⟩

/-! ## The interest list -/

/-- What the peers do does not change the interest list. -/
theorem interest_traffic {t : Traffic δ α} (ht : k.traffic t = some next) :
    next.interest d = k.interest d := by
  obtain rfl | ⟨x, peer, rfl⟩ := traffic_cases ht
  · rfl
  · cases peer with
    | queued i => rfl
    | accepted fd => exact interest_alter fun c => rfl

theorem interest_read {n : Nat} : (k.read fd n).interest d = k.interest d :=
  interest_alter fun _ => rfl

theorem interest_forget : (k.forget fd).interest d = k.interest d :=
  interest_alter fun _ => rfl

theorem interest_report {batch : List δ} : (k.report batch).interest d = k.interest d := by
  rw [Kernel.interest, Kernel.report, Option.map_map]
  rfl

theorem interest_open {x : Inbox α} {queue : List (Inbox α)} :
    (k.open x queue fd).interest d = if d = fd then some .never else k.interest d := by
  unfold Kernel.interest
  by_cases hd : d = fd
  · rw [if_pos hd, hd, open_same, Option.map_some]
  · rw [if_neg hd, open_ne hd]

theorem interest_close :
    (k.close fd).interest d = if d = fd then none else k.interest d := by
  unfold Kernel.interest
  by_cases hd : d = fd
  · rw [if_pos hd, hd, close_same, Option.map_none]
  · rw [if_neg hd, close_ne hd]

/-- The interest in one descriptor is set, if it is open. -/
theorem interest_set {f : Conn α → Conn α} {i : Interest} (hf : ∀ c, (f c).interest = i) :
    (k.alter fd f).interest d =
      if d = fd then (k.interest d).map fun _ => i else k.interest d := by
  unfold Kernel.interest
  by_cases hd : d = fd
  · rw [if_pos hd, hd, alter_same, Option.map_map, Option.map_map]
    exact congrArg (fun g => (k.conn fd).map g) (funext hf)
  · rw [if_neg hd, alter_ne hd]

/-- An open descriptor that is added is listed. -/
theorem interest_add : (k.add fd).interest d =
    if d = fd then (k.interest d).map fun _ => .listed else k.interest d :=
  interest_set fun _ => rfl

theorem interest_del : (k.del fd).interest d =
    if d = fd then (k.interest d).map fun _ => .removed else k.interest d :=
  interest_set fun _ => rfl

omit [DecidableEq δ]

/-- What is asleep can be read. -/
theorem readable_of_asleep (h : k.Asleep fd) : k.readable fd = true := by
  obtain ⟨c, hc, -, hreadable, -⟩ := h
  rw [Kernel.readable, hc, Option.any_some, hreadable]

/-- Only listed descriptors are reported. -/
theorem listed_of_level (h : k.level fd = true) : k.interest fd = some .listed := by
  unfold Kernel.level at h
  rw [Option.any_eq_true] at h
  obtain ⟨c, hc, h⟩ := h
  rw [Bool.and_eq_true, decide_eq_true_eq] at h
  rw [Kernel.interest, hc, Option.map_some, h.1]

/-- An edge-triggered descriptor is reported in a case in which a level-triggered one is too. -/
theorem level_of_edge (h : k.edge fd = true) : k.level fd = true := by
  unfold Kernel.edge at h
  rw [Option.any_eq_true] at h
  obtain ⟨c, hc, h⟩ := h
  rw [Bool.and_eq_true, Bool.and_eq_true] at h
  rw [Kernel.level, hc, Option.any_some, h.1.1, h.2]
  rfl

end NetLib
