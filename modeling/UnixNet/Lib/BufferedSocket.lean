import Mathlib.Logic.Function.Basic
import UnixNet.Lib.Execution

/-!
# An event loop over sockets with buffers

Sockets that are read and written behind the program's back, the way an event library does it. What
arrives is put into the input buffer of a socket, what the program has to say waits in its output
buffer, and the loop calls the program: when data has arrived, when the output has fallen to the low
mark, and when the socket reports its end or an error. The calls are deferred, so between the cause
of a call and the call anything else may happen. Read `Callbacks.act` first. A program is a value of
`Callbacks`; a callback has no result when it uses a socket that was freed (`onSocket`).
-/

namespace NetLib

/-- What a socket reports besides data. `reading` says which of its two directions ended. -/
inductive Report where
  | connected
  | eof (reading : Bool)
  | error (reading : Bool)
  deriving DecidableEq

/-- The report is one of an end or an error. -/
def Report.ends : Report → Bool
  | .connected => false
  | .eof _ => true
  | .error _ => true

/-- The directions that go on after a report. -/
def Report.leaves : Report → Bool → Bool
  | .connected, _ => true
  | .eof ended, reading => reading != ended
  | .error ended, reading => reading != ended

/-- A socket with its buffers. `received` is all that came from the peer and `delivered` all that it
was given; `reads` and `writes` are the enabled directions, `connecting` says that the peer has not
answered yet, `low` is the low mark of the output, `reader` says whether a read callback is set. The
pending flags and `reports` are calls that are due. -/
structure BufSock (α ω γ : Type*) where
  input : List α
  output : List α
  received : List α
  delivered : List α
  reads : Bool
  writes : Bool
  connecting : Bool
  low : Nat
  reader : Bool
  writecb : Option ω
  ctx : γ
  readPending : Bool
  writePending : Bool
  reports : List Report
  broken : Bool
  isOpen : Bool

variable {α ω γ ι : Type*}

namespace BufSock

/-- A new socket: it is written, but not read until that is enabled. -/
def new (ctx : γ) : BufSock α ω γ where
  input := []
  output := []
  received := []
  delivered := []
  reads := false
  writes := true
  connecting := false
  low := 0
  reader := false
  writecb := none
  ctx := ctx
  readPending := false
  writePending := false
  reports := []
  broken := false
  isOpen := true

/-- Data arrives. -/
def receive (b : BufSock α ω γ) (data : List α) : BufSock α ω γ :=
  { b with
    input := b.input ++ data
    received := b.received ++ data
    readPending := b.readPending || b.reader }

/-- The network takes the first `n` elements of the output. -/
def flush (b : BufSock α ω γ) (n : Nat) : BufSock α ω γ :=
  { b with
    output := b.output.drop n
    delivered := b.delivered ++ b.output.take n
    writePending := b.writePending || (b.writecb.isSome && (b.output.drop n).length ≤ b.low) }

/-- The socket reports something. A direction in which it failed is disabled. -/
def report (b : BufSock α ω γ) (r : Report) : BufSock α ω γ :=
  { b with
    reports := b.reports ++ [r]
    broken := b.broken || r.ends
    connecting := b.connecting && r.ends
    reads := b.reads && r.leaves true
    writes := b.writes && r.leaves false }

/-- Begin to connect to a peer. -/
def connect (b : BufSock α ω γ) : BufSock α ω γ :=
  { b with connecting := true }

/-- Take everything out of the input buffer. -/
def drain (b : BufSock α ω γ) : BufSock α ω γ :=
  { b with input := [] }

/-- Put data behind the output. -/
def add (b : BufSock α ω γ) (data : List α) : BufSock α ω γ :=
  { b with output := b.output ++ data }

/-- Set the callbacks and their argument. -/
def setcb (b : BufSock α ω γ) (reader : Bool) (writecb : Option ω) (ctx : γ) : BufSock α ω γ :=
  { b with reader := reader, writecb := writecb, ctx := ctx }

/-- Set the low mark of the output. -/
def setwatermark (b : BufSock α ω γ) (low : Nat) : BufSock α ω γ :=
  { b with low := low }

/-- Go on reading. -/
def enableRead (b : BufSock α ω γ) : BufSock α ω γ :=
  { b with reads := true }

/-- Stop reading. -/
def disableRead (b : BufSock α ω γ) : BufSock α ω γ :=
  { b with reads := false }

/-- Close the socket. What is left in its buffers is lost, and no callback of it runs any more. -/
def free (b : BufSock α ω γ) : BufSock α ω γ :=
  { b with isOpen := false }

/-- What is flushed only moves from the output to the peer. -/
theorem flush_stream (b : BufSock α ω γ) (n : Nat) :
    (b.flush n).delivered ++ (b.flush n).output = b.delivered ++ b.output := by
  show b.delivered ++ b.output.take n ++ b.output.drop n = _
  rw [List.append_assoc, List.take_append_drop]

end BufSock

/-! ## The loop -/

/-- What can happen at a socket. -/
inductive SockEvent (α : Type*) where
  | receive (data : List α)
  | flush (n : Nat)
  | report (r : Report)
  | runRead
  | runWrite
  | runEvent

/-- The network or the loop can go on by itself: the peer need not send or fail for it. -/
def SockEvent.internal : SockEvent α → Bool
  | .receive _ => false
  | .report _ => false
  | .flush _ => true
  | .runRead => true
  | .runWrite => true
  | .runEvent => true

/-- What can happen now. At most `room` elements wait in an input buffer. -/
def BufSock.Enabled (room : Nat) (b : BufSock α ω γ) : SockEvent α → Prop
  | .receive data =>
      b.isOpen = true ∧ b.reads = true ∧ data ≠ [] ∧ b.input.length + data.length ≤ room
  | .flush n => b.isOpen = true ∧ b.writes = true ∧ 0 < n ∧ n ≤ b.output.length
  | .report r =>
      b.isOpen = true ∧ (r.ends || b.connecting) = true ∧ (r.leaves true || b.reads) = true ∧
        (r.leaves false || b.writes) = true
  | .runRead => b.isOpen = true ∧ b.readPending = true ∧ b.reader = true
  | .runWrite => b.isOpen = true ∧ b.writePending = true ∧ b.writecb.isSome = true
  | .runEvent => b.isOpen = true ∧ b.reports ≠ []

instance (room : Nat) (b : BufSock α ω γ) : (e : SockEvent α) → Decidable (b.Enabled room e)
  | .receive _ => inferInstanceAs (Decidable (_ ∧ _))
  | .flush _ => inferInstanceAs (Decidable (_ ∧ _))
  | .report _ => inferInstanceAs (Decidable (_ ∧ _))
  | .runRead => inferInstanceAs (Decidable (_ ∧ _))
  | .runWrite => inferInstanceAs (Decidable (_ ∧ _))
  | .runEvent => inferInstanceAs (Decidable (_ ∧ _))

/-- What happens needs an open socket. -/
theorem BufSock.Enabled.isOpen {room : Nat} {b : BufSock α ω γ} {e : SockEvent α}
    (h : b.Enabled room e) : b.isOpen = true := by
  cases e <;> exact h.1

/-- The sockets of a program. -/
abbrev Sockets (ι α ω γ : Type*) := ι → BufSock α ω γ

variable [DecidableEq ι]

/-- Use a socket, which must not have been freed. -/
def onSocket (s : Sockets ι α ω γ) (i : ι) (use : BufSock α ω γ → BufSock α ω γ) :
    Option (Sockets ι α ω γ) :=
  if (s i).isOpen then some (Function.update s i (use (s i))) else none

/-- Using an open socket. -/
theorem on_socket_of_open {s : Sockets ι α ω γ} {i : ι} {use : BufSock α ω γ → BufSock α ω γ}
    (h : (s i).isOpen = true) : onSocket s i use = some (Function.update s i (use (s i))) :=
  if_pos h

/-- The callbacks of a program. Each gets the socket it is called for and the argument that was set
with it. -/
structure Callbacks (ι α ω γ : Type*) where
  onRead : Sockets ι α ω γ → ι → γ → Option (Sockets ι α ω γ)
  onWrite : ω → Sockets ι α ω γ → ι → γ → Option (Sockets ι α ω γ)
  onEvent : Sockets ι α ω γ → ι → List Report → γ → Option (Sockets ι α ω γ)

/-- What happens at a socket. A callback runs with what is set when it runs, and its cause is taken
back before. -/
def Callbacks.act (prog : Callbacks ι α ω γ) (s : Sockets ι α ω γ) (i : ι) :
    SockEvent α → Option (Sockets ι α ω γ)
  | .receive data => some (Function.update s i ((s i).receive data))
  | .flush n => some (Function.update s i ((s i).flush n))
  | .report r => some (Function.update s i ((s i).report r))
  | .runRead =>
      prog.onRead (Function.update s i { s i with readPending := false }) i (s i).ctx
  | .runWrite =>
      match (s i).writecb with
      | none => some s
      | some w =>
          prog.onWrite w (Function.update s i { s i with writePending := false }) i (s i).ctx
  | .runEvent =>
      prog.onEvent (Function.update s i { s i with reports := [] }) i (s i).reports (s i).ctx

/-- One step of the loop: something happens that can happen. -/
def Callbacks.step (prog : Callbacks ι α ω γ) (room : Nat) (s : Sockets ι α ω γ)
    (e : ι × SockEvent α) : Option (Sockets ι α ω γ) :=
  if (s e.1).Enabled room e.2 then prog.act s e.1 e.2 else none

/-- A step that was made. -/
theorem Callbacks.step_eq_some {prog : Callbacks ι α ω γ} {room : Nat} {s next : Sockets ι α ω γ}
    {e : ι × SockEvent α} :
    prog.step room s e = some next ↔
      (s e.1).Enabled room e.2 ∧ prog.act s e.1 e.2 = some next := by
  rw [Callbacks.step, Option.ite_none_right_eq_some]

/-- Nothing more happens unless a peer sends or fails. -/
def Quiet (room : Nat) (s : Sockets ι α ω γ) : Prop :=
  ∀ i (e : SockEvent α), e.internal = true → ¬ (s i).Enabled room e

omit [DecidableEq ι] in
/-- When nothing more happens, an open socket has no call due and no output it could write. -/
theorem Quiet.idle {room : Nat} {s : Sockets ι α ω γ} (h : Quiet room s) {i : ι}
    (hopen : (s i).isOpen = true) :
    (s i).reports = [] ∧ ((s i).writes = true → (s i).output = []) ∧
      ((s i).readPending = true → (s i).reader = false) ∧
      ((s i).writePending = true → (s i).writecb = none) := by
  refine ⟨?_, fun hwrites => ?_, fun hpending => ?_, fun hpending => ?_⟩
  · by_contra hreports
    exact h i .runEvent rfl ⟨hopen, hreports⟩
  · by_contra houtput
    have hpos : 0 < (s i).output.length := List.length_pos_iff.mpr houtput
    exact h i (.flush (s i).output.length) rfl ⟨hopen, hwrites, hpos, Nat.le_refl _⟩
  · by_contra hreader
    exact h i .runRead rfl ⟨hopen, hpending, Bool.not_eq_false _ ▸ hreader⟩
  · by_contra hwritecb
    exact h i .runWrite rfl ⟨hopen, hpending, Option.isSome_iff_ne_none.mpr hwritecb⟩

/-! ## Programs whose callbacks use only their own socket -/

/-- Callbacks that use the socket they are called for, and no other one. -/
structure LocalCallbacks (α ω γ : Type*) where
  onRead : BufSock α ω γ → BufSock α ω γ
  onWrite : ω → BufSock α ω γ → BufSock α ω γ
  onEvent : List Report → BufSock α ω γ → BufSock α ω γ

/-- Such callbacks as those of a program. -/
def LocalCallbacks.callbacks (prog : LocalCallbacks α ω γ) : Callbacks ι α ω γ where
  onRead := fun s i _ => onSocket s i prog.onRead
  onWrite := fun w s i _ => onSocket s i (prog.onWrite w)
  onEvent := fun s i reports _ => onSocket s i (prog.onEvent reports)

/-- What happens to the socket. -/
def LocalCallbacks.next (prog : LocalCallbacks α ω γ) (b : BufSock α ω γ) :
    SockEvent α → BufSock α ω γ
  | .receive data => b.receive data
  | .flush n => b.flush n
  | .report r => b.report r
  | .runRead => prog.onRead { b with readPending := false }
  | .runWrite =>
      match b.writecb with
      | none => b
      | some w => prog.onWrite w { b with writePending := false }
  | .runEvent => prog.onEvent b.reports { b with reports := [] }

variable {prog : LocalCallbacks α ω γ} {room : Nat} {s next : Sockets ι α ω γ}

/-- The write callback that is set runs. -/
theorem LocalCallbacks.next_write {b : BufSock α ω γ} {w : ω} (h : b.writecb = some w) :
    prog.next b .runWrite = prog.onWrite w { b with writePending := false } := by
  unfold LocalCallbacks.next
  simp only [h]

/-- A step changes only the socket where it happens. -/
theorem LocalCallbacks.act_eq {i : ι} {e : SockEvent α} (hopen : (s i).isOpen = true) :
    prog.callbacks.act s i e = some (Function.update s i (prog.next (s i) e)) := by
  cases e with
  | receive data | flush n | report r => rfl
  | runRead | runEvent =>
      refine (on_socket_of_open ?_).trans ?_
      · rw [Function.update_self]
        exact hopen
      · rw [Function.update_self, Function.update_idem]
        rfl
  | runWrite =>
      cases hcb : (s i).writecb with
      | none => simp only [Callbacks.act, LocalCallbacks.next, hcb, Function.update_eq_self]
      | some w =>
          simp only [Callbacks.act, LocalCallbacks.next, hcb]
          refine (on_socket_of_open ?_).trans ?_
          · rw [Function.update_self]
            exact hopen
          · rw [Function.update_self, Function.update_idem]

/-- What every event keeps for its socket holds of every socket in every run. -/
theorem LocalCallbacks.run_invariant {Inv : BufSock α ω γ → Prop}
    (hkept : ∀ b (e : SockEvent α), Inv b → b.Enabled room e → Inv (prog.next b e))
    (hstart : ∀ i, Inv (s i)) {events : List (ι × SockEvent α)}
    (hrun : runEvents (prog.callbacks.step room) s events = some next) (i : ι) : Inv (next i) := by
  refine run_events_induction (fun _ s => ∀ i, Inv (s i)) hstart ?_ hrun i
  intro _ s e next hinv hstep j
  obtain ⟨henabled, hact⟩ := Callbacks.step_eq_some.mp hstep
  rw [act_eq henabled.isOpen, Option.some.injEq] at hact
  rw [← hact]
  by_cases hj : j = e.1
  · rw [hj, Function.update_self]
    exact hkept _ _ (hinv _) henabled
  · rw [Function.update_of_ne hj]
    exact hinv j

end NetLib
