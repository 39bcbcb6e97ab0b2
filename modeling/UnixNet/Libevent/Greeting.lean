import UnixNet.Lib.BufferedSocket
import UnixNet.Libevent.EchoCallbacks

/-!
# The greeting servers

`hello-world.c` sends a message to every client and closes the connection when it is flushed;
`helloworld-change.c` keeps it open and echoes what the client sends, at most 1500 bytes in a call.
Both run any number of clients side by side in one event loop. `hello_world_greets` and
`helloworld_change_echoes` say what every client has been given in every run, and what is left when
the loop has nothing more to do.
-/

namespace UnixNet.Libevent

open NetLib

/-- A bufferevent of the two servers. -/
abbrev Conn := BufSock UInt8 Unit Unit

/-- `MESSAGE` -/
def MESSAGE : Bytes := ascii "Hello, World!\n"

namespace HelloWorld

/-- `listener_cb` of `hello-world.c` -/
def listenerCb : Conn :=
  (((BufSock.new ()).setcb false (some ()) ()).disableRead).add MESSAGE

/-- `conn_writecb` -/
def connWritecb (bev : Conn) : Conn :=
  if bev.output = [] then bev.free else bev

/-- `conn_eventcb` -/
def connEventcb (bev : Conn) : Conn :=
  bev.free

/-- The callbacks of `hello-world.c`. -/
def callbacks : LocalCallbacks UInt8 Unit Unit where
  onRead := id
  onWrite := fun _ => connWritecb
  onEvent := fun _ => connEventcb

/-- What holds of every client. -/
structure Inv (b : Conn) : Prop where
  reads : b.reads = false
  reader : b.reader = false
  writecb : b.writecb = some ()
  connecting : b.connecting = false
  stream : MESSAGE = b.delivered ++ b.output
  due : b.isOpen = true → b.output = [] → b.writePending = true
  writes : b.isOpen = true → b.writes = false → b.reports ≠ []
  broken : b.reports ≠ [] → b.broken = true
  closed : b.isOpen = false → b.broken = false → b.output = []

theorem Inv.listener : Inv listenerCb where
  reads := rfl
  reader := rfl
  writecb := rfl
  connecting := rfl
  stream := rfl
  due := fun _ h => absurd h (by decide)
  writes := fun _ h => nomatch h
  broken := fun h => absurd rfl h
  closed := fun h => nomatch h

variable {room : Nat} {b : Conn} {e : SockEvent UInt8}

/-- Every event keeps it. -/
theorem Inv.next (h : Inv b) (he : b.Enabled room e) : Inv (callbacks.next b e) := by
  have hopen := he.isOpen
  cases e with
  | receive data =>
      have hreads := he.2.1
      rw [h.reads] at hreads
      cases hreads
  | flush n =>
      exact { h with
        stream := by
          show MESSAGE = (b.flush n).delivered ++ (b.flush n).output
          rw [BufSock.flush_stream, h.stream]
        due := by
          intro _ hnone
          show (b.writePending || (b.writecb.isSome && decide ((b.output.drop n).length ≤ b.low))) =
            true
          rw [show b.output.drop n = [] from hnone, h.writecb]
          simp
        closed := fun hclosed => absurd hopen (Bool.not_eq_true _ ▸ hclosed) }
  | report r =>
      have hends : r.ends = true := by
        have hkind := he.2.1
        rwa [h.connecting, Bool.or_false] at hkind
      exact { h with
        reads := by
          show (b.reads && _) = false
          rw [h.reads, Bool.false_and]
        connecting := by
          show (b.connecting && _) = false
          rw [h.connecting, Bool.false_and]
        writes := fun _ _ => List.append_ne_nil_of_right_ne_nil _ (List.cons_ne_nil _ _)
        broken := by
          intro _
          show (b.broken || r.ends) = true
          rw [hends, Bool.or_true]
        closed := fun hclosed => absurd hopen (Bool.not_eq_true _ ▸ hclosed) }
  | runRead =>
      have hreader := he.2.2
      rw [h.reader] at hreader
      cases hreader
  | runWrite =>
      rw [LocalCallbacks.next_write h.writecb]
      show Inv (if b.output = [] then _ else _)
      by_cases hnone : b.output = []
      · rw [if_pos hnone]
        exact { h with
          due := nofun
          writes := nofun
          closed := fun _ _ => hnone }
      · rw [if_neg hnone]
        exact { h with due := fun _ h => absurd h hnone }
  | runEvent =>
      have hbroken := h.broken he.2
      exact { h with
        due := nofun
        writes := nofun
        broken := fun hnone => absurd rfl hnone
        closed := by
          intro _ hwhole
          have hstill : b.broken = false := hwhole
          rw [hbroken] at hstill
          cases hstill }

variable {ι : Type*} [DecidableEq ι]

/-- What every client of `hello-world.c` is given, with any number of clients and in every order of
events: a beginning of the message, and all of it when its connection was closed, unless that has
failed. When nothing more can be done, every connection was closed. -/
theorem hello_world_greets {events : List (ι × SockEvent UInt8)} {s : Sockets ι UInt8 Unit Unit}
    (hrun : runEvents (callbacks.callbacks.step room) (fun _ => listenerCb) events = some s)
    (i : ι) :
    (s i).delivered <+: MESSAGE ∧
      ((s i).isOpen = false → (s i).broken = false → (s i).delivered = MESSAGE) ∧
      (Quiet room s → (s i).isOpen = false) := by
  have h : Inv (s i) :=
    LocalCallbacks.run_invariant (fun _ _ hinv he => hinv.next he) (fun _ => .listener) hrun i
  refine ⟨⟨(s i).output, h.stream.symm⟩, fun hclosed hwhole => ?_, fun hquiet => ?_⟩
  · have hstream := h.stream
    rw [h.closed hclosed hwhole, List.append_nil] at hstream
    exact hstream.symm
  · by_contra hnot
    have hopen : (s i).isOpen = true := Bool.not_eq_false _ ▸ hnot
    obtain ⟨hreports, hwrites, _, hwrite⟩ := hquiet.idle hopen
    -- an open connection without reports can write, and is closed when its output is written
    have hnone : (s i).output = [] := by
      refine hwrites ?_
      by_contra hstopped
      exact h.writes hopen (Bool.not_eq_true _ ▸ hstopped) hreports
    have hcb := hwrite (h.due hopen hnone)
    rw [h.writecb] at hcb
    cases hcb

/-- Two clients. One was given the message, the connection of the other one has failed. -/
def twoClients : List (Bool × SockEvent UInt8) :=
  [(true, .flush 10), (false, .report (.error false)), (true, .flush 4), (false, .runEvent),
    (true, .runWrite)]

theorem run_two_clients :
    (runEvents (callbacks.callbacks.step 0) (fun _ => listenerCb) twoClients).isSome = true := by
  decide

theorem hello_world_greets_two_clients :
    (((runEvents (callbacks.callbacks.step 0) (fun _ => listenerCb) twoClients).get run_two_clients)
      true).delivered <+: MESSAGE :=
  (hello_world_greets (Option.some_get run_two_clients).symm true).1

end HelloWorld

namespace HelloworldChange

/-- `listener_cb` of `helloworld-change.c` -/
def listenerCb : Conn :=
  (((BufSock.new ()).setcb true (some ()) ()).enableRead).add MESSAGE

/-- `conn_readcb` as a callback of a connection: what `connReadcb` writes back is put behind the
output, and what it leaves stays in the input buffer. -/
def readInput (bev : Conn) : Conn :=
  let (echo, left) := connReadcb [] bev.input
  { bev.add echo with input := left }

/-- The callbacks of `helloworld-change.c`. `conn_writecb` does nothing. -/
def callbacks : LocalCallbacks UInt8 Unit Unit where
  onRead := readInput
  onWrite := fun _ bev => bev
  onEvent := fun _ => HelloWorld.connEventcb

/-- What holds of every client: nothing of the message and of what was received is lost on the way
to the client, and what no read callback is due for is what 1500 bytes at a time leave. -/
structure Inv (room : Nat) (b : Conn) : Prop where
  reader : b.reader = true
  stream : MESSAGE ++ b.received = b.delivered ++ b.output ++ b.input
  roomy : b.input.length ≤ room
  due : b.readPending = false → b.input.length ≤ room - 1500
  writes : b.isOpen = true → b.writes = false → b.reports ≠ []
  broken : b.reports = [] → b.isOpen = true → b.broken = false

variable {room : Nat} {b : Conn} {e : SockEvent UInt8}

theorem Inv.listener : Inv room listenerCb where
  reader := rfl
  stream := rfl
  roomy := Nat.zero_le _
  due := fun _ => Nat.zero_le _
  writes := fun _ h => nomatch h
  broken := fun _ _ => rfl

/-- `conn_readcb` writes back what it takes out of the input buffer. -/
theorem conn_readcb_echo (behind input : Bytes) :
    connReadcb behind input = (input.take 1500, input.drop 1500) := by
  show ((overwrite (input.take 1500) (zeros 1500)).take (input.take 1500).length, _) = _
  rw [take_overwrite (Nat.le_refl _), List.take_length]

theorem read_input_eq (b : Conn) :
    readInput b =
      { b with output := b.output ++ b.input.take 1500, input := b.input.drop 1500 } := by
  unfold readInput
  rw [conn_readcb_echo]
  rfl

/-- Every event keeps it. -/
theorem Inv.next (h : Inv room b) (he : b.Enabled room e) : Inv room (callbacks.next b e) := by
  cases e with
  | receive data =>
      have hpending : (b.receive data).readPending = true := by
        show (b.readPending || b.reader) = true
        rw [h.reader, Bool.or_true]
      exact { h with
        stream := by
          show MESSAGE ++ (b.received ++ data) = b.delivered ++ b.output ++ (b.input ++ data)
          rw [← List.append_assoc, h.stream, List.append_assoc (b.delivered ++ b.output)]
        roomy := by
          show (b.input ++ data).length ≤ room
          rw [List.length_append]
          exact he.2.2.2
        due := fun hnot => absurd hpending (Bool.not_eq_true _ ▸ hnot) }
  | flush n =>
      exact { h with
        stream := by
          show _ = (b.flush n).delivered ++ (b.flush n).output ++ b.input
          rw [BufSock.flush_stream]
          exact h.stream }
  | report r =>
      have hmore : (b.report r).reports ≠ [] :=
        List.append_ne_nil_of_right_ne_nil _ (List.cons_ne_nil _ _)
      exact { h with
        writes := fun _ _ => hmore
        broken := fun hnone => absurd hnone hmore }
  | runRead =>
      show Inv room (readInput { b with readPending := false })
      rw [read_input_eq]
      exact { h with
        stream := by
          show _ = b.delivered ++ (b.output ++ b.input.take 1500) ++ b.input.drop 1500
          rw [← List.append_assoc, List.append_assoc _ (b.input.take 1500),
            List.take_append_drop]
          exact h.stream
        roomy := by
          show (b.input.drop 1500).length ≤ room
          rw [List.length_drop]
          exact Nat.le_trans (Nat.sub_le _ _) h.roomy
        due := by
          intro _
          show (b.input.drop 1500).length ≤ room - 1500
          rw [List.length_drop]
          exact Nat.sub_le_sub_right h.roomy _ }
  | runWrite =>
      cases hcb : b.writecb with
      | none =>
          unfold LocalCallbacks.next
          simp only [hcb]
          exact h
      | some w =>
          rw [LocalCallbacks.next_write hcb]
          exact { h with }
  | runEvent =>
      exact { h with
        writes := nofun
        broken := nofun }

variable {ι : Type*} [DecidableEq ι]

/-- What every client of `helloworld-change.c` is given, with any number of clients and in every
order of events: the message and then what it has sent, without a loss or a change of order, less
what is still in the two buffers. When nothing more can be done, an open connection has not failed,
its output was delivered, and of what can wait in the input buffer all but the first 1500 bytes may
be left there. -/
theorem helloworld_change_echoes {events : List (ι × SockEvent UInt8)}
    {s : Sockets ι UInt8 Unit Unit}
    (hrun : runEvents (callbacks.callbacks.step room) (fun _ => listenerCb) events = some s)
    (i : ι) :
    MESSAGE ++ (s i).received = (s i).delivered ++ (s i).output ++ (s i).input ∧
      (Quiet room s → (s i).isOpen = true →
        (s i).broken = false ∧ (s i).output = [] ∧ (s i).input.length ≤ room - 1500) := by
  have h : Inv room (s i) :=
    LocalCallbacks.run_invariant (fun _ _ hinv he => hinv.next he) (fun _ => .listener) hrun i
  refine ⟨h.stream, fun hquiet hopen => ?_⟩
  obtain ⟨hreports, hwrites, hread, _⟩ := hquiet.idle hopen
  refine ⟨h.broken hreports hopen, hwrites ?_, h.due ?_⟩
  · by_contra hstopped
    exact h.writes hopen (Bool.not_eq_true _ ▸ hstopped) hreports
  · by_contra hpending
    have hreader := hread (Bool.not_eq_false _ ▸ hpending)
    rw [h.reader] at hreader
    cases hreader

/-- A client that sends two bytes, which are echoed. -/
def oneClient : List (Unit × SockEvent UInt8) :=
  [((), .receive (ascii "ab")), ((), .runRead), ((), .flush 15)]

theorem run_one_client :
    (runEvents (callbacks.callbacks.step 2) (fun _ => listenerCb) oneClient).isSome = true := by
  decide

theorem helloworld_change_echoes_one_client :
    let conn := (runEvents (callbacks.callbacks.step 2) (fun _ => listenerCb) oneClient).get
      run_one_client ()
    MESSAGE ++ conn.received = conn.delivered ++ conn.output ++ conn.input :=
  (helloworld_change_echoes (Option.some_get run_one_client).symm ()).1

end HelloworldChange

end UnixNet.Libevent
