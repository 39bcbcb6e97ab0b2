import UnixNet.Lib.Exchange
import UnixNet.Lib.Text

/-!
# The UDP client and its server

`client.c` sends each line that is typed as a datagram and waits for one that comes back;
`server.c` sends back every datagram to whom it came from, filled up with zeros to 1024 bytes. The
network may lose datagrams and deliver them in any order, and others may send to the server at any
time. Only the server sends to the client. A datagram without NUL that fills the 1024 bytes leaves a
buffer that is no string; printing it is not defined, and such a run has no further step of that
program. `in_step` says what the client shows in all others, and `lost_for_good` what comes of a
lost datagram.
-/

namespace UnixNet.UdpServer

open NetLib

/-- `sizeof(sendBuf)` and `sizeof(reBuf)` -/
def bufSize : Nat := 1024

/-- The buffer after `memset(buf, 0, sizeof(buf))` and a call that stored some bytes. -/
def filled (data : Bytes) : Bytes :=
  overwrite (data.take bufSize) (zeros bufSize)

/-- Who sends to the server. -/
inductive Address where
  | client
  | other (n : Nat)
  deriving DecidableEq

/-- A datagram on its way to the server. -/
structure Request where
  sender : Address
  data : Bytes
  deriving DecidableEq

/-- Where the client is: in `read`, in `recvfrom`, or behind its loop. -/
inductive ClientPoint where
  | typing
  | waiting
  | ended
  deriving DecidableEq

/-- Where the server is: in `recvfrom`, in `sendto` to an address, or behind its loop. -/
inductive ServerPoint where
  | receiving
  | replying (reAddr : Address)
  | ended
  deriving DecidableEq

/-- Both programs and the datagrams between them, with the texts that the client has sent and those
that it has shown. `clientBuf` and `serverBuf` are `reBuf` of either program. -/
structure System where
  client : ClientPoint
  clientBuf : Bytes
  sent : List Bytes
  shown : List Bytes
  server : ServerPoint
  serverBuf : Bytes
  toServer : List Request
  toClient : List Bytes

/-- Both programs in front of their loops. -/
def System.start : System where
  client := .typing
  clientBuf := zeros bufSize
  sent := []
  shown := []
  server := .receiving
  serverBuf := zeros bufSize
  toServer := []
  toClient := []

/-- A datagram of the client or to the client is lost. -/
inductive Loses : System → System → Prop
  | request {s before r after} : s.toServer = before ++ r :: after → r.sender = .client →
      Loses s { s with toServer := before ++ after }
  | reply {s before data after} : s.toClient = before ++ data :: after →
      Loses s { s with toClient := before ++ after }

/-- What the programs, the network and others do. A buffer without NUL has no text: what `strlen`
and `printf` do with it is not defined, and no step. -/
inductive Step : System → System → Prop
  -- read and sendto of the client
  | send {s input text} : s.client = .typing → input.length ≤ bufSize →
      printedText (filled input) = some text →
      Step s { s with
        client := .waiting
        sent := s.sent ++ [text]
        toServer := s.toServer ++ [⟨.client, text⟩] }
  | readFails {s} : s.client = .typing → Step s { s with client := .ended }
  -- recvfrom and printf of the client
  | print {s before data after text} : s.client = .waiting →
      s.toClient = before ++ data :: after →
      printedText (overwrite (data.take bufSize) s.clientBuf) = some text →
      Step s { s with
        client := .typing
        clientBuf := overwrite (data.take bufSize) s.clientBuf
        shown := s.shown ++ [text]
        toClient := before ++ after }
  | clientRecvFails {s} : s.client = .waiting → Step s { s with client := .ended }
  -- recvfrom and printf of the server
  | receive {s before r after} : s.server = .receiving →
      s.toServer = before ++ r :: after → 0 ∈ filled r.data →
      Step s { s with
        server := .replying r.sender
        serverBuf := filled r.data
        toServer := before ++ after }
  | serverRecvFails {s} : s.server = .receiving → Step s { s with server := .ended }
  -- sendto of the server
  | reply {s} : s.server = .replying .client →
      Step s { s with server := .receiving, toClient := s.toClient ++ [s.serverBuf] }
  | replyOther {s n} : s.server = .replying (.other n) → Step s { s with server := .receiving }
  | other {s} (n : Nat) (data : Bytes) :
      Step s { s with toServer := s.toServer ++ [⟨.other n, data⟩] }
  | loseOther {s before n data after} : s.toServer = before ++ ⟨.other n, data⟩ :: after →
      Step s { s with toServer := before ++ after }
  | lose {s s'} : Loses s s' → Step s s'

/-- The states that the programs can get into. -/
def Reachable : System → Prop :=
  Relation.ReflTransGen Step .start

/-! ## Buffers -/

variable {s s' : System} {data text : Bytes}

theorem length_filled (data : Bytes) : (filled data).length = bufSize := by
  have hzeros : (zeros bufSize).length = bufSize := List.length_replicate
  rw [filled, length_overwrite, hzeros]
  rw [hzeros]
  exact List.length_take_le bufSize data

/-- A text that is sent has no NUL, and room for one behind it. -/
theorem text_of_printed {buf : Bytes} (hlength : buf.length = bufSize)
    (h : printedText buf = some text) : 0 ∉ text ∧ text.length < bufSize := by
  rw [printedText] at h
  split at h
  · next hnul =>
      cases h
      refine ⟨zero_not_mem_cstr buf, ?_⟩
      have hstart : cstr buf <+: buf := List.takeWhile_prefix _
      refine hlength ▸ lt_of_le_of_ne hstart.length_le fun heq => ?_
      have hnot := zero_not_mem_cstr buf
      rw [hstart.eq_of_length heq] at hnot
      exact hnot hnul
  · cases h

/-- A text with room behind it is followed by zeros. -/
theorem filled_eq (hlength : text.length < bufSize) :
    filled text = text ++ 0 :: zeros (bufSize - text.length - 1) := by
  obtain ⟨n, hn⟩ : ∃ n, bufSize - text.length = n + 1 := ⟨bufSize - text.length - 1, by omega⟩
  rw [filled, List.take_of_length_le hlength.le, overwrite, zeros, List.drop_replicate, hn,
    List.replicate_succ]
  rfl

/-- The text in a buffer that was filled with it. -/
theorem cstr_filled (hnul : 0 ∉ text) (hlength : text.length < bufSize) :
    cstr (filled text) = text := by
  rw [filled_eq hlength]
  exact cstr_append hnul _

theorem printed_filled (hnul : 0 ∉ text) (hlength : text.length < bufSize) :
    printedText (filled text) = some text := by
  have hend : 0 ∈ filled text := by
    rw [filled_eq hlength]
    exact List.mem_append_right text List.mem_cons_self
  rw [printedText, if_pos hend, cstr_filled hnul hlength]

/-- A full datagram fills the buffer. -/
theorem overwrite_full {buf : Bytes} (hdata : data.length = bufSize) (hbuf : buf.length = bufSize) :
    overwrite (data.take bufSize) buf = data := by
  rw [List.take_of_length_le hdata.le, overwrite, hdata, ← hbuf, List.drop_length,
    List.append_nil]

/-! ## The exchange between the client and the server -/

/-- What the client has sent, among datagrams on their way to the server. -/
def clientData (requests : List Request) : List Bytes :=
  (requests.filter fun r => r.sender = .client).map Request.data

/-- The answers for the client. -/
def System.replies (s : System) : List Bytes :=
  s.toClient ++ if s.server = .replying .client then [s.serverBuf] else []

/-- Where the one message between client and server is. -/
def Located (s : System) : Token Bytes Bytes → Prop
  | .idle => s.client = .typing ∧ clientData s.toServer = [] ∧ s.replies = []
  | .requested text => s.client ≠ .typing ∧ clientData s.toServer = [text] ∧ s.replies = []
  | .answered reply => s.client ≠ .typing ∧ clientData s.toServer = [] ∧ s.replies = [reply]
  | .stopped => s.client ≠ .typing ∧
      (s.client = .waiting → clientData s.toServer = [] ∧ s.replies = [])

/-- The state of the exchange that the two programs are in. -/
structure Represents (s : System) (e : Exchange Bytes Bytes) : Prop where
  asked : e.asked = s.sent
  shown : s.shown = e.got.map cstr
  located : Located s e.token
  texts : ∀ text ∈ s.sent, 0 ∉ text ∧ text.length < bufSize
  clientBuf : s.clientBuf.length = bufSize
  replies : ∀ reply ∈ s.replies, reply.length = bufSize

@[simp] theorem client_data_nil : clientData [] = [] := rfl

@[simp] theorem client_data_append (before after : List Request) :
    clientData (before ++ after) = clientData before ++ clientData after := by
  simp [clientData]

@[simp] theorem client_data_client {after : List Request} :
    clientData (⟨.client, data⟩ :: after) = data :: clientData after := by
  simp [clientData]

@[simp] theorem client_data_other {n : Nat} {after : List Request} :
    clientData (⟨.other n, data⟩ :: after) = clientData after := by
  simp [clientData]

/-- The one message of the client is taken out. -/
theorem client_data_eq_singleton {before after : List Request} (r : Request)
    (hr : r.sender = .client) (h : clientData (before ++ r :: after) = [text]) :
    r.data = text ∧ clientData (before ++ after) = [] := by
  obtain ⟨sender, data⟩ := r
  obtain rfl := hr
  rw [client_data_append, client_data_client, List.append_eq_singleton_iff] at h
  rcases h with ⟨hbefore, hafter⟩ | ⟨-, hafter⟩
  · obtain ⟨rfl, hnone⟩ := List.cons.inj hafter
    exact ⟨rfl, by rw [client_data_append, hbefore, hnone]; rfl⟩
  · cases hafter

theorem client_data_ne_nil (before after : List Request) (r : Request)
    (hr : r.sender = .client) : clientData (before ++ r :: after) ≠ [] := by
  obtain ⟨sender, data⟩ := r
  obtain rfl := hr
  rw [client_data_append, client_data_client]
  exact List.append_ne_nil_of_right_ne_nil _ (List.cons_ne_nil _ _)

theorem Represents.start : Represents .start .start where
  asked := rfl
  shown := rfl
  located := ⟨rfl, rfl, rfl⟩
  texts := by
    intro text htext
    cases htext
  clientBuf := List.length_replicate
  replies := by
    intro reply hreply
    cases hreply

variable {e : Exchange Bytes Bytes}

/-- The exchange has stopped. -/
theorem Represents.stop (h : Represents s e) (hsent : s'.sent = s.sent)
    (hshown : s'.shown = s.shown) (hbuf : s'.clientBuf = s.clientBuf)
    (hreplies : s'.replies ⊆ s.replies) (hclient : s'.client ≠ .typing)
    (hnone : s'.client = .waiting → clientData s'.toServer = [] ∧ s'.replies = []) :
    Represents s' { e with token := .stopped } where
  asked := hsent ▸ h.asked
  shown := hshown ▸ h.shown
  located := ⟨hclient, hnone⟩
  texts := hsent ▸ h.texts
  clientBuf := hbuf ▸ h.clientBuf
  replies := fun reply hreply => h.replies reply (hreplies hreply)

/-- A step that the exchange does not notice. -/
theorem Represents.keep (h : Represents s e) (hclient : s'.client = s.client)
    (hsent : s'.sent = s.sent) (hshown : s'.shown = s.shown)
    (hbuf : s'.clientBuf = s.clientBuf)
    (hdata : clientData s'.toServer = clientData s.toServer)
    (hreplies : s'.replies = s.replies) : Represents s' e where
  asked := hsent ▸ h.asked
  shown := hshown ▸ h.shown
  located := by
    have hlocated := h.located
    unfold Located at hlocated ⊢
    rw [hclient, hdata, hreplies]
    exact hlocated
  texts := hsent ▸ h.texts
  clientBuf := hbuf ▸ h.clientBuf
  replies := hreplies ▸ h.replies

/-- While the client reads a line, nothing is on its way. -/
theorem Represents.idle (h : Represents s e) (hclient : s.client = .typing) :
    e.token = .idle ∧ clientData s.toServer = [] ∧ s.replies = [] := by
  have hlocated := h.located
  cases htoken : e.token with
  | idle =>
      rw [htoken] at hlocated
      exact ⟨rfl, hlocated.2⟩
  | requested text | answered reply | stopped =>
      rw [htoken] at hlocated
      exact absurd hclient hlocated.1

/-- A datagram for a client that waits is the answer. -/
theorem Represents.answered (h : Represents s e) (hclient : s.client = .waiting) {reply : Bytes}
    (hreply : reply ∈ s.replies) :
    e.token = .answered reply ∧ clientData s.toServer = [] ∧ s.replies = [reply] := by
  have hlocated := h.located
  cases htoken : e.token with
  | idle =>
      rw [htoken] at hlocated
      rw [hlocated.2.2] at hreply
      cases hreply
  | requested text =>
      rw [htoken] at hlocated
      rw [hlocated.2.2] at hreply
      cases hreply
  | answered other =>
      rw [htoken] at hlocated
      have hother := hlocated.2.2
      rw [hother, List.mem_singleton] at hreply
      subst hreply
      exact ⟨rfl, hlocated.2⟩
  | stopped =>
      rw [htoken] at hlocated
      rw [(hlocated.2 hclient).2] at hreply
      cases hreply

/-- The client sends a line. -/
theorem Represents.send (h : Represents s e) (hclient : s.client = .typing)
    (htext : 0 ∉ text ∧ text.length < bufSize) :
    Represents { s with
        client := .waiting
        sent := s.sent ++ [text]
        toServer := s.toServer ++ [⟨.client, text⟩] }
      { e with asked := e.asked ++ [text], token := .requested text } := by
  obtain ⟨-, hdata, hreplies⟩ := h.idle hclient
  refine ⟨congrArg (· ++ [text]) h.asked, h.shown, ⟨nofun, ?_, hreplies⟩, ?_, h.clientBuf,
    h.replies⟩
  · simp [hdata]
  · intro other hother
    rcases List.mem_append.mp hother with hold | hnew
    · exact h.texts other hold
    · exact List.mem_singleton.mp hnew ▸ htext

/-- The client shows an answer. -/
theorem Represents.print {before after : List Bytes} (h : Represents s e)
    (hclient : s.client = .waiting) (htoClient : s.toClient = before ++ data :: after)
    (htext : printedText (overwrite (data.take bufSize) s.clientBuf) = some text) :
    e.token = .answered data ∧
      Represents { s with
          client := .typing
          clientBuf := overwrite (data.take bufSize) s.clientBuf
          shown := s.shown ++ [text]
          toClient := before ++ after }
        { e with got := e.got ++ [data], token := .idle } := by
  have hmem : data ∈ s.replies := by
    rw [System.replies, htoClient]
    simp
  obtain ⟨htoken, hdata, hreplies⟩ := h.answered hclient hmem
  have hlength := h.replies data hmem
  -- the answer is all that there is, and fills the buffer
  have hnone : before ++ after = [] ∧
      (if s.server = .replying .client then [s.serverBuf] else []) = [] := by
    rw [System.replies, htoClient] at hreplies
    have hcount := congrArg List.length hreplies
    simp only [List.length_append, List.length_cons, List.length_nil] at hcount
    exact ⟨List.length_eq_zero_iff.mp (by rw [List.length_append]; omega),
      List.length_eq_zero_iff.mp (by omega)⟩
  have hbuf := overwrite_full hlength h.clientBuf
  have hreplies' : System.replies { s with
      client := .typing
      clientBuf := overwrite (data.take bufSize) s.clientBuf
      shown := s.shown ++ [text]
      toClient := before ++ after } = [] := by
    rw [System.replies, hnone.1, hnone.2]
    rfl
  refine ⟨htoken, h.asked, ?_, ⟨rfl, hdata, hreplies'⟩, h.texts, ?_, ?_⟩
  · rw [hbuf, printedText] at htext
    split at htext
    · cases htext
      simp [h.shown]
    · cases htext
  · rw [hbuf]
    exact hlength
  · rw [hreplies']
    intro reply hreply
    cases hreply

/-- The server receives a datagram. That of the client becomes the answer, unless the client has
ended. -/
theorem Represents.receive {before after : List Request} {r : Request} (h : Represents s e)
    (hserver : s.server = .receiving) (htoServer : s.toServer = before ++ r :: after) :
    ∃ e', Relation.ReflTransGen (Exchange.Step filled) e e' ∧
      Represents { s with
        server := .replying r.sender
        serverBuf := filled r.data
        toServer := before ++ after } e' := by
  have hreplies : s.replies = s.toClient := by
    rw [System.replies, hserver]
    exact List.append_nil _
  obtain ⟨sender, data⟩ := r
  cases sender with
  | other n =>
      refine ⟨e, .refl, h.keep rfl rfl rfl rfl ?_ ?_⟩
      · rw [htoServer]
        simp
      · rw [hreplies, System.replies]
        exact List.append_nil _
  | client =>
      have hlocated := h.located
      have hsome := client_data_ne_nil before after ⟨.client, data⟩ rfl
      rw [← htoServer] at hsome
      have hlengths : ∀ reply ∈ s.toClient ++ [filled data], reply.length = bufSize := by
        intro reply hreply
        rcases List.mem_append.mp hreply with hold | hnew
        · exact h.replies reply (hreplies ▸ hold)
        · exact List.mem_singleton.mp hnew ▸ length_filled data
      cases htoken : e.token with
      | idle =>
          rw [htoken] at hlocated
          exact absurd hlocated.2.1 hsome
      | answered reply =>
          rw [htoken] at hlocated
          exact absurd hlocated.2.1 hsome
      | requested text =>
          rw [htoken] at hlocated
          obtain ⟨hclient, hdata, hnone⟩ := hlocated
          rw [htoServer] at hdata
          obtain ⟨rfl, hrest⟩ := client_data_eq_singleton _ rfl hdata
          refine ⟨_, .single (.answer htoken), h.asked, h.shown, ⟨hclient, hrest, ?_⟩, h.texts,
            h.clientBuf, hlengths⟩
          show s.toClient ++ [filled data] = [filled data]
          rw [← hreplies, hnone, List.nil_append]
      | stopped =>
          rw [htoken] at hlocated
          refine ⟨e, .refl, h.asked, h.shown, ?_, h.texts, h.clientBuf, hlengths⟩
          rw [htoken]
          exact ⟨hlocated.1, fun hwaiting => absurd (hlocated.2 hwaiting).1 hsome⟩

/-- Of the messages of the exchange, none is left when one is lost. -/
theorem Represents.lose (h : Represents s e) (hloses : Loses s s') :
    Represents s' { e with token := .stopped } := by
  have hlocated := h.located
  cases hloses with
  | @request before r after htoServer hr =>
      have hsome := client_data_ne_nil before after r hr
      rw [← htoServer] at hsome
      cases htoken : e.token with
      | idle =>
          rw [htoken] at hlocated
          exact absurd hlocated.2.1 hsome
      | answered reply =>
          rw [htoken] at hlocated
          exact absurd hlocated.2.1 hsome
      | requested text =>
          rw [htoken] at hlocated
          obtain ⟨hclient, hdata, hnone⟩ := hlocated
          rw [htoServer] at hdata
          exact h.stop rfl rfl rfl (fun _ => id) hclient
            fun _ => ⟨(client_data_eq_singleton r hr hdata).2, hnone⟩
      | stopped =>
          rw [htoken] at hlocated
          exact h.stop rfl rfl rfl (fun _ => id) hlocated.1
            fun hwaiting => absurd (hlocated.2 hwaiting).1 hsome
  | @reply before data after htoClient =>
      have hmem : data ∈ s.replies := by
        rw [System.replies, htoClient]
        simp
      have hsub : System.replies { s with toClient := before ++ after } ⊆ s.replies := by
        intro reply hreply
        rw [System.replies] at hreply ⊢
        rw [htoClient]
        simp only [List.mem_append, List.mem_cons] at hreply ⊢
        tauto
      have hclient : s.client ≠ .typing := fun htyping => by
        rw [(h.idle htyping).2.2] at hmem
        cases hmem
      refine h.stop rfl rfl rfl hsub hclient fun hwaiting => ?_
      obtain ⟨-, hdata, hreplies⟩ := h.answered hwaiting hmem
      refine ⟨hdata, ?_⟩
      rw [System.replies, htoClient] at hreplies
      have hcount := congrArg List.length hreplies
      simp only [List.length_append, List.length_cons, List.length_nil] at hcount
      refine List.length_eq_zero_iff.mp ?_
      simp only [System.replies, List.length_append]
      omega

/-- Every step of the programs is one of the exchange, or none. -/
theorem Represents.step (h : Represents s e) (hstep : Step s s') :
    ∃ e', Relation.ReflTransGen (Exchange.Step filled) e e' ∧ Represents s' e' := by
  cases hstep with
  | @send input text hclient hlength htext =>
      exact ⟨_, .single (.ask text (h.idle hclient).1),
        h.send hclient (text_of_printed (length_filled input) htext)⟩
  | readFails hclient =>
      exact ⟨_, .single .stop, h.stop rfl rfl rfl (fun _ => id) nofun nofun⟩
  | print hclient htoClient htext =>
      obtain ⟨htoken, hprint⟩ := h.print hclient htoClient htext
      exact ⟨_, .single (.get htoken), hprint⟩
  | clientRecvFails hclient =>
      exact ⟨_, .single .stop, h.stop rfl rfl rfl (fun _ => id) nofun nofun⟩
  | receive hserver htoServer => exact h.receive hserver htoServer
  | serverRecvFails hserver =>
      refine ⟨e, .refl, h.keep rfl rfl rfl rfl rfl ?_⟩
      rw [System.replies, System.replies, hserver]
      rfl
  | reply hserver =>
      refine ⟨e, .refl, h.keep rfl rfl rfl rfl rfl ?_⟩
      rw [System.replies, System.replies, hserver]
      simp
  | replyOther hserver =>
      refine ⟨e, .refl, h.keep rfl rfl rfl rfl rfl ?_⟩
      rw [System.replies, System.replies, hserver]
      simp
  | other n data => exact ⟨e, .refl, h.keep rfl rfl rfl rfl (by simp) rfl⟩
  | loseOther htoServer =>
      refine ⟨e, .refl, h.keep rfl rfl rfl rfl ?_ rfl⟩
      rw [htoServer]
      simp
  | lose hloses => exact ⟨_, .single .stop, h.lose hloses⟩

/-- A run of the programs is one of the exchange. -/
theorem Represents.run (h : Represents s e) (hrun : Relation.ReflTransGen Step s s') :
    ∃ e', Relation.ReflTransGen (Exchange.Step filled) e e' ∧ Represents s' e' := by
  induction hrun with
  | refl => exact ⟨e, .refl, h⟩
  | tail _ hstep ih =>
      obtain ⟨e', hto, hrepresents⟩ := ih
      obtain ⟨e'', hnext, hfinal⟩ := hrepresents.step hstep
      exact ⟨e'', hto.trans hnext, hfinal⟩

/-- Whatever others send to the server and whatever the network loses, what the client shows are the
texts that it sent, in order, and it is behind by one at most. -/
theorem in_step (h : Reachable s) :
    s.sent.length ≤ s.shown.length + 1 ∧ s.shown = s.sent.take s.shown.length := by
  obtain ⟨e, hreachable, hrepresents⟩ := Represents.start.run h
  obtain ⟨hbehind, hgot⟩ := Exchange.got_eq hreachable
  have hlength : s.shown.length = e.got.length := by
    rw [hrepresents.shown, List.length_map]
  have hback : ∀ text ∈ s.sent.take s.shown.length, (cstr ∘ filled) text = id text := by
    intro text htext
    obtain ⟨hnul, hshort⟩ := hrepresents.texts text (List.mem_of_mem_take htext)
    exact cstr_filled hnul hshort
  refine ⟨by rw [← hrepresents.asked, hlength]; exact hbehind, ?_⟩
  calc s.shown = e.got.map cstr := hrepresents.shown
    _ = ((e.asked.take e.got.length).map filled).map cstr := by rw [← hgot]
    _ = (s.sent.take s.shown.length).map (cstr ∘ filled) := by
        rw [List.map_map, hrepresents.asked, hlength]
    _ = s.sent.take s.shown.length := by rw [List.map_congr_left hback, List.map_id]

/-- A line that is typed when nothing is on its way comes back. -/
theorem line_comes_back (h : Reachable s) (hidle : s.client = .typing ∧ s.server = .receiving)
    (hempty : s.toServer = [] ∧ s.toClient = []) (hbuf : s.clientBuf.length = bufSize)
    (hnul : 0 ∉ text) (hshort : text.length < bufSize) :
    ∃ t, Reachable t ∧ (t.client = .typing ∧ t.server = .receiving) ∧
      (t.toServer = [] ∧ t.toClient = []) ∧ t.clientBuf.length = bufSize ∧
        t.sent = s.sent ++ [text] ∧ t.shown = s.shown ++ [text] := by
  have htext := printed_filled hnul hshort
  have hend : (0 : UInt8) ∈ filled text := by
    rw [filled_eq hshort]
    exact List.mem_append_right _ List.mem_cons_self
  have hfull : overwrite ((filled text).take bufSize) s.clientBuf = filled text :=
    overwrite_full (length_filled text) hbuf
  have hprinted : printedText (overwrite ((filled text).take bufSize) s.clientBuf) = some text := by
    rw [hfull]
    exact htext
  have hlength : (overwrite ((filled text).take bufSize) s.clientBuf).length = bufSize := by
    rw [hfull]
    exact length_filled text
  have hrequest : s.toServer ++ [⟨.client, text⟩] = [] ++ ⟨.client, text⟩ :: [] :=
    congrArg (· ++ _) hempty.1
  have hanswer : s.toClient ++ [filled text] = [] ++ filled text :: [] :=
    congrArg (· ++ _) hempty.2
  have hsend := h.tail (.send hidle.1 hshort.le htext)
  have hreceive := hsend.tail (.receive hidle.2 hrequest hend)
  have hreply := hreceive.tail (.reply rfl)
  have hprint := hreply.tail (.print rfl hanswer hprinted)
  exact ⟨_, hprint, ⟨rfl, rfl⟩, ⟨rfl, rfl⟩, hlength, rfl, rfl⟩

/-- Two lines are typed, and come back. -/
theorem in_step_two_lines : ∃ s, Reachable s ∧ s.shown = [[5], [6, 7]] ∧
    s.sent.length ≤ s.shown.length + 1 ∧ s.shown = s.sent.take s.shown.length := by
  have hstart : Reachable .start := .refl
  have hzeros : (zeros bufSize).length = bufSize := List.length_replicate
  have hfirst : (0 : UInt8) ∉ [5] ∧ ([5] : Bytes).length < bufSize := by decide
  have hsecond : (0 : UInt8) ∉ [6, 7] ∧ ([6, 7] : Bytes).length < bufSize := by decide
  obtain ⟨s, hs, hidle, hempty, hbuf, -, hshown⟩ :=
    line_comes_back hstart ⟨rfl, rfl⟩ ⟨rfl, rfl⟩ hzeros hfirst.1 hfirst.2
  obtain ⟨t, ht, -, -, -, -, hshownNext⟩ :=
    line_comes_back hs hidle hempty hbuf hsecond.1 hsecond.2
  refine ⟨t, ht, ?_, in_step ht⟩
  rw [hshownNext, hshown]
  rfl

/-- There is no second try: once a datagram between the client and the server is lost, the client
sends nothing and shows nothing any more. -/
theorem lost_for_good {s'' : System} (h : Reachable s) (hloses : Loses s s')
    (hrun : Relation.ReflTransGen Step s' s'') :
    s''.sent = s.sent ∧ s''.shown = s.shown := by
  obtain ⟨e, -, hrepresents⟩ := Represents.start.run h
  obtain ⟨e', hto, hfinal⟩ := (hrepresents.lose hloses).run hrun
  obtain rfl := Exchange.stopped_stays rfl hto
  exact ⟨hfinal.asked.symm.trans hrepresents.asked, hfinal.shown.trans hrepresents.shown.symm⟩

/-- A line is lost, and another host sends something. -/
theorem line_lost : ∃ s s' s'', Reachable s ∧ s.sent = [[5]] ∧ Loses s s' ∧
    Relation.ReflTransGen Step s' s'' ∧ s''.toServer ≠ [] := by
  have hnul : (0 : UInt8) ∉ [5] := by decide
  have hshort : ([5] : Bytes).length < bufSize := by decide
  have hstart : Reachable .start := .refl
  have hsend := hstart.tail (.send rfl hshort.le (printed_filled hnul hshort))
  exact ⟨_, _, _, hsend, rfl, @Loses.request _ [] _ [] rfl rfl, .single (.other 1 [6]), nofun⟩

theorem lost_for_good_one_line : ∃ s s' s'', Reachable s ∧ Loses s s' ∧
    Relation.ReflTransGen Step s' s'' ∧ s''.sent = [[5]] := by
  obtain ⟨s, s', s'', hreachable, hsent, hloses, hrun, -⟩ := line_lost
  exact ⟨s, s', s'', hreachable, hloses, hrun, (lost_for_good hreachable hloses hrun).1.trans hsent⟩

end UnixNet.UdpServer
