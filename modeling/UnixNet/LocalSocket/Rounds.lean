import UnixNet.Lib.Execution
import UnixNet.Lib.Pipe
import UnixNet.Lib.Text

/-!
# The echo over a local socket

`localSocketCilent.c` sends each line that is typed as a record of 1500 bytes, the line and zeros,
and prints what one `recv` then returns; `localSocketServer.c` sends back the C string in what one
`recv` returned. The socket is a stream without records, so a `recv` on either side may return any
part of what is on its way (`System.step`). Read `echo_in_step_iff` first. What makes it work is in
`Invariant`: what the server sends is, in order, some of the bytes of the lines, so that the client
has received all of them once it has received as many.
-/

namespace UnixNet.LocalSocket

open NetLib

/-- `sizeof(buf)` -/
def bufSize : Nat := 1500

/-- A line as `read(STDIN_FILENO, buf, sizeof(buf))` returns it. -/
structure Line where
  text : Bytes
  nonempty : text ≠ []
  short : text.length ≤ 1499
  noNul : (0 : UInt8) ∉ text

/-- The buffer after `memset(buf, 0, sizeof(buf))` and a call that stored some bytes. -/
def filled (data : Bytes) : Bytes :=
  overwrite data (zeros bufSize)

/-- A round of the client that came to its `printf`: the line it sent and what it received. -/
structure Round where
  line : Bytes
  received : Bytes

/-- The text the client prints in a round. -/
def Round.text (r : Round) : Option Bytes :=
  printedText (filled r.received)

/-- Where the client is: in `read`, in `recv` after it sent a line, or behind its loop. -/
inductive Client where
  | typing
  | waiting (line : Bytes)
  | ended
  deriving DecidableEq

/-- Both programs and the two directions of the socket between them, with the lines the client has
sent and the rounds it has come to the end of. -/
structure System where
  client : Client
  serving : Bool
  up : Pipe UInt8
  down : Pipe UInt8
  lines : List Bytes
  rounds : List Round

/-- The client is connected. -/
def System.start : System where
  client := .typing
  serving := true
  up := .empty
  down := .empty
  lines := []
  rounds := []

/-- What can happen: a line is typed and sent, a `recv` returns a number of bytes, or it returns
0 or fails. -/
inductive Event where
  | typed (line : Line)
  | serverRecv (k : Nat)
  | serverStops
  | clientRecv (k : Nat)
  | clientStops

/-- The server's buffer after a `recv` that returned `k` bytes. -/
def System.serverBuf (s : System) (k : Nat) : Bytes :=
  filled (s.up.get k).1

/-- The client's `recv` returned `k` bytes, and it prints them. -/
def System.endRound (s : System) (line : Bytes) (k : Nat) : System :=
  { s with client := .typing
           down := (s.down.get k).2
           rounds := s.rounds ++ [⟨line, (s.down.get k).1⟩] }

/-- A `recv` on a channel can return `k` bytes. -/
abbrev CanReturn (channel : Pipe UInt8) (k : Nat) : Prop :=
  0 < k ∧ k ≤ bufSize ∧ k ≤ channel.queue.length

/-- One event. There is no result when it cannot happen. A client that sends to a server that has
stopped is killed, which is one of the ways to stop. -/
def System.step (s : System) : Event → Option System
  | .typed line =>
      if s.client = .typing ∧ s.serving = true then
        some { s with client := .waiting line.text
                      up := s.up.put (filled line.text)
                      lines := s.lines ++ [line.text] }
      else none
  | .serverRecv k =>
      if s.serving = true ∧ CanReturn s.up k then
        -- `send(cfd, buf, strlen(buf), 0)`
        some { s with up := (s.up.get k).2
                      down := s.down.put (cstr (s.serverBuf k)) }
      else none
  | .serverStops => if s.serving = true then some { s with serving := false } else none
  | .clientRecv k =>
      match s.client with
      | .waiting line => if CanReturn s.down k then some (s.endRound line k) else none
      | _ => none
  | .clientStops => if s.client = .ended then none else some { s with client := .ended }

/-- The lines typed in the course of some events. -/
def typed (events : List Event) : List Bytes :=
  events.filterMap fun
    | .typed line => some line.text
    | _ => none

/-- What the client's calls of `recv` return in the course of some events, when it is positive. -/
def answers (events : List Event) : List Nat :=
  events.filterMap fun
    | .clientRecv k => some k
    | _ => none

/-- Where the client is, in terms of the lines it has sent and the rounds behind it. -/
def ClientAt (lines : List Bytes) (rounds : List Round) : Client → Prop
  | .typing => lines = rounds.map Round.line
  | .waiting line => lines = rounds.map Round.line ++ [line]
  | .ended => rounds.map Round.line <+: lines

/-- What holds after any events. -/
structure Invariant (events : List Event) (s : System) : Prop where
  typed : typed events = s.lines
  answers : answers events = s.rounds.map fun r => r.received.length
  client : ClientAt s.lines s.rounds s.client
  sendable : ∀ line ∈ s.lines, line.length ≤ 1499 ∧ (0 : UInt8) ∉ line
  sent : s.up.sent = (s.lines.map filled).flatten
  echoed : s.down.sent.Sublist (s.up.received.filter (· ≠ 0))
  printed : s.down.received = (s.rounds.map Round.received).flatten
  bounded : ∀ r ∈ s.rounds, r.received.length ≤ bufSize
  inStep : (∀ r ∈ s.rounds, r.received.length = r.line.length) →
    ∀ r ∈ s.rounds, r.received = r.line

variable {done events : List Event} {s next : System} {data : Bytes}

/-! ## Buffers and records -/

/-- Bytes that fit in the buffer are followed by zeros. -/
theorem filled_eq (data : Bytes) : filled data = data ++ zeros (bufSize - data.length) := by
  rw [filled, overwrite, zeros, zeros, List.drop_replicate]

theorem length_filled (h : data.length ≤ bufSize) : (filled data).length = bufSize := by
  rw [filled_eq, zeros, List.length_append, List.length_replicate]
  omega

theorem filter_zeros (n : Nat) : (zeros n).filter (· ≠ 0) = [] := by
  rw [zeros, List.filter_replicate_of_neg (by decide)]

/-- The bytes other than NUL in a buffer are those of the text in it. -/
theorem filter_filled (h : (0 : UInt8) ∉ data) : (filled data).filter (· ≠ 0) = data := by
  have hdata : data.filter (· ≠ 0) = data :=
    List.filter_eq_self.mpr (decide_ne_of_not_mem h)
  rw [filled_eq, List.filter_append, filter_zeros, hdata, List.append_nil]

/-- The C string in a buffer that was filled is part of what it was filled with. -/
theorem cstr_filled_sublist (data : Bytes) :
    (cstr (filled data)).Sublist (data.filter (· ≠ 0)) := by
  have hcstr : (cstr (filled data)).filter (· ≠ 0) = cstr (filled data) :=
    List.filter_eq_self.mpr fun c hc => by simpa using List.mem_takeWhile_imp hc
  have h := ((List.takeWhile_prefix (· ≠ 0) (l := filled data)).sublist).filter (· ≠ 0)
  rw [filled_eq data, List.filter_append, filter_zeros, List.append_nil, ← filled_eq] at h
  exact hcstr ▸ h

/-- The client prints exactly what it received, if that has no NUL and leaves room for one. -/
theorem Round.text_eq_iff {r : Round} (hbound : r.received.length ≤ bufSize)
    (hnul : (0 : UInt8) ∉ r.received) (hline : r.line.length < bufSize) :
    r.text = some r.line ↔ r.received = r.line := by
  rw [text, printedText, filled_eq]
  by_cases hroom : r.received.length < bufSize
  · obtain ⟨n, hn⟩ : ∃ n, bufSize - r.received.length = n + 1 :=
      ⟨bufSize - r.received.length - 1, by omega⟩
    have hcstr : cstr (r.received ++ zeros (n + 1)) = r.received := by
      have htake : (zeros (n + 1)).takeWhile (fun c => decide (c ≠ 0)) = [] := rfl
      rw [cstr, List.takeWhile_append_of_pos (decide_ne_of_not_mem hnul), htake, List.append_nil]
    rw [hn, hcstr, if_pos (List.mem_append_right _ (by simp [zeros])), Option.some.injEq]
  · have hfull : bufSize - r.received.length = 0 := by omega
    rw [hfull, zeros, List.replicate_zero, List.append_nil, if_neg hnul]
    refine iff_of_false (by simp) fun heq => ?_
    rw [heq] at hroom
    exact hroom hline

/-- The bytes other than NUL in the records of some lines are those of the lines. -/
theorem filter_records {lines : List Bytes} (h : ∀ line ∈ lines, (0 : UInt8) ∉ line) :
    (lines.map filled).flatten.filter (· ≠ 0) = lines.flatten := by
  induction lines with
  | nil => rfl
  | cons line lines ih =>
      obtain ⟨hline, hlines⟩ := List.forall_mem_cons.mp h
      rw [List.map_cons, List.flatten_cons, List.filter_append, filter_filled hline, ih hlines,
        List.flatten_cons]

/-- The last byte of every record is NUL. -/
theorem records_end {lines : List Bytes} (h : ∀ line ∈ lines, line.length < bufSize) {i : Nat}
    (hi : i < (lines.map filled).flatten.length) (hend : i % bufSize = bufSize - 1) :
    (lines.map filled).flatten[i]? = some 0 := by
  induction lines generalizing i with
  | nil => exact absurd hi (Nat.not_lt_zero i)
  | cons line lines ih =>
      obtain ⟨hline, hlines⟩ := List.forall_mem_cons.mp h
      have hlength : (filled line).length = bufSize := length_filled hline.le
      rw [List.map_cons, List.flatten_cons] at hi ⊢
      rw [List.length_append, hlength] at hi
      by_cases hfirst : i < bufSize
      · -- in the first record, behind the line
        rw [Nat.mod_eq_of_lt hfirst] at hend
        rw [List.getElem?_append_left (by omega), filled_eq,
          List.getElem?_append_right (by omega), zeros, List.getElem?_replicate,
          if_pos (by omega)]
      · rw [List.getElem?_append_right (by omega), hlength]
        refine ih hlines (by omega) ?_
        rw [← hend]
        exact (Nat.mod_eq_sub_mod (by omega)).symm

/-- In any 1500 bytes of the stream one is the last of a record. -/
theorem exists_record_end (n : Nat) : ∃ i < bufSize, (n + i) % bufSize = bufSize - 1 := by
  have hmod := Nat.mod_lt n (show 0 < bufSize by decide)
  have hdiv := Nat.div_add_mod n bufSize
  refine ⟨bufSize - 1 - n % bufSize, by omega, ?_⟩
  have hsum : n + (bufSize - 1 - n % bufSize) = bufSize - 1 + bufSize * (n / bufSize) := by omega
  rw [hsum, Nat.add_mul_mod_self_left]
  exact Nat.mod_eq_of_lt (by decide)

/-! ## The invariant -/

theorem typed_concat (events : List Event) (event : Event) :
    typed (events ++ [event]) = typed events ++ typed [event] :=
  List.filterMap_append

theorem answers_concat (events : List Event) (event : Event) :
    answers (events ++ [event]) = answers events ++ answers [event] :=
  List.filterMap_append

/-- What the server has sent is, in order, some of the bytes of the lines. -/
theorem Invariant.sent_sublist (h : Invariant done s) :
    s.down.sent.Sublist s.lines.flatten := by
  have hup : (s.up.received.filter (· ≠ 0)).Sublist s.lines.flatten := by
    rw [← filter_records fun line hline => (h.sendable line hline).2, ← h.sent]
    exact s.up.received_prefix_sent.sublist.filter _
  exact h.echoed.trans hup

/-- Nothing the client has received is NUL. -/
theorem Invariant.received_no_nul (h : Invariant done s) {r : Round} (hr : r ∈ s.rounds) :
    (0 : UInt8) ∉ r.received := by
  intro hnul
  have hmem : (0 : UInt8) ∈ s.down.received := by
    rw [h.printed]
    exact List.mem_flatten_of_mem (List.mem_map_of_mem hr) hnul
  have hsent := s.down.received_prefix_sent.sublist.trans h.sent_sublist
  obtain ⟨line, hline, hzero⟩ := List.mem_flatten.mp (hsent.subset hmem)
  exact (h.sendable line hline).2 hzero

/-- If the client gets as many bytes as the line of the round has, and in all rounds before it got
the line, then it gets the line: with these bytes it has received as many as it has sent, and they
are some of these. -/
theorem Invariant.whole_round {line : Bytes} {k : Nat} (h : Invariant done s)
    (hlines : s.lines = s.rounds.map Round.line ++ [line])
    (hrounds : ∀ r ∈ s.rounds, r.received = r.line)
    (hlength : (s.down.get k).1.length = line.length) : (s.down.get k).1 = line := by
  have hbefore : s.down.received = (s.rounds.map Round.line).flatten := by
    rw [h.printed, List.map_congr_left hrounds]
  have hsub : (s.down.get k).2.received.Sublist s.lines.flatten :=
    (s.down.get k).2.received_prefix_sent.sublist.trans h.sent_sublist
  have hnow : (s.down.get k).2.received =
      (s.rounds.map Round.line).flatten ++ (s.down.get k).1 := by
    rw [← hbefore]
    rfl
  rw [hnow, hlines, List.flatten_append, List.flatten_singleton] at hsub
  have heq := hsub.eq_of_length (by rw [List.length_append, List.length_append, hlength])
  exact List.append_cancel_left heq

/-- The lines of the rounds are the first of the lines that were sent. -/
theorem Invariant.rounds_prefix (h : Invariant done s) :
    s.rounds.map Round.line <+: s.lines := by
  have hclient := h.client
  cases hat : s.client with
  | typing =>
      rw [hat] at hclient
      exact hclient ▸ List.prefix_rfl
  | waiting line =>
      rw [hat] at hclient
      exact hclient ▸ List.prefix_append _ _
  | ended =>
      rw [hat] at hclient
      exact hclient

/-- The invariant holds in the beginning. -/
theorem Invariant.start : Invariant [] System.start where
  typed := rfl
  answers := rfl
  client := rfl
  sendable _ hline := absurd hline List.not_mem_nil
  sent := rfl
  echoed := List.Sublist.slnil
  printed := rfl
  bounded _ hr := absurd hr List.not_mem_nil
  inStep _ _ hr := absurd hr List.not_mem_nil

/-- An event in which no line is typed and no answer comes. -/
theorem Invariant.of_silent {event : Event} (h : Invariant done s)
    (htyped : LocalSocket.typed [event] = []) (hanswers : LocalSocket.answers [event] = []) :
    Invariant (done ++ [event]) s where
  __ := h
  typed := by rw [typed_concat, htyped, List.append_nil, h.typed]
  answers := by rw [answers_concat, hanswers, List.append_nil, h.answers]

/-- A line is typed. -/
theorem Invariant.typed_step {line : Line} (h : Invariant done s)
    (hstep : s.step (.typed line) = some next) : Invariant (done ++ [.typed line]) next := by
  obtain ⟨⟨hat, -⟩, rfl⟩ := eq_of_guarded hstep
  have hclient : s.lines = s.rounds.map Round.line := by
    have := h.client
    rwa [hat] at this
  refine ⟨?_, ?_, ?_, ?_, ?_, h.echoed, h.printed, h.bounded, h.inStep⟩
  · rw [typed_concat, h.typed]
    rfl
  · rw [answers_concat, h.answers]
    exact List.append_nil _
  · exact congrArg (· ++ [line.text]) hclient
  · refine List.forall_mem_append.mpr ⟨h.sendable, ?_⟩
    exact List.forall_mem_singleton.mpr ⟨line.short, line.noNul⟩
  · show s.up.sent ++ filled line.text = _
    rw [h.sent, List.map_append, List.flatten_append, List.map_singleton, List.flatten_singleton]

/-- The server answers what its `recv` returned. -/
theorem Invariant.server_recv_step {k : Nat} (h : Invariant done s)
    (hstep : s.step (.serverRecv k) = some next) : Invariant (done ++ [.serverRecv k]) next := by
  obtain ⟨-, rfl⟩ := eq_of_guarded hstep
  have hsilent : Invariant (done ++ [.serverRecv k]) s := h.of_silent rfl rfl
  refine ⟨hsilent.typed, hsilent.answers, h.client, h.sendable, h.sent, ?_, h.printed, h.bounded,
    h.inStep⟩
  · show (s.down.sent ++ cstr (s.serverBuf k)).Sublist
      ((s.up.received ++ (s.up.get k).1).filter (· ≠ 0))
    rw [List.filter_append]
    exact h.echoed.append (cstr_filled_sublist _)

/-- The client prints what its `recv` returned. -/
theorem Invariant.client_recv_step {k : Nat} (h : Invariant done s)
    (hstep : s.step (.clientRecv k) = some next) : Invariant (done ++ [.clientRecv k]) next := by
  have hclient := h.client
  cases hat : s.client with
  | typing | ended => simp only [System.step, hat, reduceCtorEq] at hstep
  | waiting line =>
      simp only [System.step, hat] at hstep
      rw [hat] at hclient
      obtain ⟨⟨-, hsize, hqueue⟩, rfl⟩ := eq_of_guarded hstep
      have hdata : (s.down.get k).1.length = k := by
        show (s.down.queue.take k).length = k
        rw [List.length_take, Nat.min_eq_left hqueue]
      refine ⟨?_, ?_, ?_, h.sendable, h.sent, h.echoed, ?_, ?_, fun hlengths => ?_⟩
      · rw [typed_concat, h.typed]
        exact List.append_nil _
      · show _ = (s.rounds ++ [_]).map _
        rw [answers_concat, h.answers, List.map_append, List.map_singleton, hdata]
        rfl
      · show s.lines = (s.rounds ++ [_]).map Round.line
        rw [List.map_append]
        exact hclient
      · show s.down.received ++ (s.down.get k).1 = ((s.rounds ++ [_]).map Round.received).flatten
        rw [h.printed, List.map_append, List.flatten_append, List.map_singleton,
          List.flatten_singleton]
      · exact List.forall_mem_append.mpr
          ⟨h.bounded, List.forall_mem_singleton.mpr (hdata.le.trans hsize)⟩
      · obtain ⟨hbefore, hlast⟩ := List.forall_mem_append.mp hlengths
        have hrounds := h.inStep hbefore
        have hlength := List.forall_mem_singleton.mp hlast
        exact List.forall_mem_append.mpr
          ⟨hrounds, List.forall_mem_singleton.mpr (h.whole_round hclient hrounds hlength)⟩

/-- Every event keeps the invariant. -/
theorem Invariant.step {event : Event} (h : Invariant done s) (hstep : s.step event = some next) :
    Invariant (done ++ [event]) next := by
  cases event with
  | typed line => exact h.typed_step hstep
  | serverRecv k => exact h.server_recv_step hstep
  | clientRecv k => exact h.client_recv_step hstep
  | serverStops =>
      obtain ⟨-, rfl⟩ := eq_of_guarded hstep
      have hsilent : Invariant (done ++ [.serverStops]) s := h.of_silent rfl rfl
      exact ⟨hsilent.typed, hsilent.answers, h.client, h.sendable, h.sent, h.echoed, h.printed,
        h.bounded, h.inStep⟩
  | clientStops =>
      simp only [System.step] at hstep
      split at hstep
      · cases hstep
      · obtain rfl := Option.some.inj hstep
        have hsilent : Invariant (done ++ [.clientStops]) s := h.of_silent rfl rfl
        exact ⟨hsilent.typed, hsilent.answers, h.rounds_prefix, h.sendable, h.sent, h.echoed,
          h.printed, h.bounded, h.inStep⟩

/-- The invariant holds in every run. -/
theorem invariant_of_run {events : List Event} (h : runEvents System.step .start events = some s) :
    Invariant events s :=
  run_events_induction Invariant .start (fun _ _ _ _ hdone hstep => hdone.step hstep) h

/-- The server never reads beyond its buffer when it takes the length of the text in it. -/
theorem server_text_ends {events : List Event} (h : runEvents System.step .start events = some s)
    (k : Nat) (hk : k ≤ bufSize) : (0 : UInt8) ∈ s.serverBuf k := by
  have hinv := invariant_of_run h
  show (0 : UInt8) ∈ filled (s.up.queue.take k)
  rw [filled_eq]
  by_cases hfull : bufSize ≤ (s.up.queue.take k).length
  · refine List.mem_append_left _ ?_
    rw [List.length_take] at hfull
    have hall : k = bufSize := by omega
    -- the last byte of the record that the text begins in
    obtain ⟨i, hi, hend⟩ := exists_record_end s.up.received.length
    have hlt : s.up.received.length + i < s.up.sent.length := by
      rw [s.up.length_sent]
      omega
    rw [hinv.sent] at hlt
    have hzero := records_end (fun line hline => Nat.lt_succ_of_le (hinv.sendable line hline).1)
      hlt hend
    rw [← hinv.sent, s.up.fifo, List.getElem?_append_right (Nat.le_add_right _ _),
      Nat.add_sub_cancel_left] at hzero
    refine List.mem_of_getElem? (i := i) ?_
    rw [List.getElem?_take_of_lt (by omega)]
    exact hzero
  · refine List.mem_append_right _ ?_
    rw [zeros, List.mem_replicate]
    exact ⟨by omega, rfl⟩

/-- When the client prints what it has sent. For all lines and all that the calls of `recv` on both
sides may return: in every round the client has come to the end of it has printed the line it sent
in that round, if and only if in each of these rounds its `recv` returned as many bytes as the line
has. -/
theorem echo_in_step_iff {events : List Event} {s : System}
    (h : runEvents System.step .start events = some s) :
    (∀ r ∈ s.rounds, r.text = some r.line) ↔ answers events <+: (typed events).map List.length := by
  have hinv := invariant_of_run h
  have htext : (∀ r ∈ s.rounds, r.text = some r.line) ↔ ∀ r ∈ s.rounds, r.received = r.line := by
    refine forall₂_congr fun r hr => ?_
    have hline : r.line ∈ s.lines := hinv.rounds_prefix.subset (List.mem_map_of_mem hr)
    exact Round.text_eq_iff (hinv.bounded r hr) (hinv.received_no_nul hr)
      (Nat.lt_succ_of_le (hinv.sendable _ hline).1)
  have hlengths : (∀ r ∈ s.rounds, r.received = r.line) ↔
      ∀ r ∈ s.rounds, r.received.length = r.line.length :=
    ⟨fun heq r hr => congrArg _ (heq r hr), hinv.inStep⟩
  have hlines : s.rounds.map (fun r => r.line.length) <+: s.lines.map List.length := by
    have := hinv.rounds_prefix.map List.length
    rwa [List.map_map] at this
  rw [htext, hlengths, hinv.answers, hinv.typed, ← List.map_inj_left]
  refine ⟨fun heq => heq ▸ hlines, fun hprefix => ?_⟩
  refine (List.prefix_of_prefix_length_le hprefix hlines ?_).eq_of_length ?_
  · rw [List.length_map, List.length_map]
  · rw [List.length_map, List.length_map]

/-- The line `ab`. -/
def lineAb : Line := ⟨ascii "ab", by decide, by decide, by decide⟩

/-- The line `z`. -/
def lineZ : Line := ⟨ascii "z", by decide, by decide, by decide⟩

/-- The server gets the record of the first line in two parts, and the client its answers whole. -/
def wholeRounds : List Event :=
  [.typed lineAb, .serverRecv 1, .serverRecv 1499, .clientRecv 2, .typed lineZ, .serverRecv 1500,
    .clientRecv 1]

/-- The same, but the client gets the first answer in two parts. -/
def cutRounds : List Event :=
  [.typed lineAb, .serverRecv 1, .clientRecv 1, .serverRecv 1499, .typed lineZ, .clientRecv 1]

/-- However the server gets the records, the client prints its lines when it gets each answer
whole. -/
theorem echo_in_step_whole :
    ∃ s, runEvents System.step .start wholeRounds = some s ∧ s.rounds.length = 2 ∧
      ∀ r ∈ s.rounds, r.text = some r.line := by
  have hrun : (runEvents System.step .start wholeRounds).map (fun s => s.rounds.length) =
      some 2 := by decide +kernel
  obtain ⟨s, hrun, htwo⟩ := Option.map_eq_some_iff.mp hrun
  exact ⟨s, hrun, htwo, (echo_in_step_iff hrun).mpr (by decide +kernel)⟩

/-- With the first answer in two parts, the client prints `a` for its line `ab` and `b`, which is
left of that answer, for its line `z`. -/
theorem echo_in_step_cut :
    ¬ ∀ (events : List Event) (s : System), runEvents System.step .start events = some s →
      ∀ r ∈ s.rounds, r.text = some r.line := by
  intro hall
  have hrun : (runEvents System.step .start cutRounds).map
      (fun s => s.rounds.map fun r => (r.line, r.text)) =
        some [(ascii "ab", some (ascii "a")), (ascii "z", some (ascii "b"))] := by decide +kernel
  obtain ⟨s, hrun, hrounds⟩ := Option.map_eq_some_iff.mp hrun
  have hmem : (ascii "z", some (ascii "b")) ∈ s.rounds.map fun r => (r.line, r.text) := by
    rw [hrounds]
    decide
  obtain ⟨r, hr, heq⟩ := List.mem_map.mp hmem
  obtain ⟨hline, htext⟩ := Prod.mk.inj heq
  have := hall cutRounds s hrun r hr
  rw [hline, htext] at this
  exact absurd this (by decide)

end UnixNet.LocalSocket
