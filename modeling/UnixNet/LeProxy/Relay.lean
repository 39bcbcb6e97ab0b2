import UnixNet.LeProxy.Proxy
import UnixNet.Lib.Conduit
import UnixNet.Lib.Text

/-!
# The proxy passes everything on

What holds of the two bufferevents of a connection in every order in which data arrives, is taken by
the network, and callbacks run. While both are open, each direction is `Linked`: what one peer has
sent is what the other one was given, then the output of the partner, then what was not yet moved.
When one of them was freed, the other one is `Closing`: it only has to say what is left. `kept_act`
says that every step keeps this, that no callback uses a bufferevent that was freed, and that the
step is one of two reliable one-way connections.
-/

namespace UnixNet.LeProxy

open NetLib

/-- Whether the proxy has stopped reading from `b` because of its partner `p`, and what is known
then: the partner has too much output, or its write callback is due. -/
def Flow (room : Nat) (b p : Bev) : Prop :=
  (p.writecb = none ∧ p.writePending = false ∧ p.output.length < maxOutput) ∨
    (p.writecb = some .drained ∧ p.low = maxOutput / 2 ∧ p.output.length < maxOutput + room ∧
      (p.writePending = true ↔ p.output.length ≤ maxOutput / 2) ∧ b.reads = false ∧ b.input = [])

/-- A bufferevent writes until it has reported an end or an error, and that is still to be
handled. -/
structure Sound (b : Bev) : Prop where
  writes : b.writes = false → b.reports.any Report.ends = true
  broken : b.broken = b.reports.any Report.ends

/-- The direction from `b`, at side `i`, to its partner `p`, while both are open. -/
structure Linked (room : Nat) (i : Side) (b p : Bev) : Prop where
  reader : b.reader = true
  partner : p.ctx = some i
  stream : b.received = p.delivered ++ p.output ++ b.input
  roomy : b.input.length ≤ room
  due : b.input ≠ [] → b.readPending = true
  paused : b.reads = false → b.reports.any Report.ends = true ∨ p.writecb = some .drained
  flow : Flow room b p

/-- The partner `p` of the freed bufferevent `b`, which is given what is left. -/
structure Closing (room : Nat) (b p : Bev) : Prop where
  ctx : p.ctx = none
  reader : p.reader = false
  reads : p.reads = false
  writecb : p.writecb = some .closeOnFinished
  stream : b.received = p.delivered ++ p.output
  due : p.output = [] → p.writePending = true
  bounded : p.output.length < maxOutput + room

/-- What every step keeps. -/
structure Inv (room : Nat) (s : Proxy) : Prop where
  sound : ∀ i, (s i).isOpen = true → Sound (s i)
  linked : ∀ i, (s i).isOpen = true → (s i.other).isOpen = true → Linked room i (s i) (s i.other)
  closing : ∀ i, (s i).isOpen = false → (s i.other).isOpen = true → Closing room (s i) (s i.other)

/-- One direction of a connection, as a one-way connection. -/
def direction (b p : Bev) : Conduit UInt8 :=
  ⟨b.received, p.delivered, p.isOpen, p.broken⟩

/-- A callback has a result, which keeps the invariant and is a step of both directions. -/
def Kept (room : Nat) (i : Side) (b p : Bev) (result : Option Proxy) : Prop :=
  ∃ b' p', result = some (pair i b' p') ∧ Inv room (pair i b' p') ∧
    (direction b p).Moves (direction b' p') ∧ (direction p b).Moves (direction p' b')

variable {room : Nat} {i : Side} {b p b' p' : Bev} {s : Proxy}

theorem max_output_half_lt : maxOutput / 2 < maxOutput := by
  decide

/-! ## The invariant of a pair -/

/-- A property of every side, from both sides. -/
theorem forall_pair {P : Side → Bev → Bev → Prop} (hself : P i b p) (hother : P i.other p b) :
    ∀ side, P side (pair i b p side) (pair i b p side.other) := by
  intro side
  by_cases h : side = i
  · rw [h, pair_self, pair_other]
    exact hself
  · rw [Side.eq_other_of_ne h, pair_other, Side.other_other, pair_self]
    exact hother

/-- Two open bufferevents. -/
theorem Inv.of_linked (hb : b.isOpen = true) (hp : p.isOpen = true) (hsoundb : Sound b)
    (hsoundp : Sound p) (hto : Linked room i b p) (hback : Linked room i.other p b) :
    Inv room (pair i b p) where
  sound := forall_pair (P := fun _ b _ => b.isOpen = true → Sound b) (fun _ => hsoundb)
    (fun _ => hsoundp)
  linked := forall_pair (P := fun i b p => b.isOpen = true → p.isOpen = true → Linked room i b p)
    (fun _ _ => hto) (fun _ _ => hback)
  closing := forall_pair (P := fun _ b p => b.isOpen = false → p.isOpen = true → Closing room b p)
    (fun h => absurd h (by simp [hb])) (fun h => absurd h (by simp [hp]))

/-- An open bufferevent without its partner. -/
theorem Inv.of_closing (hb : b.isOpen = true) (hp : p.isOpen = false) (hsound : Sound b)
    (hclosing : Closing room p b) : Inv room (pair i b p) where
  sound := forall_pair (P := fun _ b _ => b.isOpen = true → Sound b) (fun _ => hsound)
    (fun h => absurd h (by simp [hp]))
  linked := forall_pair (P := fun i b p => b.isOpen = true → p.isOpen = true → Linked room i b p)
    (fun _ h => absurd h (by simp [hp])) (fun h => absurd h (by simp [hp]))
  closing := forall_pair (P := fun _ b p => b.isOpen = false → p.isOpen = true → Closing room b p)
    (fun h => absurd h (by simp [hb])) (fun _ _ => hclosing)

/-- Two freed bufferevents. -/
theorem Inv.of_closed (hb : b.isOpen = false) (hp : p.isOpen = false) : Inv room (pair i b p) where
  sound := forall_pair (P := fun _ b _ => b.isOpen = true → Sound b)
    (fun h => absurd h (by simp [hb])) (fun h => absurd h (by simp [hp]))
  linked := forall_pair (P := fun i b p => b.isOpen = true → p.isOpen = true → Linked room i b p)
    (fun h => absurd h (by simp [hb])) (fun h => absurd h (by simp [hp]))
  closing := forall_pair (P := fun _ b p => b.isOpen = false → p.isOpen = true → Closing room b p)
    (fun _ h => absurd h (by simp [hp])) (fun _ h => absurd h (by simp [hb]))

/-! ## What arrives, is taken and is reported -/

/-- A report is of an end or an error if it disables a direction. -/
theorem ends_of_leaves {r : Report} {reading : Bool} (h : r.leaves reading = false) :
    r.ends = true := by
  cases r with
  | connected => cases h
  | eof | error => rfl

/-- One more report keeps a bufferevent sound. -/
theorem Sound.report (h : Sound b) (r : Report) : Sound (b.report r) where
  writes := by
    intro hwrites
    show (b.reports ++ [r]).any Report.ends = true
    rw [List.any_append, Bool.or_eq_true]
    rcases Bool.and_eq_false_iff.mp hwrites with hbefore | hleaves
    · exact .inl (h.writes hbefore)
    · exact .inr (by rw [List.any_cons, ends_of_leaves hleaves, Bool.true_or])
  broken := by
    show (b.broken || r.ends) = (b.reports ++ [r]).any Report.ends
    rw [h.broken, List.any_append, List.any_cons, List.any_nil, Bool.or_false]

/-- Data arrives at a bufferevent with a partner. -/
theorem Linked.receive {data : Bytes} (h : Linked room i b p) (hreads : b.reads = true)
    (hroom : b.input.length + data.length ≤ room) : Linked room i (b.receive data) p :=
  { h with
    stream := by
      show b.received ++ data = p.delivered ++ p.output ++ (b.input ++ data)
      rw [h.stream, List.append_assoc _ b.input]
    roomy := by
      show (b.input ++ data).length ≤ room
      rwa [List.length_append]
    due := by
      intro _
      show (b.readPending || b.reader) = true
      rw [h.reader, Bool.or_true]
    flow := by
      rcases h.flow with hfree | ⟨_, _, _, _, hpaused, _⟩
      · exact .inl hfree
      · rw [hreads] at hpaused
        cases hpaused }

/-- The network takes output of the partner. -/
theorem Linked.flush (h : Linked room i b p) (n : Nat) : Linked room i b (p.flush n) :=
  { h with
    stream := by rw [BufSock.flush_stream, h.stream]
    flow := by
      have hless : (p.output.drop n).length ≤ p.output.length := by
        rw [List.length_drop]
        exact Nat.sub_le _ _
      rcases h.flow with ⟨hcb, hpending, hbound⟩ | ⟨hcb, hlow, hbound, hdue, hpaused, hinput⟩
      · refine .inl ⟨hcb, ?_, Nat.lt_of_le_of_lt hless hbound⟩
        show (p.writePending || (p.writecb.isSome && _)) = false
        rw [hcb, hpending]
        rfl
      · refine .inr ⟨hcb, hlow, Nat.lt_of_le_of_lt hless hbound, ?_, hpaused, hinput⟩
        show (p.writePending || (p.writecb.isSome && decide ((p.output.drop n).length ≤ p.low))) =
          true ↔ (p.output.drop n).length ≤ maxOutput / 2
        rw [hcb, hlow, Option.isSome_some, Bool.true_and, Bool.or_eq_true, decide_eq_true_eq, hdue]
        exact ⟨fun hor => hor.elim (Nat.le_trans hless) id, .inr⟩ }

/-- A bufferevent with a partner reports something. -/
theorem Linked.report (h : Linked room i b p) (r : Report) : Linked room i (b.report r) p :=
  { h with
    paused := by
      intro hreads
      show (b.reports ++ [r]).any Report.ends = true ∨ _
      rw [List.any_append, Bool.or_eq_true]
      rcases Bool.and_eq_false_iff.mp hreads with hbefore | hleaves
      · exact (h.paused hbefore).imp .inl id
      · exact .inl (.inr (by rw [List.any_cons, ends_of_leaves hleaves, Bool.true_or]))
    flow := by
      rcases h.flow with hfree | ⟨hcb, hlow, hbound, hdue, hpaused, hinput⟩
      · exact .inl hfree
      · refine .inr ⟨hcb, hlow, hbound, hdue, ?_, hinput⟩
        show (b.reads && r.leaves true) = false
        rw [hpaused, Bool.false_and] }

/-- The network takes what is left to say. -/
theorem Closing.flush (h : Closing room b p) (n : Nat) : Closing room b (p.flush n) :=
  { h with
    stream := by rw [BufSock.flush_stream, h.stream]
    due := by
      intro hnone
      show (p.writePending || (p.writecb.isSome && decide ((p.output.drop n).length ≤ p.low))) =
        true
      rw [show p.output.drop n = [] from hnone, h.writecb]
      simp
    bounded := by
      refine Nat.lt_of_le_of_lt ?_ h.bounded
      show (p.output.drop n).length ≤ _
      rw [List.length_drop]
      exact Nat.sub_le _ _ }

/-! ## What the callbacks do -/

/-- `readcb` moves the input to the partner. -/
theorem Linked.readcb (h : Linked room i b p) :
    Linked room i (readSide { b with readPending := false } p) (fedSide i b p) where
  reader := by
    unfold readSide
    split <;> exact h.reader
  partner := by
    unfold fedSide
    split
    · rfl
    · exact h.partner
  stream := by
    rw [(read_side_fields _ p).1, read_side_input, (fed_side_fields i b p).2.1, fed_side_output,
      List.append_nil, ← List.append_assoc]
    exact h.stream
  roomy := by
    rw [read_side_input]
    exact Nat.zero_le _
  due := fun hinput => absurd (read_side_input _ p) hinput
  paused := by
    unfold readSide fedSide
    split
    · exact fun _ => .inr rfl
    · exact h.paused
  flow := by
    unfold Flow readSide fedSide
    split
    case isTrue hmuch =>
      -- the partner has too much: reading stops, and its write callback is not due yet
      have hbound : (p.output ++ b.input).length < maxOutput + room ∧ p.writePending = false := by
        have hhalf := max_output_half_lt
        have hroomy := h.roomy
        rcases h.flow with ⟨_, hpending, hless⟩ | ⟨_, _, hless, hdue, _, hinput⟩
        · rw [List.length_append]
          exact ⟨by omega, hpending⟩
        · rw [hinput, List.append_nil] at hmuch ⊢
          refine ⟨hless, ?_⟩
          rw [← Bool.not_eq_true, hdue]
          omega
      refine .inr ⟨rfl, rfl, hbound.1, ?_, rfl, rfl⟩
      have hhalf := max_output_half_lt
      show p.writePending = true ↔ (p.output ++ b.input).length ≤ maxOutput / 2
      rw [hbound.2]
      exact ⟨fun h => (nomatch h), fun hle => by omega⟩
    case isFalse hfits =>
      rcases h.flow with ⟨hcb, hpending, _⟩ | ⟨hcb, hlow, hbound, hdue, hpaused, hinput⟩
      · exact .inl ⟨hcb, hpending, Nat.lt_of_not_le hfits⟩
      · refine .inr ⟨hcb, hlow, ?_, ?_, hpaused, rfl⟩
        · show (p.output ++ b.input).length < _
          rwa [hinput, List.append_nil]
        · show p.writePending = true ↔ (p.output ++ b.input).length ≤ _
          rwa [hinput, List.append_nil]

/-- The other direction does not notice that `readcb` runs. -/
theorem Linked.readcb_back (h : Linked room i.other p b) :
    Linked room i.other (fedSide i b p) (readSide { b with readPending := false } p) := by
  unfold readSide fedSide
  split
  · exact { h with reader := rfl }
  · exact { h with }

/-- `drained_writecb` goes on reading from the partner. -/
theorem Linked.drained (h : Linked room i b p) (hcb : p.writecb = some .drained)
    (hpending : p.writePending = true) :
    Linked room i b.enableRead
      (({ p with writePending := false }.setcb true none (some i)).setwatermark 0) :=
  { h with
    partner := rfl
    paused := fun hreads => nomatch hreads
    flow := by
      have hhalf := max_output_half_lt
      rcases h.flow with ⟨hnone, _⟩ | ⟨_, _, _, hdue, _, _⟩
      · rw [hcb] at hnone
        cases hnone
      · exact .inl ⟨rfl, rfl, Nat.lt_of_le_of_lt (hdue.mp hpending) hhalf⟩ }

/-- When `eventcb` leaves the partner open, it has something left to say. -/
theorem Linked.eventcb (h : Linked room i b p) (hsome : p.output ++ b.input ≠ [])
    (hreceived : b'.received = b.received) : Closing room b' (leftSide i b p) := by
  unfold leftSide
  rw [if_neg hsome]
  exact {
    ctx := rfl
    reader := rfl
    reads := rfl
    writecb := rfl
    stream := by
      show b'.received = (fedSide i b p).delivered ++ (fedSide i b p).output
      rw [hreceived, h.stream, (fed_side_fields i b p).2.1, fed_side_output, List.append_assoc]
    due := fun hnone => absurd ((fed_side_output i b p).symm.trans hnone) hsome
    bounded := by
      have hhalf := max_output_half_lt
      rcases h.readcb.flow with ⟨_, _, hless⟩ | ⟨_, _, hless, _⟩
      · exact Nat.lt_of_lt_of_le hless (Nat.le_add_right _ _)
      · exact hless }

/-! ## Every step -/

/-- Nothing changes about the other direction when its sender does anything but send, and its
receiver is given nothing and reports nothing. -/
theorem moves_of_eq (hreceived : b'.received = b.received) (hdelivered : p'.delivered = p.delivered)
    (hopen : p'.isOpen = p.isOpen) (hbroken : p'.broken = p.broken) :
    (direction b p).Moves (direction b' p') :=
  .inl (by simp only [direction, hreceived, hdelivered, hopen, hbroken])

/-- A socket that failed is closed. -/
theorem moves_of_broken (hreceived : b'.received = b.received)
    (hdelivered : p'.delivered = p.delivered) (hopen : p'.isOpen = false)
    (hbroken : p.broken = true) (hstill : p'.broken = p.broken) :
    (direction b p).Moves (direction b' p') := by
  refine .inr ?_
  have hclose := Conduit.Step.close (direction b p) (.inl hbroken)
  simpa only [direction, hreceived, hdelivered, hopen, hstill] using hclose

/-- A socket is closed that was given everything. -/
theorem moves_of_done (hreceived : b'.received = b.received)
    (hdelivered : p'.delivered = p.delivered) (hopen : p'.isOpen = false)
    (hdone : p.delivered = b.received) (hstill : p'.broken = p.broken) :
    (direction b p).Moves (direction b' p') := by
  refine .inr ?_
  have := Conduit.Step.close (direction b p) (.inr hdone)
  simpa only [direction, hreceived, hdelivered, hopen, hstill] using this

/-- What is flushed comes from the output. -/
theorem moves_flush {n : Nat} (hsent : p.delivered ++ p.output <+: b.received) :
    (direction b p).Moves (direction b (p.flush n)) := by
  refine .inr (.deliver (direction b p) (p.output.take n) ?_)
  refine List.IsPrefix.trans ?_ hsent
  exact (List.prefix_append_right_inj _).mpr (List.take_prefix n p.output)

/-- A socket reports something. -/
theorem moves_report (r : Report) : (direction b p).Moves (direction b (p.report r)) := by
  cases hends : r.ends with
  | true =>
      refine .inr ?_
      have := Conduit.Step.report (direction b p)
      simpa only [direction, BufSock.report, hends, Bool.or_true] using this
  | false =>
      refine moves_of_eq rfl rfl rfl ?_
      show (p.broken || r.ends) = p.broken
      rw [hends, Bool.or_false]

/-- A bufferevent that is read writes and reports as before. -/
theorem Sound.read_side (h : Sound b) : Sound (readSide b p) := by
  unfold readSide
  split <;> exact { h with }

/-- So does its partner. -/
theorem Sound.fed_side (h : Sound p) : Sound (fedSide i b p) := by
  unfold fedSide
  split <;> exact { h with }

/-- A bufferevent whose reports were handled and are of no end or error. -/
theorem Sound.handled (h : Sound b) (hends : b.reports.any Report.ends = false) :
    Sound { b with reports := [] } where
  writes := by
    intro hwrites
    rw [h.writes hwrites] at hends
    cases hends
  broken := h.broken.trans hends

theorem Linked.handled (h : Linked room i b p) (hends : b.reports.any Report.ends = false) :
    Linked room i { b with reports := [] } p :=
  { h with
    paused := by
      intro hreads
      refine (h.paused hreads).imp (fun hany => ?_) id
      rw [hany] at hends
      cases hends }

variable {e : SockEvent UInt8}

/-- The read callback of a bufferevent with a partner. -/
theorem act_read (hb : b.isOpen = true) (hp : p.isOpen = true) (hctx : b.ctx = some i.other) :
    callbacks.act (pair i b p) i .runRead =
      some (pair i (readSide { b with readPending := false } p) (fedSide i b p)) := by
  simp only [Callbacks.act, callbacks, pair_self, update_pair_self, hctx]
  exact readcb_linked hb hp

/-- The write callback of a bufferevent whose partner is not read. -/
theorem act_drained (hb : b.isOpen = true) (hp : p.isOpen = true) (hctx : b.ctx = some i.other)
    (hcb : b.writecb = some .drained) :
    callbacks.act (pair i b p) i .runWrite =
      some (pair i
        (({ b with writePending := false }.setcb true none (some i.other)).setwatermark 0)
        p.enableRead) := by
  simp only [Callbacks.act, callbacks, pair_self, update_pair_self, hctx, hcb]
  exact drained_linked hb hp

/-- The write callback of a bufferevent that only says what is left. -/
theorem act_finished (hb : b.isOpen = true) (hcb : b.writecb = some .closeOnFinished) :
    callbacks.act (pair i b p) i .runWrite =
      some (pair i (if b.output = [] then { b with writePending := false }.free
        else { b with writePending := false }) p) := by
  simp only [Callbacks.act, callbacks, pair_self, update_pair_self, hcb]
  exact close_on_finished_open hb

/-- The event callback. -/
theorem act_event {ctx : Option Side} (hctx : b.ctx = ctx) :
    callbacks.act (pair i b p) i .runEvent =
      eventcb (pair i { b with reports := [] } p) i b.reports ctx := by
  rw [← hctx]
  simp only [Callbacks.act, callbacks, pair_self, update_pair_self]

/-- The write callback that is due for a bufferevent with a partner. -/
theorem Linked.writecb_eq (h : Linked room i b p) (hset : p.writecb.isSome = true) :
    p.writecb = some .drained := by
  rcases h.flow with ⟨hnone, _⟩ | ⟨hcb, _⟩
  · rw [hnone] at hset
    cases hset
  · exact hcb

/-- `eventcb` with a partner. -/
theorem kept_eventcb (hb : b.isOpen = true) (hp : p.isOpen = true) (hsoundb : Sound b)
    (hsoundp : Sound p) (hto : Linked room i b p) (hends : b.reports.any Report.ends = true) :
    Kept room i b p (eventcb (pair i { b with reports := [] } p) i b.reports (some i.other)) := by
  have hbroken : b.broken = true := hsoundb.broken.trans hends
  have hread := read_side_fields { b with reports := [] } p
  have hfed := fed_side_fields i b p
  refine ⟨(readSide { b with reports := [] } p).free, leftSide i b p,
    eventcb_linked hends hb hp, ?_⟩
  by_cases hnone : p.output ++ b.input = []
  · -- the partner has nothing left to say, and is closed as well
    have hleft : leftSide i b p = (fedSide i b p).free := if_pos hnone
    have hdone : p.delivered = b.received := by
      rw [hto.stream, List.append_assoc, hnone, List.append_nil]
    rw [hleft]
    exact ⟨.of_closed rfl rfl, moves_of_done hread.1 hfed.2.1 rfl hdone hfed.2.2,
      moves_of_broken hfed.1 hread.2.1 rfl hbroken hread.2.2⟩
  · have hleft : leftSide i b p =
        ((fedSide i b p).setcb false (some .closeOnFinished) none).disableRead := if_neg hnone
    have hsound : Sound (leftSide i b p) := by
      rw [hleft]
      exact { hsoundp.fed_side (i := i) (b := b) with }
    have hopen : (leftSide i b p).isOpen = true := by
      rw [hleft]
      exact (fed_side_isOpen i b p).trans hp
    refine ⟨?_, ?_, ?_⟩
    · rw [← pair_swap]
      exact .of_closing hopen rfl hsound (hto.eventcb hnone hread.1)
    · rw [hleft]
      exact moves_of_eq hread.1 hfed.2.1 (fed_side_isOpen i b p) hfed.2.2
    · rw [hleft]
      exact moves_of_broken hfed.1 hread.2.1 rfl hbroken hread.2.2

/-- Every step at a bufferevent with a partner. -/
theorem kept_linked (he : b.Enabled room e) (hp : p.isOpen = true) (hsoundb : Sound b)
    (hsoundp : Sound p) (hto : Linked room i b p) (hback : Linked room i.other p b) :
    Kept room i b p (callbacks.act (pair i b p) i e) := by
  have hb : b.isOpen = true := he.isOpen
  have hctx : b.ctx = some i.other := hback.partner
  cases e with
  | receive data =>
      obtain ⟨_, hreads, _, hroom⟩ := he
      refine ⟨b.receive data, p, ?_, .of_linked hb hp { hsoundb with } hsoundp
        (hto.receive hreads hroom) { hback with }, .inr (.send (direction b p) data hp),
        moves_of_eq rfl rfl rfl rfl⟩
      simp only [Callbacks.act, pair_self, update_pair_self]
  | flush n =>
      refine ⟨b.flush n, p, ?_, .of_linked hb hp { hsoundb with } hsoundp { hto with }
        (hback.flush n), moves_of_eq rfl rfl rfl rfl, moves_flush ⟨p.input, hback.stream.symm⟩⟩
      simp only [Callbacks.act, pair_self, update_pair_self]
  | report r =>
      refine ⟨b.report r, p, ?_, .of_linked hb hp (hsoundb.report r) hsoundp (hto.report r)
        { hback with }, moves_of_eq rfl rfl rfl rfl, moves_report r⟩
      simp only [Callbacks.act, pair_self, update_pair_self]
  | runRead =>
      have hread := read_side_fields { b with readPending := false } p
      have hfed := fed_side_fields i b p
      exact ⟨readSide { b with readPending := false } p, fedSide i b p, act_read hb hp hctx,
        .of_linked ((read_side_isOpen _ p).trans hb) ((fed_side_isOpen i b p).trans hp)
          (Sound.read_side { hsoundb with }) hsoundp.fed_side hto.readcb hback.readcb_back,
        moves_of_eq hread.1 hfed.2.1 (fed_side_isOpen i b p) hfed.2.2,
        moves_of_eq hfed.1 hread.2.1 (read_side_isOpen _ p) hread.2.2⟩
  | runWrite =>
      obtain ⟨_, hpending, hset⟩ := he
      have hcb := hback.writecb_eq hset
      exact ⟨_, _, act_drained hb hp hctx hcb, .of_linked hb hp { hsoundb with } { hsoundp with }
        { hto with reader := rfl } (hback.drained hcb hpending),
        moves_of_eq rfl rfl rfl rfl, moves_of_eq rfl rfl rfl rfl⟩
  | runEvent =>
      rw [act_event hctx]
      cases hends : b.reports.any Report.ends with
      | true => exact kept_eventcb hb hp hsoundb hsoundp hto hends
      | false =>
          exact ⟨{ b with reports := [] }, p, eventcb_other hends hb, .of_linked hb hp
            (hsoundb.handled hends) hsoundp (hto.handled hends) { hback with },
            moves_of_eq rfl rfl rfl rfl, moves_of_eq rfl rfl rfl rfl⟩

/-- Every step at a bufferevent whose partner was freed. -/
theorem kept_closing (he : b.Enabled room e) (hp : p.isOpen = false) (hsound : Sound b)
    (hclosing : Closing room p b) : Kept room i b p (callbacks.act (pair i b p) i e) := by
  have hb : b.isOpen = true := he.isOpen
  cases e with
  | receive data =>
      have hreads := he.2.1
      rw [hclosing.reads] at hreads
      cases hreads
  | flush n =>
      refine ⟨b.flush n, p, ?_, .of_closing hb hp { hsound with } (hclosing.flush n),
        moves_of_eq rfl rfl rfl rfl, moves_flush ⟨[], by rw [List.append_nil, hclosing.stream]⟩⟩
      simp only [Callbacks.act, pair_self, update_pair_self]
  | report r =>
      have hreads : (b.report r).reads = false := by
        show (b.reads && _) = false
        rw [hclosing.reads, Bool.false_and]
      refine ⟨b.report r, p, ?_, .of_closing hb hp (hsound.report r)
        { hclosing with reads := hreads }, moves_of_eq rfl rfl rfl rfl, moves_report r⟩
      simp only [Callbacks.act, pair_self, update_pair_self]
  | runRead =>
      have hreader := he.2.2
      rw [hclosing.reader] at hreader
      cases hreader
  | runWrite =>
      rw [act_finished hb hclosing.writecb]
      by_cases hnone : b.output = []
      · have hdone : b.delivered = p.received := by
          rw [hclosing.stream, hnone, List.append_nil]
        rw [if_pos hnone]
        exact ⟨_, _, rfl, .of_closed rfl hp, moves_of_eq rfl rfl rfl rfl,
          moves_of_done rfl rfl rfl hdone rfl⟩
      · rw [if_neg hnone]
        exact ⟨_, _, rfl, .of_closing hb hp { hsound with }
          { hclosing with due := fun h => absurd h hnone }, moves_of_eq rfl rfl rfl rfl,
          moves_of_eq rfl rfl rfl rfl⟩
  | runEvent =>
      rw [act_event hclosing.ctx]
      cases hends : b.reports.any Report.ends with
      | true =>
          exact ⟨_, _, eventcb_alone hends hb, .of_closed rfl hp, moves_of_eq rfl rfl rfl rfl,
            moves_of_broken rfl rfl rfl (hsound.broken.trans hends) rfl⟩
      | false =>
          exact ⟨_, _, eventcb_other hends hb, .of_closing hb hp (hsound.handled hends)
            { hclosing with }, moves_of_eq rfl rfl rfl rfl, moves_of_eq rfl rfl rfl rfl⟩

/-! ## Every run -/

/-- One direction of a connection, from the side that sends. -/
def conduit (s : Proxy) (i : Side) : Conduit UInt8 :=
  direction (s i) (s i.other)

/-- The invariant of a connection from the side where something happens: no step uses a freed
bufferevent, and every step keeps the invariant and moves both directions. -/
theorem Inv.act (h : Inv room s) (he : (s i).Enabled room e) :
    ∃ next, callbacks.act s i e = some next ∧ Inv room next ∧
      ∀ side, (conduit s side).Moves (conduit next side) := by
  have hb := he.isOpen
  have hkept : Kept room i (s i) (s i.other) (callbacks.act (pair i (s i) (s i.other)) i e) := by
    cases hp : (s i.other).isOpen with
    | true =>
        have hback := h.linked i.other hp (by rwa [Side.other_other])
        rw [Side.other_other] at hback
        exact kept_linked he hp (h.sound i hb) (h.sound i.other hp) (h.linked i hb hp) hback
    | false =>
        have hclosing := h.closing i.other hp (by rwa [Side.other_other])
        rw [Side.other_other] at hclosing
        exact kept_closing he hp (h.sound i hb) hclosing
  obtain ⟨b', p', hact, hinv, hto, hback⟩ := hkept
  rw [pair_eq] at hact
  refine ⟨_, hact, hinv, fun side => ?_⟩
  by_cases hside : side = i
  · rw [hside, conduit, conduit, pair_self, pair_other]
    exact hto
  · rw [Side.eq_other_of_ne hside, conduit, conduit, pair_other, Side.other_other, pair_self]
    exact hback

/-- A new connection. -/
theorem Linked.accepted (i : Side) : Linked room i (acceptedSide i) (acceptedSide i.other) where
  reader := rfl
  partner := by
    show some i.other.other = some i
    rw [Side.other_other]
  stream := rfl
  roomy := Nat.zero_le _
  due := fun h => absurd rfl h
  paused := fun h => nomatch h
  flow := .inl ⟨rfl, rfl, Nat.lt_of_le_of_lt (Nat.zero_le _) max_output_half_lt⟩

theorem Inv.accepted : Inv room accepted :=
  .of_linked rfl rfl ⟨nofun, rfl⟩ ⟨nofun, rfl⟩ (.accepted .bIn) (.accepted .bOut)

/-- The directions of a connection from one of its sides. -/
theorem reliable_pair (hto : (direction b p).Reliable) (hback : (direction p b).Reliable) :
    ∀ side, (conduit (pair i b p) side).Reliable :=
  forall_pair (P := fun _ b p => (direction b p).Reliable) hto hback

/-- Every state that is reached keeps the invariant, and in it both directions are reliable. -/
theorem Reachable.inv (h : Reachable room s) : Inv room s ∧ ∀ i, (conduit s i).Reliable := by
  obtain ⟨connects, filter, start, events, hstart, hrun⟩ := h
  refine run_events_induction (fun _ s => Inv room s ∧ ∀ i, (conduit s i).Reliable) ?_ ?_ hrun
  · by_cases hfail : connects = false ∨ filter = some false
    · obtain ⟨b, p, hrefused, hback, hto⟩ := accept_cb_refused hfail
      obtain rfl : pair .bIn b.free p.free = start := Option.some.inj (hrefused.symm.trans hstart)
      exact ⟨.of_closed rfl rfl, reliable_pair ⟨⟨[], (List.append_nil _).trans hto⟩, fun _ _ => hto⟩
        ⟨⟨[], (List.append_nil _).trans hback⟩, fun _ _ => hback⟩⟩
    · obtain ⟨hconnects, hfilter⟩ := not_or.mp hfail
      rw [Bool.not_eq_false] at hconnects
      rw [hconnects, accept_cb_accepted hfilter, Option.some.injEq] at hstart
      rw [← hstart]
      exact ⟨.accepted, reliable_pair ⟨List.nil_prefix, fun _ _ => rfl⟩
        ⟨List.nil_prefix, fun _ _ => rfl⟩⟩
  · intro _ s e next ⟨hinv, hreliable⟩ hstep
    obtain ⟨henabled, hact⟩ := Callbacks.step_eq_some.mp hstep
    obtain ⟨next', hact', hinv', hmoves⟩ := hinv.act henabled
    obtain rfl : next' = next := Option.some.inj (hact'.symm.trans hact)
    exact ⟨hinv', fun i => (hreliable i).moves (hmoves i)⟩

/-- A client sends three bytes and ends. The server has been given two of them. -/
def farewell : List (Side × SockEvent UInt8) :=
  [(.bIn, .receive (ascii "abc")), (.bIn, .runRead), (.bOut, .flush 2), (.bIn, .report (.eof true)),
    (.bIn, .runEvent)]

/-- The connection after that. -/
def parting : Proxy :=
  (runEvents (callbacks.step 16) accepted farewell).get (by decide)

theorem reachable_parting : Reachable 16 parting :=
  ⟨true, none, accepted, farewell, accept_cb_accepted (by decide), (Option.some_get _).symm⟩

/-- No callback ever uses a bufferevent that was freed. -/
theorem never_uses_freed (h : Reachable room s) (i : Side) (he : (s i).Enabled room e) :
    (callbacks.act s i e).isSome = true := by
  obtain ⟨next, hact, -⟩ := h.inv.1.act he
  rw [hact]
  rfl

theorem never_uses_freed_parting : (callbacks.act parting .bOut (.flush 1)).isSome = true :=
  never_uses_freed reachable_parting .bOut (by decide)

end UnixNet.LeProxy
