import UnixNet.PollDemo.Server

/-!
# The slot table of the poll server

The array is a table of the open connections: each is in exactly one slot, all slots in use are
watched by the next `poll`, and a slot that a disconnected client leaves is used again. `Invariant`
says so, there is one lemma for each thing that the loop body does to the table, and
`slot_table_invariant` is the result for every state at the top of the loop.
-/

namespace UnixNet.PollDemo

open NetLib

/-- The table is right: what holds at the top of the loop, and during the scan. -/
structure Invariant (listenfd : Int) (s : Server) : Prop where
  maxi_lt : s.maxi < openMax
  listening : (s.client 0).fd = listenfd ∧ (s.client 0).events = pollin
  unused : ∀ i, s.maxi < i → i < openMax → (s.client i).fd = -1
  held : ∀ i, 1 ≤ i → i < openMax → 0 ≤ (s.client i).fd →
    (s.client i).fd ∈ connections s.calls ∧ (s.client i).events = pollin
  found : ∀ fd ∈ connections s.calls, 0 ≤ fd ∧ ∃ i, 1 ≤ i ∧ i ≤ s.maxi ∧ (s.client i).fd = fd
  apart : ∀ i j, 1 ≤ i → i < openMax → 1 ≤ j → j < openMax → 0 ≤ (s.client i).fd →
    (s.client i).fd = (s.client j).fd → i = j

variable {listenfd : Int}

/-- All slots but the first are unused at the start. -/
theorem invariant_start (stale : Nat → Pollfd) : Invariant listenfd (.start listenfd stale) := by
  have hfree : ∀ i, 1 ≤ i → ((Server.start listenfd stale).client i).fd = -1 := by
    intro i hi
    have hne : i ≠ 0 := by omega
    simp [Server.start, hne]
  refine ⟨Nat.succ_pos 1023, ⟨rfl, rfl⟩, ?_, ?_, ?_, ?_⟩
  · intro i hi _
    exact hfree i hi
  · intro i hi _ hused
    rw [hfree i hi] at hused
    exact absurd hused (by decide)
  · intro fd hfd
    cases hfd
  · intro i j hi _ _ _ hused
    rw [hfree i hi] at hused
    exact absurd hused (by decide)

/-- The table depends on descriptors, `events`, `maxi` and the open connections only. -/
theorem Invariant.of_same {s t : Server} (h : Invariant listenfd s) (hmaxi : t.maxi = s.maxi)
    (hslots : ∀ i, (t.client i).fd = (s.client i).fd ∧ (t.client i).events = (s.client i).events)
    (hconnections : connections t.calls = connections s.calls) : Invariant listenfd t := by
  refine ⟨hmaxi ▸ h.maxi_lt, ?_, ?_, ?_, ?_, ?_⟩
  · rw [(hslots 0).1, (hslots 0).2]
    exact h.listening
  · intro i hi hlt
    rw [(hslots i).1]
    exact h.unused i (hmaxi ▸ hi) hlt
  · intro i hi hlt hused
    rw [(hslots i).1] at hused ⊢
    rw [(hslots i).2, hconnections]
    exact h.held i hi hlt hused
  · intro fd hfd
    obtain ⟨hpos, i, hi, hle, heq⟩ := h.found fd (hconnections ▸ hfd)
    exact ⟨hpos, i, hi, hmaxi ▸ hle, (hslots i).1.trans heq⟩
  · intro i j hi hilt hj hjlt hused heq
    rw [(hslots i).1] at hused heq
    rw [(hslots j).1] at heq
    exact h.apart i j hi hilt hj hjlt hused heq

/-- `poll` does not change the table. -/
theorem Invariant.poll {s : Server} (h : Invariant listenfd s) (ret : PollReturn) :
    Invariant listenfd (s.poll ret).2 := by
  cases ret with
  | failed => exact h
  | ready reported => exact h.of_same rfl (fun i => s.polled_fd reported i) rfl

/-- The search for a slot, on a server whose first slots are in use. -/
theorem Server.free_slot_spec (s : Server) :
    1 ≤ s.freeSlot ∧ s.freeSlot ≤ openMax ∧
      (s.freeSlot < openMax → (s.client s.freeSlot).fd < 0) ∧
      ∀ j, 1 ≤ j → j < s.freeSlot → 0 ≤ (s.client j).fd := by
  have hsum : 1 + (openMax - 1) = openMax := rfl
  have hspec := find_slot_spec s.client (openMax - 1) 1
  rwa [hsum] at hspec

/-- A connection is saved in the first unused slot, and the other slots are as before. -/
theorem Server.save_spec {s next : Server} {connfd : Int} (h : s.save connfd = (true, next)) :
    ∃ slot, (1 ≤ slot ∧ slot < openMax) ∧ (s.client slot).fd < 0 ∧
      (∀ j, 1 ≤ j → j < slot → 0 ≤ (s.client j).fd) ∧
      next.client slot = ⟨connfd, pollin, (s.client slot).revents⟩ ∧
      (∀ i, i ≠ slot → next.client i = s.client i) ∧
      next.maxi = (if slot > s.maxi then slot else s.maxi) ∧ next.calls = s.calls := by
  obtain ⟨hlow, hhigh, hfree, hbelow⟩ := s.free_slot_spec
  unfold save at h
  by_cases hfull : s.freeSlot = openMax
  · simp [hfull] at h
  · simp only [hfull, if_false, Prod.mk.injEq, true_and] at h
    have hlt : s.freeSlot < openMax := by omega
    refine ⟨s.freeSlot, ⟨hlow, hlt⟩, hfree hlt, hbelow, ?_, ?_, ?_, ?_⟩
    · rw [← h]
      exact Server.set_self _ _ _
    · intro i hi
      rw [← h]
      exact Server.set_of_ne _ _ hi
    · rw [← h]
      rfl
    · rw [← h]
      rfl

/-- The same for a connection that was just accepted. -/
theorem Server.accept_save_spec {s next : Server} {connfd : Int}
    (h : (s.call (.accept (some connfd))).save connfd = (true, next)) :
    ∃ slot, (1 ≤ slot ∧ slot < openMax) ∧ (s.client slot).fd < 0 ∧
      (∀ j, 1 ≤ j → j < slot → 0 ≤ (s.client j).fd) ∧
      next.client slot = ⟨connfd, pollin, (s.client slot).revents⟩ ∧
      (∀ i, i ≠ slot → next.client i = s.client i) ∧
      next.maxi = (if slot > s.maxi then slot else s.maxi) ∧
      next.calls = s.calls ++ [.accept (some connfd)] :=
  Server.save_spec h

/-- Saving a connection that is new puts it into one slot. -/
theorem Invariant.save {s next : Server} {connfd : Int} (h : Invariant listenfd s)
    (hpos : 0 ≤ connfd) (hnew : connfd ∉ connections s.calls)
    (hsave : (s.call (.accept (some connfd))).save connfd = (true, next)) :
    Invariant listenfd next := by
  obtain ⟨slot, ⟨hlow, hlt⟩, hfree, -, hslot, hother, hmaxi, hcalls⟩ :=
    Server.accept_save_spec hsave
  have hgrow : s.maxi ≤ next.maxi ∧ slot ≤ next.maxi ∧ (next.maxi = s.maxi ∨ next.maxi = slot) := by
    split at hmaxi <;> omega
  have hmem : ∀ fd, fd ∈ connections next.calls ↔ fd ∈ connections s.calls ∨ fd = connfd := by
    intro fd
    rw [hcalls]
    exact mem_connections_accept
  -- no slot in use has the new descriptor, which `accept` gave out only now
  have hnot : ∀ i, 1 ≤ i → i < openMax → 0 ≤ (s.client i).fd → (s.client i).fd ≠ connfd := by
    intro i hi hilt hused heq
    exact hnew (heq ▸ (h.held i hi hilt hused).1)
  refine ⟨?_, ?_, ?_, ?_, ?_, ?_⟩
  · have := h.maxi_lt
    omega
  · rw [hother 0 (by omega)]
    exact h.listening
  · intro i hi hilt
    rw [hother i (by omega)]
    exact h.unused i (by omega) hilt
  · intro i hi hilt hused
    rw [hmem]
    by_cases heq : i = slot
    · rw [heq, hslot]
      exact ⟨.inr rfl, rfl⟩
    · rw [hother i heq] at hused ⊢
      exact ⟨.inl (h.held i hi hilt hused).1, (h.held i hi hilt hused).2⟩
  · -- the new connection is in the slot, the others are where they were
    intro fd hfd
    rcases (hmem fd).mp hfd with hfd | hfd
    · obtain ⟨hfdPos, i, hi, hle, heq⟩ := h.found fd hfd
      have hne : i ≠ slot := by
        intro hislot
        rw [hislot] at heq
        omega
      exact ⟨hfdPos, i, hi, by omega, by rw [hother i hne]; exact heq⟩
    · rw [hfd]
      exact ⟨hpos, slot, hlow, hgrow.2.1, by rw [hslot]⟩
  · -- no other slot has the descriptor of the new connection
    intro i j hi hilt hj hjlt hused heq
    by_cases hislot : i = slot
    · by_cases hjslot : j = slot
      · rw [hislot, hjslot]
      · rw [hislot, hslot, hother j hjslot] at heq
        have heq : connfd = (s.client j).fd := heq
        exact absurd heq.symm (hnot j hj hjlt (heq ▸ hpos))
    · rw [hother i hislot] at hused heq
      by_cases hjslot : j = slot
      · rw [hjslot, hslot] at heq
        exact absurd heq (hnot i hi hilt hused)
      · rw [hother j hjslot] at heq
        exact h.apart i j hi hilt hj hjlt hused heq

/-- Closing the connection in a slot takes it out of the table. -/
theorem Invariant.disconnect {s : Server} {i : Nat} (h : Invariant listenfd s) (hi : 1 ≤ i)
    (hlt : i < openMax) (hused : 0 ≤ (s.client i).fd) :
    Invariant listenfd ((s.call (.close (s.client i).fd)).set i { s.client i with fd := -1 }) := by
  set next := (s.call (.close (s.client i).fd)).set i { s.client i with fd := -1 } with hnext
  have hslot : (next.client i).fd = -1 := by
    rw [hnext, Server.set_self]
  have hother : ∀ j, j ≠ i → next.client j = s.client j := by
    intro j hj
    exact Server.set_of_ne _ _ hj
  have hmem : ∀ fd, fd ∈ connections next.calls ↔
      fd ∈ connections s.calls ∧ fd ≠ (s.client i).fd :=
    fun fd => mem_connections_close
  have hne : ∀ j, 0 ≤ (next.client j).fd → j ≠ i := by
    rintro j hj rfl
    omega
  refine ⟨h.maxi_lt, ?_, ?_, ?_, ?_, ?_⟩
  · rw [hother 0 (by omega)]
    exact h.listening
  · intro j hj hjlt
    by_cases heq : j = i
    · rw [heq, hslot]
    · rw [hother j heq]
      exact h.unused j hj hjlt
  · intro j hj hjlt hjused
    have hji := hne j hjused
    rw [hother j hji] at hjused ⊢
    obtain ⟨hopen, hevents⟩ := h.held j hj hjlt hjused
    refine ⟨(hmem _).mpr ⟨hopen, ?_⟩, hevents⟩
    -- no other slot has the descriptor that is closed
    intro heq
    exact hji (h.apart j i hj hjlt hi hlt hjused heq)
  · intro fd hfd
    obtain ⟨hopen, hneq⟩ := (hmem fd).mp hfd
    obtain ⟨hpos, j, hj, hle, heq⟩ := h.found fd hopen
    have hji : j ≠ i := by
      rintro rfl
      exact hneq heq.symm
    exact ⟨hpos, j, hj, hle, by rw [hother j hji]; exact heq⟩
  · intro j l hj hjlt hl hllt hjused heq
    have hji := hne j hjused
    have hli := hne l (heq ▸ hjused)
    rw [hother j hji] at hjused heq
    rw [hother l hli] at heq
    exact h.apart j l hj hjlt hl hllt hjused heq

/-- Reading and writing leave the table alone. -/
theorem Invariant.call {s : Server} {c : SocketCall Int} (h : Invariant listenfd s)
    (hc : c.effect (connections s.calls) = connections s.calls) :
    Invariant listenfd (s.call c) :=
  h.of_same rfl (fun _ => ⟨rfl, rfl⟩) ((connections_concat _ _).trans hc)

/-- Serving a slot in use keeps the table right. -/
theorem Invariant.serve_slot {s next : Server} {k : Round} {i : Nat} (h : Invariant listenfd s)
    (hi : 1 ≤ i) (hlt : i < openMax) (hused : 0 ≤ (s.client i).fd)
    (hserve : s.serveSlot k i = (true, next)) : Invariant listenfd next := by
  have hread : Invariant listenfd (s.call (.read (s.client i).fd)) := h.call rfl
  rcases s.serve_slot_cases k i with ⟨data, hcase⟩ | hcase | hcase | hcase
  · rw [hcase] at hserve
    obtain ⟨-, rfl⟩ := Prod.mk.inj hserve
    exact hread.call rfl
  · rw [hcase] at hserve
    obtain ⟨-, rfl⟩ := Prod.mk.inj hserve
    exact hread.disconnect hi hlt hused
  · rw [hcase] at hserve
    exact absurd (Prod.mk.inj hserve).1 Bool.false_ne_true
  · rw [hcase] at hserve
    exact absurd (Prod.mk.inj hserve).1 Bool.false_ne_true

/-- The scan keeps the table right. -/
theorem Invariant.scan {s : Server} {k : Round} {slots : List Nat} {nready : Int}
    (h : Invariant listenfd s) (hslots : ∀ i ∈ slots, 1 ≤ i ∧ i < openMax)
    (hgoes : (scan k slots nready s).1 = true) : Invariant listenfd (scan k slots nready s).2 := by
  induction slots generalizing s nready with
  | nil => exact h
  | cons i rest ih =>
      have hrest : ∀ j ∈ rest, 1 ≤ j ∧ j < openMax :=
        fun j hj => hslots j (List.mem_cons_of_mem _ hj)
      obtain ⟨hi, hlt⟩ := hslots i List.mem_cons_self
      unfold PollDemo.scan at hgoes ⊢
      by_cases hfree : (s.client i).fd < 0
      · rw [if_pos hfree] at hgoes ⊢
        exact ih h hrest hgoes
      · rw [if_neg hfree] at hgoes ⊢
        by_cases hquiet : (s.client i).revents &&& pollin = 0
        · rw [if_pos hquiet] at hgoes ⊢
          exact ih h hrest hgoes
        · rw [if_neg hquiet] at hgoes ⊢
          rcases hserve : s.serveSlot k i with ⟨goes, next⟩
          rw [hserve] at hgoes
          cases goes with
          | false => exact absurd hgoes Bool.false_ne_true
          | true =>
              have hnext := h.serve_slot hi hlt (by omega) hserve
              by_cases hlast : nready - 1 ≤ 0
              · simp only [hlast, if_true]
                exact hnext
              · simp only [hlast, if_false] at hgoes ⊢
                exact ih hnext hrest hgoes

/-- The slots of the scan are slots of the table. -/
theorem Invariant.slots_bound {s : Server} (h : Invariant listenfd s) :
    ∀ i ∈ s.slots, 1 ≤ i ∧ i < openMax := by
  intro i hi
  have hmem := List.mem_range'_1.mp hi
  have := h.maxi_lt
  omega

/-- A round that does not end the process keeps the table right. -/
theorem Invariant.iterate {s : Server} {k : Round} (h : Invariant listenfd s)
    (hfresh : Fresh listenfd s k) (hgoes : (s.iterate k).1 = true) :
    Invariant listenfd (s.iterate k).2 := by
  have hpoll := h.poll k.poll
  have hcalls : (s.poll k.poll).2.calls = s.calls := by
    cases k.poll <;> rfl
  unfold Server.iterate at hgoes ⊢
  generalize s.poll k.poll = polled at hpoll hcalls hgoes ⊢
  obtain ⟨nready, t⟩ := polled
  by_cases hlisten : (t.client 0).revents &&& pollin ≠ 0
  · simp only [hlisten, ne_eq, not_false_eq_true, if_true] at hgoes ⊢
    unfold Server.accept at hgoes ⊢
    cases haccept : k.accept with
    | none => simp [haccept] at hgoes
    | some connfd =>
        obtain ⟨hpos, -, hnew⟩ := hfresh connfd haccept
        simp only [haccept] at hgoes ⊢
        rcases hsave : (t.call (.accept (some connfd))).save connfd with ⟨saved, next⟩
        rw [hsave] at hgoes
        cases saved with
        | false => exact absurd hgoes Bool.false_ne_true
        | true =>
            have hnext := hpoll.save hpos (hcalls ▸ hnew) hsave
            by_cases hlast : nready - 1 = 0
            · simp only [hlast, if_true]
              exact hnext
            · simp only [hlast, if_false] at hgoes ⊢
              exact hnext.scan hnext.slots_bound hgoes
  · simp only [hlisten, if_false] at hgoes ⊢
    exact hpoll.scan hpoll.slots_bound hgoes

/-- The table is right at the top of the loop. -/
theorem reachable_inv {stale : Nat → Pollfd} {s : Server} (h : Reachable listenfd stale s) :
    Invariant listenfd s := by
  refine reachable_invariant (Invariant listenfd) (invariant_start stale) ?_ h
  intro s next hinv hstep
  cases hstep with
  | round k hfresh hgoes => exact hinv.iterate hfresh hgoes

/-- At the top of the loop slot 0 is the listening descriptor, the slots in use are the open
connections, each in exactly one slot, and the slots above `maxi` are unused; so `poll` is given
every open connection, and told to watch it. -/
theorem slot_table_invariant {stale : Nat → Pollfd} {s : Server}
    (h : Reachable listenfd stale s) :
    (s.client 0).fd = listenfd ∧
      (∀ fd ∈ connections s.calls, ∃! i, (1 ≤ i ∧ i < openMax) ∧ (s.client i).fd = fd) ∧
      (∀ i, 1 ≤ i → i < openMax → 0 ≤ (s.client i).fd →
        (s.client i).fd ∈ connections s.calls) ∧
      (∀ i, s.maxi < i → i < openMax → (s.client i).fd = -1) ∧
      ∀ fd ∈ connections s.calls, ∃ i ≤ s.maxi, (s.client i).fd = fd ∧
        (s.client i).events = pollin := by
  have hinv := reachable_inv h
  refine ⟨hinv.listening.1, ?_, fun i hi hlt hused => (hinv.held i hi hlt hused).1, hinv.unused, ?_⟩
  · intro fd hfd
    obtain ⟨hpos, i, hi, hle, heq⟩ := hinv.found fd hfd
    have hlt : i < openMax := Nat.lt_of_le_of_lt hle hinv.maxi_lt
    refine ⟨i, ⟨⟨hi, hlt⟩, heq⟩, ?_⟩
    intro j hj
    obtain ⟨⟨hj, hjlt⟩, hjeq⟩ := hj
    exact hinv.apart j i hj hjlt hi hlt (hjeq ▸ hpos) (hjeq.trans heq.symm)
  · intro fd hfd
    obtain ⟨hpos, i, hi, hle, heq⟩ := hinv.found fd hfd
    exact ⟨i, hle, heq, (hinv.held i hi (Nat.lt_of_le_of_lt hle hinv.maxi_lt) (heq ▸ hpos)).2⟩

/-- A round in which the listening descriptor is reported, and `Accept` returns 4. -/
def firstRound : Round where
  poll := .ready fun i => if i = 0 then pollin else 0
  accept := some 4
  read _ := .error .eof
  closeFails _ := false

/-- The server after that round, when its listening descriptor is 3. -/
def firstClient : Server :=
  ((Server.start 3 fun _ => ⟨0, 0, 0⟩).iterate firstRound).2

/-- That is a state at the top of the loop. -/
theorem first_client_reachable : Reachable 3 (fun _ => ⟨0, 0, 0⟩) firstClient := by
  refine .tail .refl (.round _ firstRound ?_ (by decide))
  intro connfd h
  obtain rfl := Option.some.inj h
  decide

/-- The first client has a slot of its own, which the next `poll` is given. -/
theorem slot_table_first_client :
    connections firstClient.calls = [4] ∧
      (∃! i, (1 ≤ i ∧ i < openMax) ∧ (firstClient.client i).fd = 4) ∧
      ∃ i ≤ firstClient.maxi, (firstClient.client i).fd = 4 ∧
        (firstClient.client i).events = pollin := by
  obtain ⟨-, hslot, -, -, hwatched⟩ := slot_table_invariant first_client_reachable
  exact ⟨by decide, hslot 4 (by decide), hwatched 4 (by decide)⟩

end UnixNet.PollDemo
