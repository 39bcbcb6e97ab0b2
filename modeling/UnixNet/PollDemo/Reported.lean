import Mathlib.Data.List.Nodup
import UnixNet.PollDemo.SlotTable

/-!
# What the poll server reads and accepts

A round should accept a connection, and read clients, for exactly the descriptors that its `poll`
reported. `Served` says so of the calls of one round. The loop body does not look at whether `poll`
failed, and a slot that `poll` was not given keeps what its `revents` held before; `Current` is the
condition under which neither matters, and `served_iff_current` shows that it is exact.
`scan_reads` is the lemma about the scan.
-/

namespace UnixNet.PollDemo

open NetLib

/-- The events that `poll` reports for a slot. -/
def PollReturn.events : PollReturn → Nat → Nat
  | .failed, _ => 0
  | .ready reported, i => reported i

/-- This `poll` reported POLLIN for the descriptor in a slot. -/
def Reported (s : Server) (k : Round) (i : Nat) : Prop :=
  i ≤ s.maxi ∧ 0 ≤ (s.client i).fd ∧ k.poll.events i &&& pollin ≠ 0

/-- The calls of one round serve what its `poll` reported: `Accept` only for the listening
descriptor, `Read` for no other client and for none twice, and for all of them if the process does
not end; and not for the connection accepted in the same round. -/
structure Served (s : Server) (k : Round) (goes : Bool) (calls : List (SocketCall Int)) : Prop where
  accepts : ∀ ret, .accept ret ∈ calls → Reported s k 0
  only : ∀ fd ∈ reads calls, ∃ i, 1 ≤ i ∧ Reported s k i ∧ (s.client i).fd = fd
  once : (reads calls).Nodup
  all : goes = true → ∀ i, 1 ≤ i → Reported s k i → (s.client i).fd ∈ reads calls
  later : ∀ connfd, .accept (some connfd) ∈ calls → connfd ∉ reads calls

/-- What is left over in `revents` does not matter in this round. If `poll` fails, no slot has
POLLIN left over. If it does not fail, it is not the case that a connection is requested, all slots
up to `maxi` are in use, the next slot has POLLIN left over, and some client has events without
POLLIN. -/
def Current (s : Server) (k : Round) : Prop :=
  match k.poll with
  | .failed => (s.client 0).revents &&& pollin = 0 ∧
      ∀ i, 1 ≤ i → i ≤ s.maxi → 0 ≤ (s.client i).fd → (s.client i).revents &&& pollin = 0
  | .ready reported => ¬ (Reported s k 0 ∧ (∀ i, 1 ≤ i → i ≤ s.maxi → 0 ≤ (s.client i).fd) ∧
      (s.client (s.maxi + 1)).revents &&& pollin ≠ 0 ∧
      ∃ i, 1 ≤ i ∧ i ≤ s.maxi ∧ reported i ≠ 0 ∧ reported i &&& pollin = 0)

/-- The calls made in one round. -/
def Server.newCalls (s : Server) (k : Round) : List (SocketCall Int) :=
  (s.iterate k).2.calls.drop s.calls.length

/-! ## The scan -/

/-- A slot that the scan reads when it comes to it. -/
def Server.due (s : Server) (i : Nat) : Bool :=
  0 ≤ (s.client i).fd ∧ (s.client i).revents &&& pollin ≠ 0

/-- A slot with any events. -/
def Server.active (s : Server) (i : Nat) : Bool :=
  (s.client i).revents ≠ 0

/-- A slot with events, but without POLLIN. -/
def Server.quiet (s : Server) (i : Nat) : Bool :=
  s.active i && !s.due i

/-- The descriptors of the slots that are due. -/
def Server.dueFds (s : Server) (slots : List Nat) : List Int :=
  (slots.filter s.due).map fun i => (s.client i).fd

/-- Serving a slot reads its descriptor, and leaves the other slots alone. -/
theorem Server.serve_slot_calls (s : Server) (k : Round) (i : Nat) :
    (∃ more, (s.serveSlot k i).2.calls = s.calls ++ .read (s.client i).fd :: more ∧
        reads more = [] ∧ ∀ c ∈ more, c.isAccept = false) ∧
      ∀ j, j ≠ i → (s.serveSlot k i).2.client j = s.client j := by
  have happend : ∀ c d : SocketCall Int, s.calls ++ [c] ++ [d] = s.calls ++ c :: [d] := by
    intro c d
    rw [List.append_assoc, List.singleton_append]
  rcases s.serve_slot_cases k i with ⟨data, hcase⟩ | hcase | hcase | hcase
  · rw [hcase]
    exact ⟨⟨[.write (s.client i).fd data], happend _ _, rfl, by simp [SocketCall.isAccept]⟩,
      fun _ _ => rfl⟩
  · rw [hcase]
    exact ⟨⟨[.close (s.client i).fd], happend _ _, rfl, by simp [SocketCall.isAccept]⟩,
      fun j hj => Server.set_of_ne _ _ hj⟩
  · rw [hcase]
    exact ⟨⟨[.close (s.client i).fd], happend _ _, rfl, by simp [SocketCall.isAccept]⟩,
      fun _ _ => rfl⟩
  · rw [hcase]
    exact ⟨⟨[], rfl, rfl, by simp⟩, fun _ _ => rfl⟩

/-- Slots that are not due do not matter. -/
theorem Server.due_fds_congr_due {s t : Server} {slots : List Nat}
    (hdue : ∀ i ∈ slots, t.due i = s.due i)
    (hfd : ∀ i ∈ slots, s.due i = true → (t.client i).fd = (s.client i).fd) :
    t.dueFds slots = s.dueFds slots := by
  rw [dueFds, dueFds, List.filter_congr hdue]
  refine List.map_congr_left fun i hi => ?_
  exact hfd i (List.mem_of_mem_filter hi) (List.of_mem_filter hi)

/-- What is due depends on the slots looked at only. -/
theorem Server.due_fds_congr {s t : Server} {slots : List Nat}
    (h : ∀ i ∈ slots, t.client i = s.client i) : t.dueFds slots = s.dueFds slots := by
  have hdue : ∀ i ∈ slots, t.due i = s.due i := by
    intro i hi
    rw [due, due, h i hi]
  exact due_fds_congr_due hdue fun i hi _ => by rw [h i hi]

/-- The scan passes over a slot that is not due. -/
theorem scan_of_not_due {k : Round} {s : Server} {i : Nat} {rest : List Nat} {nready : Int}
    (h : s.due i = false) : scan k (i :: rest) nready s = scan k rest nready s := by
  rw [scan]
  by_cases hfree : (s.client i).fd < 0
  · rw [if_pos hfree]
  · have hquiet : (s.client i).revents &&& pollin = 0 := by
      by_contra hne
      have hdue : s.due i = true := decide_eq_true ⟨by omega, hne⟩
      rw [h] at hdue
      cases hdue
    rw [if_neg hfree, if_pos hquiet]

/-- The scan serves a slot that is due, and goes on unless the process ends or the count is used
up. -/
theorem scan_of_due {k : Round} {s : Server} {i : Nat} {rest : List Nat} {nready : Int}
    (h : s.due i = true) :
    scan k (i :: rest) nready s =
      if (s.serveSlot k i).1 = true ∧ 0 < nready - 1 then
        scan k rest (nready - 1) (s.serveSlot k i).2
      else s.serveSlot k i := by
  obtain ⟨hused, hin⟩ := of_decide_eq_true h
  rw [scan, if_neg (by omega), if_neg hin]
  rcases s.serveSlot k i with ⟨goes, next⟩
  cases goes with
  | false => simp
  | true =>
      by_cases hlast : nready - 1 ≤ 0
      · rw [if_neg fun hmore => absurd hmore.2 (Int.not_lt.mpr hlast)]
        exact if_pos hlast
      · rw [if_pos ⟨rfl, by omega⟩]
        exact if_neg hlast

/-- The first of the slots is due, or it is not. -/
theorem Server.due_fds_cons (s : Server) (i : Nat) (rest : List Nat) :
    s.dueFds (i :: rest) =
      if s.due i = true then (s.client i).fd :: s.dueFds rest else s.dueFds rest := by
  cases hdue : s.due i <;> simp [dueFds, hdue]

/-- The scan reads the slots that are due, in their order, until it has read `nready` of them: when
the count is used up it stops, but not before its first read. -/
theorem scan_reads (k : Round) {slots : List Nat} (hslots : slots.Nodup) (nready : Int)
    (s : Server) :
    ∃ more, (scan k slots nready s).2.calls = s.calls ++ more ∧
      (∀ c ∈ more, c.isAccept = false) ∧
      reads more <+: (s.dueFds slots).take (max nready 1).toNat ∧
      ((scan k slots nready s).1 = true →
        reads more = (s.dueFds slots).take (max nready 1).toNat) := by
  induction slots generalizing s nready with
  | nil =>
      refine ⟨[], (List.append_nil _).symm, by simp, List.nil_prefix, ?_⟩
      intro _
      simp [Server.dueFds, reads]
  | cons i rest ih =>
      obtain ⟨hi, hrest⟩ := List.nodup_cons.mp hslots
      rw [s.due_fds_cons]
      cases hdue : s.due i with
      | false =>
          rw [scan_of_not_due hdue, if_neg Bool.false_ne_true]
          exact ih hrest nready s
      | true =>
          obtain ⟨⟨more, hcalls, hreads, haccept⟩, hothers⟩ := s.serve_slot_calls k i
          have hfirst : reads (.read (s.client i).fd :: more) = [(s.client i).fd] := by
            show (s.client i).fd :: reads more = _
            rw [hreads]
          have hno : ∀ c ∈ SocketCall.read (s.client i).fd :: more, c.isAccept = false := by
            simpa [SocketCall.isAccept] using haccept
          rw [scan_of_due hdue, if_pos rfl]
          by_cases hnext : (s.serveSlot k i).1 = true ∧ 0 < nready - 1
          · -- serving one slot leaves those behind it due or not
            have hkeep : (s.serveSlot k i).2.dueFds rest = s.dueFds rest := by
              refine Server.due_fds_congr fun j hj => hothers j ?_
              intro heq
              exact hi (heq ▸ hj)
            obtain ⟨later, hlcalls, hlno, hlprefix, hlall⟩ :=
              ih hrest (nready - 1) (s.serveSlot k i).2
            have hsucc : (max nready 1).toNat = (max (nready - 1) 1).toNat + 1 := by omega
            rw [hkeep] at hlprefix hlall
            rw [if_pos hnext, hsucc, List.take_succ_cons]
            refine ⟨.read (s.client i).fd :: more ++ later, ?_, ?_, ?_, ?_⟩
            · rw [hlcalls, hcalls, List.append_assoc]
            · intro c hc
              exact (List.mem_append.mp hc).elim (hno c) (hlno c)
            · rw [reads_append, hfirst, List.singleton_append]
              exact (List.prefix_cons_inj _).mpr hlprefix
            · intro h
              rw [reads_append, hfirst, List.singleton_append, hlall h]
          · rw [if_neg hnext]
            -- the scan ends here, with one connection read
            obtain ⟨n, hn⟩ : ∃ n, (max nready 1).toNat = n + 1 :=
              ⟨(max nready 1).toNat - 1, by omega⟩
            rw [hn, List.take_succ_cons]
            refine ⟨_, hcalls, hno, ?_, ?_⟩
            · rw [hfirst]
              exact List.prefix_append [(s.client i).fd] _
            · intro h
              have hlast : n = 0 := by
                have : ¬ 0 < nready - 1 := fun hpos => hnext ⟨h, hpos⟩
                omega
              rw [hfirst, hlast, List.take_zero]

/-! ## Counting -/

/-- A slot without events is not due. -/
theorem Server.active_of_due {s : Server} {i : Nat} (h : s.due i = true) : s.active i = true := by
  obtain ⟨-, hin⟩ := of_decide_eq_true h
  refine decide_eq_true ?_
  intro hzero
  rw [hzero] at hin
  exact hin rfl

/-- The slots with events are those that are due and those without POLLIN. -/
theorem Server.count_active (s : Server) (slots : List Nat) :
    slots.countP s.active = (s.dueFds slots).length + slots.countP s.quiet := by
  have hdue : slots.countP (fun i => s.active i && s.due i) = slots.countP s.due := by
    refine List.countP_congr fun i _ => ?_
    simpa using active_of_due
  rw [List.countP_eq_countP_filter_add slots s.active s.due, List.countP_filter,
    List.countP_filter, hdue, dueFds, List.length_map, ← List.countP_eq_length_filter]
  rfl

/-- Nothing is due when no slot in use has POLLIN. -/
theorem Server.due_fds_eq_nil_iff {s : Server} :
    s.dueFds s.slots = [] ↔
      ∀ i, 1 ≤ i → i ≤ s.maxi → 0 ≤ (s.client i).fd → (s.client i).revents &&& pollin = 0 := by
  rw [dueFds, List.map_eq_nil_iff, List.filter_eq_nil_iff]
  constructor
  · intro h i hi hle hused
    by_contra hin
    exact h i (List.mem_range'_1.mpr ⟨hi, by omega⟩) (decide_eq_true ⟨hused, hin⟩)
  · intro h i hi hdue
    obtain ⟨hused, hin⟩ := of_decide_eq_true hdue
    have := List.mem_range'_1.mp hi
    exact hin (h i (by omega) (by omega) hused)

/-! ## One round -/

/-- The server after a `poll` that did not fail. -/
def Server.afterPoll (s : Server) (reported : Nat → Nat) : Server :=
  { s with client := s.polled reported }

/-- `poll` does not change a descriptor. -/
theorem after_poll_fd (s : Server) (reported : Nat → Nat) (i : Nat) :
    ((s.afterPoll reported).client i).fd = (s.client i).fd :=
  (s.polled_fd reported i).1

/-- After such a `poll` the slots that are due are those it reported. -/
theorem due_after_poll_iff {s : Server} {k : Round} {reported : Nat → Nat} {i : Nat}
    (hk : k.poll = .ready reported) (hi : i ≤ s.maxi) :
    (s.afterPoll reported).due i = true ↔ Reported s k i := by
  have hslot : (s.afterPoll reported).client i =
      { s.client i with revents := if (s.client i).fd < 0 then 0 else reported i } := if_pos hi
  rw [Server.due, hslot, Reported, hk, decide_eq_true_iff]
  by_cases hfree : (s.client i).fd < 0
  · have hnot : ¬ 0 ≤ (s.client i).fd := by omega
    simp [hnot]
  · simp [hfree, hi, PollReturn.events]

/-- After such a `poll` an unused slot that it was given has no events. -/
theorem revents_after_poll {s : Server} {reported : Nat → Nat} {i : Nat} (hi : i ≤ s.maxi)
    (hfree : (s.client i).fd < 0) : ((s.afterPoll reported).client i).revents = 0 := by
  have hslot : (s.afterPoll reported).client i =
      { s.client i with revents := if (s.client i).fd < 0 then 0 else reported i } := if_pos hi
  rw [hslot, if_pos hfree]

/-- Calls that read a part of what is due, and all of it unless the process ends, serve what was
reported. -/
theorem Invariant.served {s : Server} {k : Round} {reported : Nat → Nat} {goes : Bool}
    {calls : List (SocketCall Int)} (h : Invariant listenfd s) (hfresh : Fresh listenfd s k)
    (hk : k.poll = .ready reported)
    (haccept : ∀ ret, .accept ret ∈ calls → ret = k.accept ∧ Reported s k 0)
    (hreads : reads calls <+: (s.afterPoll reported).dueFds s.slots)
    (hall : goes = true → reads calls = (s.afterPoll reported).dueFds s.slots) :
    Served s k goes calls := by
  have hslots : ∀ i ∈ s.slots, 1 ≤ i ∧ i ≤ s.maxi := by
    intro i hi
    have := List.mem_range'_1.mp hi
    omega
  have hfd := after_poll_fd s reported
  have hdue : ∀ fd, fd ∈ (s.afterPoll reported).dueFds s.slots ↔
      ∃ i, 1 ≤ i ∧ Reported s k i ∧ (s.client i).fd = fd := by
    intro fd
    simp only [Server.dueFds, List.mem_map, List.mem_filter, hfd]
    constructor
    · intro hmem
      obtain ⟨i, ⟨hi, hdue⟩, heq⟩ := hmem
      exact ⟨i, (hslots i hi).1, (due_after_poll_iff hk (hslots i hi).2).mp hdue, heq⟩
    · intro hmem
      obtain ⟨i, hi, hrep, heq⟩ := hmem
      refine ⟨i, ⟨List.mem_range'_1.mpr ⟨hi, ?_⟩, (due_after_poll_iff hk hrep.1).mpr hrep⟩, heq⟩
      have := hrep.1
      omega
  have honly : ∀ fd ∈ reads calls, ∃ i, 1 ≤ i ∧ Reported s k i ∧ (s.client i).fd = fd :=
    fun fd hmem => (hdue fd).mp (hreads.subset hmem)
  refine ⟨fun ret hret => (haccept ret hret).2, honly, ?_, ?_, ?_⟩
  · -- slots with the same descriptor are the same
    refine hreads.sublist.nodup (List.Nodup.map_on ?_ (List.Nodup.filter _ List.nodup_range'))
    intro i hi j hj heq
    obtain ⟨hi, hidue⟩ := List.mem_filter.mp hi
    have hj := (List.mem_filter.mp hj).1
    rw [hfd, hfd] at heq
    have hused := ((due_after_poll_iff hk (hslots i hi).2).mp hidue).2.1
    exact h.apart i j (h.slots_bound i hi).1 (h.slots_bound i hi).2 (h.slots_bound j hj).1
      (h.slots_bound j hj).2 hused heq
  · intro hgoes i hi hrep
    rw [hall hgoes]
    exact (hdue _).mpr ⟨i, hi, hrep, rfl⟩
  · -- a descriptor that `Accept` returns was not in the table
    intro connfd hmem hread
    obtain ⟨-, -, hnew⟩ := hfresh connfd (haccept _ hmem).1.symm
    obtain ⟨i, hi, hrep, heq⟩ := honly connfd hread
    have hlt : i < openMax := Nat.lt_of_le_of_lt hrep.1 h.maxi_lt
    exact hnew (heq ▸ (h.held i hi hlt hrep.2.1).1)

section Saved

variable {s next : Server} {slot : Nat} {connfd : Int}
  (hslot : next.client slot = ⟨connfd, pollin, (s.client slot).revents⟩)
  (hother : ∀ i, i ≠ slot → next.client i = s.client i)

include hslot hother

/-- A connection in a slot that `poll` was given, and that has no events, is not due. -/
theorem Server.due_fds_save_old (hmaxi : next.maxi = s.maxi)
    (hzero : (s.client slot).revents = 0) : next.dueFds next.slots = s.dueFds s.slots := by
  have hnotdue : s.due slot = false ∧ next.due slot = false := by
    simp [Server.due, hslot, hzero]
  have hdue : ∀ i ∈ s.slots, next.due i = s.due i := by
    intro i _
    by_cases heq : i = slot
    · rw [heq, hnotdue.1, hnotdue.2]
    · rw [Server.due, Server.due, hother i heq]
  have hslots : next.slots = s.slots := by
    rw [Server.slots, Server.slots, hmaxi]
  rw [hslots]
  refine Server.due_fds_congr_due hdue fun i _ hidue => ?_
  rw [hother i]
  intro heq
  rw [heq, hnotdue.1] at hidue
  cases hidue

/-- A connection in the first slot that `poll` was not given is due if POLLIN is left over there. -/
theorem Server.due_fds_save_new (hpos : 0 ≤ connfd) (hmaxi : next.maxi = s.maxi + 1)
    (hnext : slot = s.maxi + 1) :
    next.dueFds next.slots =
      s.dueFds s.slots ++ if (s.client slot).revents &&& pollin = 0 then [] else [connfd] := by
  have hslots : next.slots = s.slots ++ [slot] := by
    rw [Server.slots, Server.slots, hmaxi, hnext, List.range'_concat]
    congr 2
    omega
  have hsame : next.dueFds s.slots = s.dueFds s.slots := by
    refine Server.due_fds_congr fun i hi => hother i ?_
    have := List.mem_range'_1.mp hi
    omega
  have hlast : next.dueFds [slot] =
      if (s.client slot).revents &&& pollin = 0 then [] else [connfd] := by
    rw [Server.due_fds_cons, Server.due, hslot]
    by_cases hquiet : (s.client slot).revents &&& pollin = 0
    · simp [hquiet, Server.dueFds]
    · simp [hquiet, hpos, Server.dueFds]
  rw [hslots, Server.dueFds, List.filter_append, List.map_append]
  show next.dueFds s.slots ++ next.dueFds [slot] = _
  rw [hsame, hlast]

end Saved

/-- What is due once a new connection is saved: what was due before. If no slot up to `maxi` was
unused and the next one has POLLIN left over, the new connection is due, too. -/
theorem Invariant.due_fds_save {s next : Server} {connfd : Int} (h : Invariant listenfd s)
    (hpos : 0 ≤ connfd) (hsave : (s.call (.accept (some connfd))).save connfd = (true, next)) :
    (∃ i, 1 ≤ i ∧ i ≤ s.maxi ∧ (s.client i).fd < 0 ∧
        ((s.client i).revents = 0 → next.dueFds next.slots = s.dueFds s.slots)) ∨
      (∀ i, 1 ≤ i → i ≤ s.maxi → 0 ≤ (s.client i).fd) ∧
        next.dueFds next.slots = s.dueFds s.slots ++
          if (s.client (s.maxi + 1)).revents &&& pollin = 0 then [] else [connfd] := by
  obtain ⟨slot, ⟨hlow, hlt⟩, hfree, hbelow, hslot, hother, hmaxi, -⟩ :=
    Server.accept_save_spec hsave
  by_cases hle : slot ≤ s.maxi
  · -- `poll` was given the slot
    left
    rw [if_neg (by omega)] at hmaxi
    exact ⟨slot, hlow, hle, hfree, Server.due_fds_save_old hslot hother hmaxi⟩
  · -- the slot is new to `poll`, and all before it are in use
    right
    have hnext : slot = s.maxi + 1 := by
      by_contra hne
      have hused := hbelow (s.maxi + 1) (by omega) (by omega)
      rw [h.unused (s.maxi + 1) (by omega) (by omega)] at hused
      exact absurd hused (by decide)
    rw [if_pos (by omega), hnext] at hmaxi
    refine ⟨fun i hi hile => hbelow i hi (by omega), ?_⟩
    rw [← hnext]
    exact Server.due_fds_save_new hslot hother hpos hmaxi hnext

/-- The branch for a connection request calls `Accept` first. Then it reads nothing, because the
process ends or no more events are expected, or it scans the table with the new connection. -/
theorem Server.accept_reads (s : Server) (k : Round) (nready : Int) :
    ∃ more, (s.accept k nready).2.calls = s.calls ++ .accept k.accept :: more ∧
      (∀ c ∈ more, c.isAccept = false) ∧
      ((reads more = [] ∧ ((s.accept k nready).1 = false ∨ nready = 1)) ∨
        ∃ connfd next, k.accept = some connfd ∧
          (s.call (.accept (some connfd))).save connfd = (true, next) ∧ nready ≠ 1 ∧
          reads more <+: (next.dueFds next.slots).take (max (nready - 1) 1).toNat ∧
          ((s.accept k nready).1 = true →
            reads more = (next.dueFds next.slots).take (max (nready - 1) 1).toNat)) := by
  unfold accept
  cases haccept : k.accept with
  | none => exact ⟨[], rfl, by simp, .inl ⟨rfl, .inl rfl⟩⟩
  | some connfd =>
      rcases hsave : (s.call (.accept (some connfd))).save connfd with ⟨saved, next⟩
      cases saved with
      | false =>
          have hcalls : next.calls = s.calls ++ [.accept (some connfd)] := by
            unfold save at hsave
            by_cases hfull : (s.call (.accept (some connfd))).freeSlot = openMax
            · rw [if_pos hfull] at hsave
              rw [← (Prod.mk.inj hsave).2]
              rfl
            · rw [if_neg hfull] at hsave
              exact absurd (Prod.mk.inj hsave).1 Bool.noConfusion
          simp only [hsave]
          exact ⟨[], hcalls, by simp, .inl ⟨rfl, .inl trivial⟩⟩
      | true =>
          obtain ⟨-, -, -, -, -, -, -, hcalls⟩ := Server.accept_save_spec hsave
          by_cases hlast : nready - 1 = 0
          · simp only [hsave, hlast, if_true]
            exact ⟨[], hcalls, by simp, .inl ⟨rfl, .inr (by omega)⟩⟩
          · obtain ⟨more, hmore, hno, hprefix, hall⟩ :=
              scan_reads k List.nodup_range' (nready - 1) next
            simp only [hsave, hlast, if_false]
            refine ⟨more, ?_, hno, .inr ⟨connfd, next, rfl, hsave, by omega, hprefix, hall⟩⟩
            rw [Server.slots, hmore, hcalls, List.append_assoc, List.singleton_append]

/-- When nothing was reported, calls that neither accept nor read serve what was reported. -/
theorem served_of_silent {s : Server} {k : Round} {goes : Bool} {calls : List (SocketCall Int)}
    (hnone : ∀ i, ¬ Reported s k i) (haccept : ∀ ret, .accept ret ∉ calls)
    (hreads : reads calls = []) : Served s k goes calls := by
  refine ⟨fun ret hret => absurd hret (haccept ret), ?_, ?_, ?_, ?_⟩
  · rw [hreads]
    intro fd hfd
    cases hfd
  · rw [hreads]
    exact List.nodup_nil
  · intro _ i _ hrep
    exact absurd hrep (hnone i)
  · intro connfd hmem
    exact absurd hmem (haccept _)

/-- A round in which `poll` failed. Nothing was reported, so nothing may be accepted or read. -/
theorem served_failed_iff {s : Server} {k : Round} (hk : k.poll = .failed) :
    (Current s k → Served s k (s.iterate k).1 (s.newCalls k)) ∧
      ((s.iterate k).1 = true → Served s k true (s.newCalls k) → Current s k) := by
  have hnone : ∀ i, ¬ Reported s k i := by
    intro i hrep
    rw [Reported, hk] at hrep
    exact hrep.2.2 (Nat.zero_and pollin)
  have hcurrent : Current s k ↔ (s.client 0).revents &&& pollin = 0 ∧
      ∀ i, 1 ≤ i → i ≤ s.maxi → 0 ≤ (s.client i).fd → (s.client i).revents &&& pollin = 0 := by
    rw [Current, hk]
  by_cases hlisten : (s.client 0).revents &&& pollin = 0
  · have hiterate : s.iterate k = scan k s.slots (-1) s := by
      rw [Server.iterate, hk]
      exact if_neg (not_not.mpr hlisten)
    obtain ⟨more, hcalls, hno, hprefix, hall⟩ :=
      scan_reads k (show s.slots.Nodup from List.nodup_range') (-1) s
    have hnew : s.newCalls k = more := by
      rw [Server.newCalls, hiterate, hcalls, List.drop_left]
    rw [hnew, hcurrent, hiterate]
    have hnoaccept : ∀ ret, .accept ret ∉ more := by
      intro ret hret
      exact absurd (hno _ hret) Bool.noConfusion
    constructor
    · -- nothing is due, so the scan reads nothing
      intro h
      rw [Server.due_fds_eq_nil_iff.mpr h.2, List.take_nil] at hprefix
      exact served_of_silent hnone hnoaccept (List.prefix_nil.mp hprefix)
    · intro hgoes hserved
      refine ⟨hlisten, Server.due_fds_eq_nil_iff.mp ?_⟩
      -- whatever is due is read, and `only` says that it was reported
      by_contra hdue
      obtain ⟨fd, rest, hfds⟩ := List.exists_cons_of_ne_nil hdue
      obtain ⟨j, -, hrep, -⟩ := hserved.only fd (by rw [hall hgoes, hfds]; exact List.mem_cons_self)
      exact hnone j hrep
  · -- POLLIN is left over in slot 0, and `Accept` is called
    have hiterate : s.iterate k = s.accept k (-1) := by
      rw [Server.iterate, hk]
      exact if_pos hlisten
    obtain ⟨more, hcalls, -, -⟩ := s.accept_reads k (-1)
    have hnew : s.newCalls k = .accept k.accept :: more := by
      rw [Server.newCalls, hiterate, hcalls, List.drop_left]
    rw [hnew, hcurrent]
    constructor
    · intro h
      exact absurd h.1 hlisten
    · intro _ hserved
      exact absurd (hserved.accepts _ List.mem_cons_self) (hnone 0)

/-- How many slots `poll` reported: slot 0, if it has events, those that are due, and those without
POLLIN. -/
theorem poll_ready_count (s : Server) (reported : Nat → Nat) :
    (s.poll (.ready reported)).1 =
      (if (s.afterPoll reported).active 0 then 1 else 0) +
        (((s.afterPoll reported).dueFds s.slots).length +
          s.slots.countP (s.afterPoll reported).quiet : Nat) := by
  show (((List.range (s.maxi + 1)).countP (s.afterPoll reported).active : Nat) : Int) = _
  rw [List.range_eq_range', List.range'_succ, List.countP_cons, Int.natCast_add, Int.add_comm]
  show _ + ((s.slots.countP (s.afterPoll reported).active : Nat) : Int) = _
  rw [Server.count_active]
  split <;> rfl

/-- After such a `poll` the listening descriptor has POLLIN exactly if it was reported. -/
theorem listening_reported_iff {s : Server} {k : Round} {reported : Nat → Nat}
    (hk : k.poll = .ready reported) :
    ((s.afterPoll reported).client 0).revents &&& pollin ≠ 0 ↔ Reported s k 0 := by
  rw [← due_after_poll_iff hk (Nat.zero_le _), Server.due, decide_eq_true_iff]
  refine ⟨fun hin => ⟨?_, hin⟩, fun hdue => hdue.2⟩
  by_contra hneg
  rw [after_poll_fd] at hneg
  rw [revents_after_poll (Nat.zero_le s.maxi) (by omega)] at hin
  exact hin (Nat.zero_and pollin)

/-- The clients with events that `poll` reports without POLLIN, when all slots are in use. -/
theorem quiet_count_pos_iff {s : Server} {k : Round} {reported : Nat → Nat}
    (hk : k.poll = .ready reported) (hused : ∀ i, 1 ≤ i → i ≤ s.maxi → 0 ≤ (s.client i).fd) :
    0 < s.slots.countP (s.afterPoll reported).quiet ↔
      ∃ i, 1 ≤ i ∧ i ≤ s.maxi ∧ reported i ≠ 0 ∧ reported i &&& pollin = 0 := by
  have hslot : ∀ i, 1 ≤ i → i ≤ s.maxi →
      ((s.afterPoll reported).quiet i = true ↔
        reported i ≠ 0 ∧ reported i &&& pollin = 0) := by
    intro i hi hle
    have hclient : ((s.afterPoll reported).client i).revents = reported i := by
      have hpolled : (s.afterPoll reported).client i =
          { s.client i with revents := if (s.client i).fd < 0 then 0 else reported i } :=
        if_pos hle
      rw [hpolled, if_neg (by have := hused i hi hle; omega)]
    have hdue := due_after_poll_iff (k := k) hk hle
    rw [Server.quiet, Bool.and_eq_true, Bool.not_eq_true', ← Bool.not_eq_true, hdue, Reported, hk,
      Server.active, decide_eq_true_iff, hclient]
    simp [hle, hused i hi hle, PollReturn.events]
  rw [List.countP_pos_iff]
  constructor
  · intro hmem
    obtain ⟨i, hi, hquiet⟩ := hmem
    have := List.mem_range'_1.mp hi
    exact ⟨i, by omega, by omega, (hslot i (by omega) (by omega)).mp hquiet⟩
  · intro hmem
    obtain ⟨i, hi, hle, hquiet⟩ := hmem
    exact ⟨i, List.mem_range'_1.mpr ⟨hi, by omega⟩, (hslot i hi hle).mpr hquiet⟩

/-- A round in which `poll` did not report the listening descriptor: the scan reads all that it did
report. -/
theorem served_clients {s : Server} {k : Round} {reported : Nat → Nat}
    (h : Invariant listenfd s) (hfresh : Fresh listenfd s k) (hk : k.poll = .ready reported)
    (hlisten : ¬ Reported s k 0) : Current s k ∧ Served s k (s.iterate k).1 (s.newCalls k) := by
  have hcount := poll_ready_count s reported
  have hiterate : s.iterate k =
      scan k s.slots (s.poll (.ready reported)).1 (s.afterPoll reported) := by
    rw [Server.iterate, hk]
    exact if_neg fun hin => hlisten ((listening_reported_iff hk).mp hin)
  obtain ⟨more, hcalls, hno, hprefix, hall⟩ :=
    scan_reads k (show s.slots.Nodup from List.nodup_range') (s.poll (.ready reported)).1
      (s.afterPoll reported)
  have hnew : s.newCalls k = more := by
    rw [Server.newCalls, hiterate, hcalls]
    exact List.drop_left
  rw [List.take_of_length_le (by rw [hcount]; split <;> omega)] at hprefix hall
  rw [hnew, hiterate]
  constructor
  · rw [Current, hk]
    intro hcur
    exact hlisten hcur.1
  · refine h.served hfresh hk ?_ hprefix hall
    intro ret hret
    exact absurd (hno _ hret) Bool.noConfusion

/-- What is due once the connection that was requested is saved. The new connection is due if no
slot that `poll` was given was unused and the next one has POLLIN left over. -/
theorem Invariant.due_fds_accept {s next : Server} {reported : Nat → Nat} {connfd : Int}
    (h : Invariant listenfd s) (hpos : 0 ≤ connfd)
    (hsave : ((s.afterPoll reported).call (.accept (some connfd))).save connfd = (true, next)) :
    let stale := (∀ i, 1 ≤ i → i ≤ s.maxi → 0 ≤ (s.client i).fd) ∧
      (s.client (s.maxi + 1)).revents &&& pollin ≠ 0
    ¬ stale ∧ next.dueFds next.slots = (s.afterPoll reported).dueFds s.slots ∨
      stale ∧ next.dueFds next.slots = (s.afterPoll reported).dueFds s.slots ++ [connfd] := by
  have hinv : Invariant listenfd (s.afterPoll reported) := h.poll (.ready reported)
  have hslots : (s.afterPoll reported).slots = s.slots := rfl
  have hmaxi : (s.afterPoll reported).maxi = s.maxi := rfl
  rcases hinv.due_fds_save hpos hsave with ⟨i, hi, hle, hfree, hsame⟩ | ⟨hused, hdue⟩
  · -- the new connection is in a slot that `poll` was given
    rw [after_poll_fd] at hfree
    rw [hslots] at hsame
    refine .inl ⟨fun hstale => ?_, hsame (revents_after_poll hle hfree)⟩
    have := hstale.1 i hi hle
    omega
  · -- the new connection is in the first slot that `poll` was not given
    have hused : ∀ i, 1 ≤ i → i ≤ s.maxi → 0 ≤ (s.client i).fd := by
      intro i hi hle
      rw [← after_poll_fd s reported]
      exact hused i hi hle
    have hnext : (s.afterPoll reported).client (s.maxi + 1) = s.client (s.maxi + 1) :=
      if_neg (Nat.not_succ_le_self s.maxi)
    rw [hslots, hmaxi, hnext] at hdue
    by_cases hleft : (s.client (s.maxi + 1)).revents &&& pollin = 0
    · rw [if_pos hleft, List.append_nil] at hdue
      exact .inl ⟨fun hstale => hstale.2 hleft, hdue⟩
    · rw [if_neg hleft] at hdue
      exact .inr ⟨⟨hused, hleft⟩, hdue⟩

/-- What `Current` says when `poll` reported the listening descriptor. -/
theorem current_listening_iff {s : Server} {k : Round} {reported : Nat → Nat}
    (hk : k.poll = .ready reported) (hlisten : Reported s k 0) :
    Current s k ↔
      ¬ ((∀ i, 1 ≤ i → i ≤ s.maxi → 0 ≤ (s.client i).fd) ∧
        (s.client (s.maxi + 1)).revents &&& pollin ≠ 0 ∧
        ∃ i, 1 ≤ i ∧ i ≤ s.maxi ∧ reported i ≠ 0 ∧ reported i &&& pollin = 0) := by
  rw [Current, hk]
  simp only [hlisten, true_and]

/-- The calls of a round that calls `Accept` when the listening descriptor was reported, and then
reads a part of what is due, serve what was reported. -/
theorem Invariant.served_after_accept {s : Server} {k : Round} {reported : Nat → Nat}
    {more : List (SocketCall Int)} {goes : Bool} (h : Invariant listenfd s)
    (hfresh : Fresh listenfd s k) (hk : k.poll = .ready reported) (hlisten : Reported s k 0)
    (hno : ∀ c ∈ more, c.isAccept = false)
    (hreads : reads more <+: (s.afterPoll reported).dueFds s.slots)
    (hall : goes = true → reads more = (s.afterPoll reported).dueFds s.slots) :
    Served s k goes (.accept k.accept :: more) := by
  have haccept : ∀ ret, .accept ret ∈ SocketCall.accept k.accept :: more →
      ret = k.accept ∧ Reported s k 0 := by
    intro ret hret
    rcases List.mem_cons.mp hret with heq | hret
    · exact ⟨SocketCall.accept.inj heq, hlisten⟩
    · exact absurd (hno _ hret) Bool.noConfusion
  exact h.served hfresh hk haccept hreads hall

/-- A round in which `poll` reported the listening descriptor. The connection accepted is read, too,
exactly if its slot is new to `poll` with POLLIN left over, and the count does not stop the scan
before it. -/
theorem served_listening {s : Server} {k : Round} {reported : Nat → Nat}
    (h : Invariant listenfd s) (hfresh : Fresh listenfd s k) (hk : k.poll = .ready reported)
    (hlisten : Reported s k 0) :
    (Current s k → Served s k (s.iterate k).1 (s.newCalls k)) ∧
      ((s.iterate k).1 = true → Served s k true (s.newCalls k) → Current s k) := by
  have hcount := poll_ready_count s reported
  rw [Server.active_of_due ((due_after_poll_iff hk (Nat.zero_le _)).mpr hlisten), if_pos rfl]
    at hcount
  have hiterate : s.iterate k = (s.afterPoll reported).accept k (s.poll (.ready reported)).1 := by
    rw [Server.iterate, hk]
    exact if_pos ((listening_reported_iff hk).mpr hlisten)
  obtain ⟨more, hcalls, hno, hcases⟩ :=
    (s.afterPoll reported).accept_reads k (s.poll (.ready reported)).1
  have hnew : s.newCalls k = .accept k.accept :: more := by
    rw [Server.newCalls, hiterate, hcalls]
    exact List.drop_left
  have hcurrent := current_listening_iff hk hlisten
  have hserved : ∀ goes, reads more <+: (s.afterPoll reported).dueFds s.slots →
      (goes = true → reads more = (s.afterPoll reported).dueFds s.slots) →
      Served s k goes (.accept k.accept :: more) :=
    fun _ hprefix hall => h.served_after_accept hfresh hk hlisten hno hprefix hall
  rw [hnew, hiterate]
  rcases hcases with ⟨hnil, hstop⟩ | ⟨connfd, next, hconnfd, hsave, hmore, hprefix, hall⟩
  · rcases hstop with hstop | hone
    · -- the process ended
      rw [hstop]
      exact ⟨fun _ => hserved false (hnil ▸ List.nil_prefix) (by simp), by simp⟩
    · -- nothing but the listening descriptor had events
      have hfds : (s.afterPoll reported).dueFds s.slots = [] :=
        List.eq_nil_of_length_eq_zero (by omega)
      refine ⟨fun _ => hserved _ (hnil ▸ List.nil_prefix) fun _ => hnil.trans hfds.symm, ?_⟩
      intro _ _
      rw [hcurrent]
      intro hcur
      have hpos := (quiet_count_pos_iff hk hcur.1).mpr hcur.2.2
      omega
  · rcases h.due_fds_accept (hfresh connfd hconnfd).1 hsave with
      ⟨hnot, hdue⟩ | ⟨⟨hused, hleft⟩, hdue⟩
    · -- what is due was reported
      rw [hdue, List.take_of_length_le (by omega)] at hprefix hall
      refine ⟨fun _ => hserved _ hprefix hall, fun _ _ => hcurrent.mpr ?_⟩
      exact fun hcur => hnot ⟨hcur.1, hcur.2.1⟩
    · rw [hcurrent]
      by_cases hquiet : s.slots.countP (s.afterPoll reported).quiet = 0
      · -- every client reported has POLLIN: the count stops the scan in time
        rw [hdue, List.take_left' (by omega)] at hprefix hall
        refine ⟨fun _ => hserved _ hprefix hall, fun _ _ hcur => ?_⟩
        have := (quiet_count_pos_iff hk hused).mpr hcur.2.2
        omega
      · -- the count does not stop the scan before the new connection
        have hcur := (quiet_count_pos_iff hk hused).mp (Nat.pos_of_ne_zero hquiet)
        refine ⟨fun hnot => absurd ⟨hused, hleft, hcur⟩ hnot, ?_⟩
        intro hgoes hserves
        have hread : connfd ∈ reads more := by
          rw [hall hgoes, hdue, List.take_of_length_le (by simp; omega)]
          exact List.mem_append_right _ List.mem_cons_self
        exact absurd hread (hserves.later connfd (hconnfd ▸ List.mem_cons_self))

/-- In every round from the top of the loop that does not end the process, the calls serve what was
reported exactly if nothing left over in `revents` matters; and if nothing does, they also do when
the process ends. -/
theorem served_iff_current {stale : Nat → Pollfd} {s : Server} {k : Round}
    (h : Reachable listenfd stale s) (hfresh : Fresh listenfd s k) :
    ((s.iterate k).1 = true → (Served s k true (s.newCalls k) ↔ Current s k)) ∧
      (Current s k → Served s k (s.iterate k).1 (s.newCalls k)) := by
  have hboth : (Current s k → Served s k (s.iterate k).1 (s.newCalls k)) ∧
      ((s.iterate k).1 = true → Served s k true (s.newCalls k) → Current s k) := by
    cases hk : k.poll with
    | failed => exact served_failed_iff hk
    | ready reported =>
        by_cases hlisten : Reported s k 0
        · exact served_listening (reachable_inv h) hfresh hk hlisten
        · obtain ⟨hcurrent, hserved⟩ := served_clients (reachable_inv h) hfresh hk hlisten
          exact ⟨fun _ => hserved, fun _ _ => hcurrent⟩
  obtain ⟨henough, hneeded⟩ := hboth
  refine ⟨fun hgoes => ⟨hneeded hgoes, ?_⟩, henough⟩
  intro hcurrent
  rw [← hgoes]
  exact henough hcurrent

/-- A round in which the first client is reported with a byte. -/
def clientRound : Round where
  poll := .ready fun i => if i = 1 then pollin else 0
  accept := none
  read _ := .ok ⟨[104], by decide, by decide⟩
  closeFails _ := false

/-- In that round the descriptor of the first client is read, and nothing is accepted. -/
theorem client_round_served :
    firstClient.newCalls clientRound = [.read 4, .write 4 [72]] ∧ Current firstClient clientRound ∧
      Served firstClient clientRound true (firstClient.newCalls clientRound) := by
  have hcurrent : Current firstClient clientRound := by
    rintro ⟨hlisten, -⟩
    exact hlisten.2.2 (by decide)
  have hfresh : Fresh 3 firstClient clientRound := fun connfd h => by cases h
  exact ⟨by decide, hcurrent,
    ((served_iff_current first_client_reachable hfresh).1 (by decide)).mpr hcurrent⟩

/-- A round in which `poll` is interrupted; `Accept`, if it is called, returns 5. -/
def interruptedRound : Round :=
  { firstRound with poll := .failed, accept := some 5 }

/-- After the first client, `Accept` is called although `poll` failed. -/
theorem accept_after_interrupted_poll :
    Reachable 3 (fun _ => ⟨0, 0, 0⟩) firstClient ∧ Fresh 3 firstClient interruptedRound ∧
      ¬ Served firstClient interruptedRound (firstClient.iterate interruptedRound).1
        (firstClient.newCalls interruptedRound) := by
  refine ⟨first_client_reachable, ?_, ?_⟩
  · intro connfd h
    obtain rfl := Option.some.inj h
    decide
  · intro h
    exact (h.accepts (some 5) (by decide)).2.2 rfl

end UnixNet.PollDemo
