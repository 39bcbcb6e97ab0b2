import Mathlib.Data.Finset.Card
import Mathlib.Data.List.Nodup
import UnixNet.Lib.Execution
import UnixNet.Lib.Sockets
import UnixNet.Lib.Source

/-!
# The select servers

`selectFun.c` and `selectFunTeacher.c` have one and the same loop, up to names and printed texts:
`oldSet` holds the descriptors to be watched, and every round works on the copy `rest` of it that
`select` has cut down to the readable ones. `Server.iterate` is the loop body, and
`select_bookkeeping` the result: the set is right at the top of the loop, and a round reads the
clients that `select` reported, once each, and no other descriptor.
-/

namespace UnixNet.TcpServerDemo

open NetLib

/-- `FD_SETSIZE` -/
def fdSetsize : Nat := 1024

/-- The variables of `main` that live from one round to the next, and the calls made so far. -/
structure Server where
  oldSet : Finset Nat
  maxFd : Nat
  calls : List (SocketCall Nat)

/-- The server before its first `select`. -/
def Server.start (lfd : Nat) : Server where
  oldSet := {lfd}
  maxFd := lfd
  calls := []

/-- What `select` returns: -1, or the descriptors that are readable. -/
inductive SelectReturn where
  | failed
  | ready (readable : Finset Nat)

/-- What the system calls of one round return. `accept` is `none` when `Accept` gives up; `Read` has
repeated what failed with EINTR. -/
structure Round where
  select : SelectReturn
  accept : Option Nat
  read : Nat → Except Ending (Chunk UInt8 1500)

/-- One more call. -/
def Server.call (s : Server) (c : SocketCall Nat) : Server :=
  { s with calls := s.calls ++ [c] }

/-- `rest = oldSet; select(maxFd + 1, &rest, NULL, NULL, NULL)`: what is left in `rest`. -/
def Server.rest (s : Server) (readable : Finset Nat) : Finset Nat :=
  s.oldSet.filter fun fd => fd ≤ s.maxFd ∧ fd ∈ readable

/-- `FD_SET(cfd, &oldSet)`, and the update of `maxFd`. -/
def Server.add (s : Server) (cfd : Nat) : Server :=
  { s with oldSet := insert cfd s.oldSet, maxFd := if cfd > s.maxFd then cfd else s.maxFd }

/-- `close(i); FD_CLR(i, &oldSet);` -/
def Server.remove (s : Server) (i : Nat) : Server :=
  { s.call (.close i) with oldSet := s.oldSet.erase i }

/-- Read a descriptor and answer. The `printf` of what was read, which reads on behind a full array
without NUL, is not modelled. -/
def Server.serve (s : Server) (k : Round) (i : Nat) : Server :=
  match k.read i with
  | .error (.fail _) => (s.call (.read i)).remove i
  | .error .eof => (s.call (.read i)).remove i
  | .ok chunk => (s.call (.read i)).call (.write i chunk.data)

/-- The loop over the descriptors above the listening one that are still to be looked at. -/
def scan (k : Round) (rest : Finset Nat) : List Nat → Server → Server
  | [], s => s
  | i :: fds, s => scan k rest fds (if i ∈ rest then s.serve k i else s)

/-- `for (int i = lfd + 1; i <= maxFd; i++)` -/
def Server.fds (s : Server) (lfd : Nat) : List Nat :=
  List.range' (lfd + 1) (s.maxFd - lfd)

/-- The body of the main loop, and whether the loop goes on. -/
def Server.iterate (s : Server) (lfd : Nat) (k : Round) : Bool × Server :=
  match k.select with
  | .failed => (false, s)
  | .ready readable =>
      let rest := s.rest readable
      if rest.card = 0 then (true, s)
      else if lfd ∈ rest then
        let s := s.call (.accept k.accept)
        match k.accept with
        | none => (false, s)
        | some cfd =>
            let s := s.add cfd
            if rest.card - 1 = 0 then (true, s) else (true, scan k rest (s.fds lfd) s)
      else (true, scan k rest (s.fds lfd) s)

/-- The connection that is accepted in a round, if there is one. -/
def Server.accepted (s : Server) (lfd : Nat) (k : Round) : Option Nat :=
  match k.select with
  | .failed => none
  | .ready readable => if lfd ∈ s.rest readable then k.accept else none

/-- An open descriptor: one below the listening descriptor, which all stay open, that descriptor, or
a connection. -/
def Server.Open (s : Server) (lfd fd : Nat) : Prop :=
  fd ≤ lfd ∨ fd ∈ connections s.calls

/-- `Accept` returns a descriptor that is not open and fits into an `fd_set`. -/
def Fresh (lfd : Nat) (s : Server) (k : Round) : Prop :=
  ∀ cfd, k.accept = some cfd → ¬ s.Open lfd cfd ∧ cfd < fdSetsize

/-- One round of the main loop that does not end the process. -/
inductive Step (lfd : Nat) : Server → Server → Prop where
  | round (s : Server) (k : Round) :
      Fresh lfd s k → (s.iterate lfd k).1 = true → Step lfd s (s.iterate lfd k).2

/-- The states at the top of the main loop. -/
def Reachable (lfd : Nat) (s : Server) : Prop :=
  Relation.ReflTransGen (Step lfd) (Server.start lfd) s

/-- The calls made in one round. -/
def Server.newCalls (s : Server) (lfd : Nat) (k : Round) : List (SocketCall Nat) :=
  (s.iterate lfd k).2.calls.drop s.calls.length

/-! ## The set of descriptors -/

/-- The set is right: the listening descriptor and the open connections, none above `maxFd`. -/
structure Invariant (lfd : Nat) (s : Server) : Prop where
  watched : ∀ fd, fd ∈ s.oldSet ↔ fd = lfd ∨ fd ∈ connections s.calls
  above : ∀ fd ∈ connections s.calls, lfd < fd
  bound : ∀ fd ∈ s.oldSet, fd ≤ s.maxFd

variable {lfd : Nat}

/-- At the start there is only the listening descriptor. -/
theorem invariant_start (lfd : Nat) : Invariant lfd (.start lfd) := by
  refine ⟨?_, ?_, ?_⟩
  · intro fd
    simp [Server.start, connections]
  · intro fd hfd
    cases hfd
  · intro fd hfd
    exact Nat.le_of_eq (Finset.mem_singleton.mp hfd)

/-- Reading and writing leave the set alone. -/
theorem Invariant.call {s : Server} {c : SocketCall Nat} (h : Invariant lfd s)
    (hc : c.effect (connections s.calls) = connections s.calls) : Invariant lfd (s.call c) := by
  have hsame : connections (s.call c).calls = connections s.calls :=
    (connections_concat _ _).trans hc
  refine ⟨?_, ?_, h.bound⟩
  · intro fd
    rw [hsame]
    exact h.watched fd
  · intro fd hfd
    exact h.above fd (hsame ▸ hfd)

/-- A new connection is added to the set. -/
theorem Invariant.add {s : Server} {cfd : Nat} (h : Invariant lfd s) (hnew : ¬ s.Open lfd cfd) :
    Invariant lfd ((s.call (.accept (some cfd))).add cfd) := by
  have hmem : ∀ fd, fd ∈ connections (s.calls ++ [.accept (some cfd)]) ↔
      fd ∈ connections s.calls ∨ fd = cfd :=
    fun fd => mem_connections_accept
  have habove : lfd < cfd := by
    by_contra hle
    exact hnew (.inl (by omega))
  refine ⟨?_, ?_, ?_⟩
  · intro fd
    show fd ∈ insert cfd s.oldSet ↔ fd = lfd ∨ fd ∈ connections (s.calls ++ [.accept (some cfd)])
    rw [hmem, Finset.mem_insert, h.watched]
    constructor
    · rintro (hfd | hfd | hfd)
      · exact .inr (.inr hfd)
      · exact .inl hfd
      · exact .inr (.inl hfd)
    · rintro (hfd | hfd | hfd)
      · exact .inr (.inl hfd)
      · exact .inr (.inr hfd)
      · exact .inl hfd
  · intro fd hfd
    rcases (hmem fd).mp hfd with hfd | rfl
    · exact h.above fd hfd
    · exact habove
  · intro fd hfd
    have hbound : ∀ d ∈ s.oldSet, d ≤ s.maxFd := h.bound
    show fd ≤ if cfd > s.maxFd then cfd else s.maxFd
    rcases Finset.mem_insert.mp hfd with rfl | hfd
    · split <;> omega
    · have := hbound fd hfd
      split <;> omega

/-- A connection that is closed is taken out of the set. -/
theorem Invariant.remove {s : Server} {i : Nat} (h : Invariant lfd s) (hi : lfd < i) :
    Invariant lfd (s.remove i) := by
  have hmem : ∀ fd, fd ∈ connections (s.calls ++ [.close i]) ↔
      fd ∈ connections s.calls ∧ fd ≠ i :=
    fun fd => mem_connections_close
  refine ⟨?_, ?_, ?_⟩
  · intro fd
    show fd ∈ s.oldSet.erase i ↔ fd = lfd ∨ fd ∈ connections (s.calls ++ [.close i])
    rw [hmem, Finset.mem_erase, h.watched]
    constructor
    · intro hfd
      exact hfd.2.imp_right fun hopen => ⟨hopen, hfd.1⟩
    · rintro (rfl | hfd)
      · exact ⟨by omega, .inl rfl⟩
      · exact ⟨hfd.2, .inr hfd.1⟩
  · intro fd hfd
    exact h.above fd ((hmem fd).mp hfd).1
  · intro fd hfd
    exact h.bound fd (Finset.mem_of_mem_erase hfd)

/-- Serving a client keeps the set right. -/
theorem Invariant.serve {s : Server} (h : Invariant lfd s) (k : Round) {i : Nat} (hi : lfd < i) :
    Invariant lfd (s.serve k i) := by
  have hread : Invariant lfd (s.call (.read i)) := h.call rfl
  unfold Server.serve
  split
  · exact hread.remove hi
  · exact hread.remove hi
  · exact hread.call rfl

/-- The scan keeps the set right. -/
theorem Invariant.scan {s : Server} (h : Invariant lfd s) (k : Round) (rest : Finset Nat)
    {fds : List Nat} (hfds : ∀ i ∈ fds, lfd < i) : Invariant lfd (scan k rest fds s) := by
  induction fds generalizing s with
  | nil => exact h
  | cons i fds ih =>
      have hrest : ∀ j ∈ fds, lfd < j := fun j hj => hfds j (List.mem_cons_of_mem _ hj)
      rw [TcpServerDemo.scan]
      split
      · exact ih (h.serve k (hfds i List.mem_cons_self)) hrest
      · exact ih h hrest

/-- The scan begins above the listening descriptor, and ends with `maxFd`. -/
theorem Server.mem_fds {s : Server} {i : Nat} : i ∈ s.fds lfd ↔ lfd < i ∧ i ≤ s.maxFd := by
  rw [fds, List.mem_range'_1]
  omega

/-- A round keeps the set right. -/
theorem Invariant.iterate {s : Server} {k : Round} (h : Invariant lfd s)
    (hnew : ∀ cfd, s.accepted lfd k = some cfd → ¬ s.Open lfd cfd)
    (hgoes : (s.iterate lfd k).1 = true) : Invariant lfd (s.iterate lfd k).2 := by
  have hscan : ∀ {t : Server} (rest : Finset Nat), Invariant lfd t →
      Invariant lfd (TcpServerDemo.scan k rest (t.fds lfd) t) :=
    fun rest ht => ht.scan k rest fun i hi => (Server.mem_fds.mp hi).1
  unfold Server.iterate at hgoes ⊢
  cases hselect : k.select with
  | failed => simp [hselect] at hgoes
  | ready readable =>
      simp only [hselect] at hgoes ⊢
      by_cases hzero : (s.rest readable).card = 0
      · rw [if_pos hzero]
        exact h
      · rw [if_neg hzero] at hgoes ⊢
        by_cases hlisten : lfd ∈ s.rest readable
        · rw [if_pos hlisten] at hgoes ⊢
          cases haccept : k.accept with
          | none => simp [haccept] at hgoes
          | some cfd =>
              have haccepted : s.accepted lfd k = some cfd := by
                rw [Server.accepted, hselect]
                exact (if_pos hlisten).trans haccept
              have hadd := h.add (hnew cfd haccepted)
              simp only
              split
              · exact hadd
              · exact hscan _ hadd
        · rw [if_neg hlisten]
          exact hscan _ h

/-- What is accepted in a round is what `Accept` returns. -/
theorem Server.accept_of_accepted {s : Server} {k : Round} {cfd : Nat}
    (h : s.accepted lfd k = some cfd) : k.accept = some cfd := by
  unfold accepted at h
  split at h
  · cases h
  · exact (Option.ite_none_right_eq_some.mp h).2

/-- The set is right at the top of the loop. -/
theorem reachable_inv {s : Server} (h : Reachable lfd s) : Invariant lfd s := by
  refine reachable_invariant (Invariant lfd) (invariant_start lfd) ?_ h
  intro s next hinv hstep
  cases hstep with
  | round k hfresh hgoes =>
      exact hinv.iterate (fun cfd h => (hfresh cfd (Server.accept_of_accepted h)).1) hgoes

/-! ## The descriptors read -/

/-- Serving a client reads its descriptor once. -/
theorem Server.serve_calls (s : Server) (k : Round) (i : Nat) :
    ∃ more, (s.serve k i).calls = s.calls ++ .read i :: more ∧ reads more = [] := by
  have happend : ∀ c : SocketCall Nat, s.calls ++ [.read i] ++ [c] = s.calls ++ .read i :: [c] := by
    intro c
    rw [List.append_assoc, List.singleton_append]
  unfold serve
  split
  · exact ⟨[.close i], happend _, rfl⟩
  · exact ⟨[.close i], happend _, rfl⟩
  · exact ⟨[.write i _], happend _, rfl⟩

/-- The scan reads the descriptors in `rest`, in their order. -/
theorem scan_calls (k : Round) (rest : Finset Nat) (fds : List Nat) (s : Server) :
    ∃ more, (scan k rest fds s).calls = s.calls ++ more ∧
      reads more = fds.filter (· ∈ rest) := by
  induction fds generalizing s with
  | nil => exact ⟨[], (List.append_nil _).symm, rfl⟩
  | cons i fds ih =>
      rw [scan]
      by_cases hi : i ∈ rest
      · obtain ⟨served, hserved, hnone⟩ := s.serve_calls k i
        obtain ⟨more, hmore, hreads⟩ := ih (s.serve k i)
        rw [if_pos hi, List.filter_cons_of_pos (by simpa using hi)]
        refine ⟨.read i :: served ++ more, ?_, ?_⟩
        · rw [hmore, hserved, List.append_assoc]
        · show i :: reads (served ++ more) = _
          rw [reads_append, hnone, hreads, List.nil_append]
      · rw [if_neg hi, List.filter_cons_of_neg (by simpa using hi)]
        exact ih s

/-- A list without duplicates contains each of its elements once. -/
theorem count_filter_fds (s : Server) (rest : Finset Nat) (fd : Nat) :
    ((s.fds lfd).filter (· ∈ rest)).count fd =
      if fd ∈ rest ∧ lfd < fd ∧ fd ≤ s.maxFd then 1 else 0 := by
  have hnodup : ((s.fds lfd).filter (· ∈ rest)).Nodup := List.Nodup.filter _ List.nodup_range'
  have hmem : fd ∈ (s.fds lfd).filter (· ∈ rest) ↔ fd ∈ rest ∧ lfd < fd ∧ fd ≤ s.maxFd := by
    rw [List.mem_filter, Server.mem_fds, decide_eq_true_iff, and_comm]
  rw [hnodup.count]
  exact if_congr hmem rfl rfl

/-- What `select` reports are watched descriptors, the clients among them above the listening
one. -/
theorem Invariant.rest_bound {s : Server} (h : Invariant lfd s) {readable : Finset Nat} {fd : Nat}
    (hfd : fd ∈ s.rest readable) : fd ≤ s.maxFd ∧ (fd ≠ lfd → lfd < fd) := by
  have hmem := (Finset.mem_filter.mp hfd).1
  refine ⟨h.bound fd hmem, ?_⟩
  intro hne
  exact h.above fd (((h.watched fd).mp hmem).resolve_left hne)

/-- A round after a successful `select` reads the clients that it reported, once each, and no other
descriptor; when `Accept` gives up, the round ends before it reads. -/
theorem Invariant.round_reads {s : Server} {k : Round} {readable : Finset Nat}
    (h : Invariant lfd s) (hk : k.select = .ready readable) (fd : Nat) :
    (reads (s.newCalls lfd k)).count fd =
      if (s.iterate lfd k).1 = true ∧ fd ∈ s.rest readable ∧ fd ≠ lfd then 1 else 0 := by
  -- the scan reads each readable client once, whatever was done before it
  have hscan : ∀ (t : Server) (calls : List (SocketCall Nat)), s.maxFd ≤ t.maxFd →
      t.calls = s.calls ++ calls → reads calls = [] →
      (reads ((TcpServerDemo.scan k (s.rest readable) (t.fds lfd) t).calls.drop
          s.calls.length)).count fd =
        if fd ∈ s.rest readable ∧ fd ≠ lfd then 1 else 0 := by
    intro t calls hmax hcalls hnone
    obtain ⟨more, hmore, hreads⟩ := scan_calls k (s.rest readable) (t.fds lfd) t
    rw [hmore, hcalls, List.append_assoc, List.drop_left, reads_append, hnone, List.nil_append,
      hreads, count_filter_fds]
    refine if_congr ?_ rfl rfl
    constructor
    · intro hfd
      exact ⟨hfd.1, by omega⟩
    · intro hfd
      obtain ⟨hle, hlt⟩ := h.rest_bound hfd.1
      exact ⟨hfd.1, hlt hfd.2, by omega⟩
  unfold Server.newCalls Server.iterate
  simp only [hk]
  by_cases hzero : (s.rest readable).card = 0
  · have hempty := Finset.card_eq_zero.mp hzero
    simp [hempty]
  · rw [if_neg hzero]
    by_cases hlisten : lfd ∈ s.rest readable
    · rw [if_pos hlisten]
      cases haccept : k.accept with
      | none => simp [Server.call]
      | some cfd =>
          by_cases hlast : (s.rest readable).card - 1 = 0
          · -- nothing but the listening descriptor is readable, and the scan is left out
            have hone : ∀ d ∈ s.rest readable, d = lfd := by
              intro d hd
              exact Finset.card_le_one.mp (by omega) d hd lfd hlisten
            have hnot : ¬ (fd ∈ s.rest readable ∧ fd ≠ lfd) := by
              intro hfd
              exact hfd.2 (hone fd hfd.1)
            simp [hlast, hnot, Server.call, Server.add]
          · -- the new connection does not hide a client from the scan
            have hmax : s.maxFd ≤ ((s.call (.accept (some cfd))).add cfd).maxFd := by
              show s.maxFd ≤ if cfd > s.maxFd then cfd else s.maxFd
              split <;> omega
            simpa only [hlast, if_false, true_and] using
              hscan ((s.call (.accept (some cfd))).add cfd) [.accept (some cfd)] hmax rfl rfl
    · rw [if_neg hlisten]
      simpa only [true_and] using hscan s [] (Nat.le_refl _) (List.append_nil _).symm rfl

/-- At the top of the loop `oldSet` holds the listening descriptor and the open connections, and
none of them is above `maxFd`. In a round after a successful `select` that is not ended by a failing
`Accept`, each client that `select` reported is read once, and no other descriptor is. -/
theorem select_bookkeeping {s : Server} (h : Reachable lfd s) :
    (∀ fd, fd ∈ s.oldSet ↔ fd = lfd ∨ fd ∈ connections s.calls) ∧
      (∀ fd ∈ s.oldSet, fd ≤ s.maxFd) ∧
      ∀ (k : Round) (readable : Finset Nat), k.select = .ready readable → ∀ fd,
        (reads (s.newCalls lfd k)).count fd =
          if (s.iterate lfd k).1 = true ∧ fd ∈ s.rest readable ∧ fd ≠ lfd then 1 else 0 := by
  have hinv := reachable_inv h
  exact ⟨hinv.watched, hinv.bound, fun k readable hk fd => hinv.round_reads hk fd⟩

/-- A round in which the listening descriptor 3 is readable and `Accept` returns 4. -/
def firstRound : Round where
  select := .ready {3}
  accept := some 4
  read _ := .error .eof

/-- The first client is watched, and read once in the round in which `select` reports it. -/
theorem select_first_client :
    let s := ((Server.start 3).iterate 3 firstRound).2
    connections s.calls = [4] ∧ (4 ∈ s.oldSet ∧ 4 ≤ s.maxFd) ∧
      (reads (s.newCalls 3 ⟨.ready {4}, none, fun _ => .error .eof⟩)).count 4 = 1 := by
  intro s
  have hfresh : Fresh 3 (Server.start 3) firstRound := by
    intro cfd h
    obtain rfl := Option.some.inj h
    exact ⟨by simp [Server.Open, Server.start, connections], by decide⟩
  have hreach : Reachable 3 s := .tail .refl (.round _ firstRound hfresh (by decide))
  obtain ⟨hwatched, hbound, hreads⟩ := select_bookkeeping hreach
  have hmem : 4 ∈ s.oldSet := (hwatched 4).mpr (by decide)
  refine ⟨by decide, ⟨hmem, hbound 4 hmem⟩, ?_⟩
  rw [hreads _ {4} rfl 4]
  decide

end UnixNet.TcpServerDemo
