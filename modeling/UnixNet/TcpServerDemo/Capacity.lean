import Mathlib.Order.Interval.Finset.Nat
import UnixNet.TcpServerDemo.SelectServer

/-!
# How many clients the select server can have

The bits of an `fd_set` are those of the descriptors below `FD_SETSIZE`, and nothing in the program
keeps the descriptors that `Accept` returns below it. As the lowest descriptor that is not in use is
returned, the descriptors tell how many clients are connected; `select_capacity_iff` says when all
of them fit.
-/

namespace UnixNet.TcpServerDemo

open NetLib

/-- The descriptors that the loop over the descriptors passes to `FD_ISSET` and `FD_CLR`. -/
def scanUses (k : Round) (rest : Finset Nat) : List Nat → List Nat
  | [] => []
  | i :: fds =>
      let cleared :=
        if i ∈ rest then
          match k.read i with
          | .error _ => [i]
          | .ok _ => []
        else []
      i :: cleared ++ scanUses k rest fds

/-- The descriptors that a round passes to `FD_ISSET`, `FD_SET` and `FD_CLR`. -/
def Server.fdUses (s : Server) (lfd : Nat) (k : Round) : List Nat :=
  match k.select with
  | .failed => []
  | .ready readable =>
      let rest := s.rest readable
      if rest.card = 0 then []
      else if lfd ∈ rest then
        match k.accept with
        | none => [lfd]
        | some cfd =>
            let s := (s.call (.accept k.accept)).add cfd
            lfd :: cfd :: if rest.card - 1 = 0 then [] else scanUses k rest (s.fds lfd)
      else lfd :: scanUses k rest (s.fds lfd)

/-- The descriptors of the clients that are connected. -/
def Server.clients (s : Server) (lfd : Nat) : Finset Nat :=
  s.oldSet.erase lfd

/-- `accept` returns the lowest descriptor that is not in use. -/
def LowestUnused (lfd : Nat) (s : Server) (k : Round) : Prop :=
  ∀ cfd, s.accepted lfd k = some cfd → ¬ s.Open lfd cfd ∧ ∀ fd < cfd, s.Open lfd fd

/-- A client that is accepted finds room: with the listening descriptor, those below it and the
clients that are connected, not all descriptors of an `fd_set` are in use. -/
def HasRoom (lfd : Nat) (s : Server) (k : Round) : Prop :=
  s.accepted lfd k ≠ none → lfd + 1 + (s.clients lfd).card < fdSetsize

/-- The rounds of a run from a state at the top of the loop. Only the last one may end the
process. -/
def IsRun (lfd : Nat) : Server → List Round → Prop
  | _, [] => True
  | s, k :: rounds =>
      LowestUnused lfd s k ∧ ((s.iterate lfd k).1 = false → rounds = []) ∧
        IsRun lfd (s.iterate lfd k).2 rounds

/-- All that is passed to `FD_ISSET`, `FD_SET` and `FD_CLR` in these rounds is below `FD_SETSIZE`,
and `maxFd` is before and after each of them. -/
def Fits (lfd : Nat) : Server → List Round → Prop
  | s, [] => s.maxFd < fdSetsize
  | s, k :: rounds =>
      s.maxFd < fdSetsize ∧ (∀ fd ∈ s.fdUses lfd k, fd < fdSetsize) ∧
        Fits lfd (s.iterate lfd k).2 rounds

/-- In a run `FD_SET(lfd, &oldSet)` in front of the loop and all rounds stay below `FD_SETSIZE`. -/
def RunFits (lfd : Nat) (rounds : List Round) : Prop :=
  lfd < fdSetsize ∧ Fits lfd (.start lfd) rounds

/-- All clients that are accepted in these rounds find room. -/
def AllHaveRoom (lfd : Nat) : Server → List Round → Prop
  | _, [] => True
  | s, k :: rounds => HasRoom lfd s k ∧ AllHaveRoom lfd (s.iterate lfd k).2 rounds

variable {lfd cfd : Nat} {s : Server} {k : Round} {rounds : List Round}

/-! ## One round -/

/-- The loop over the descriptors passes on what it looks at. -/
theorem mem_scan_uses {rest : Finset Nat} {fds : List Nat} {fd : Nat}
    (h : fd ∈ scanUses k rest fds) : fd ∈ fds := by
  induction fds with
  | nil => cases h
  | cons i fds ih =>
      rw [scanUses, List.cons_append, List.mem_cons, List.mem_append] at h
      rcases h with rfl | hcleared | hrest
      · exact List.mem_cons_self
      · have heq : fd = i := by
          split at hcleared
          · split at hcleared
            · exact List.mem_singleton.mp hcleared
            · cases hcleared
          · cases hcleared
        exact heq ▸ List.mem_cons_self
      · exact List.mem_cons_of_mem i (ih hrest)

/-- The loop over the descriptors leaves `maxFd` as it is. -/
theorem scan_max_fd (k : Round) (rest : Finset Nat) (fds : List Nat) (s : Server) :
    (scan k rest fds s).maxFd = s.maxFd := by
  induction fds generalizing s with
  | nil => rfl
  | cons i fds ih =>
      rw [scan, ih]
      split
      · unfold Server.serve
        split <;> rfl
      · rfl

/-- A round in which no client is accepted. -/
theorem round_of_none (h : s.accepted lfd k = none) :
    (s.iterate lfd k).2.maxFd = s.maxFd ∧ ∀ fd ∈ s.fdUses lfd k, fd = lfd ∨ fd ≤ s.maxFd := by
  unfold Server.accepted at h
  unfold Server.iterate Server.fdUses
  cases hselect : k.select with
  | failed => exact ⟨rfl, fun fd hfd => by cases hfd⟩
  | ready readable =>
      simp only [hselect] at h ⊢
      by_cases hzero : (s.rest readable).card = 0
      · rw [if_pos hzero, if_pos hzero]
        exact ⟨rfl, fun fd hfd => by cases hfd⟩
      · rw [if_neg hzero, if_neg hzero]
        by_cases hlisten : lfd ∈ s.rest readable
        · rw [if_pos hlisten] at h ⊢
          rw [if_pos hlisten, h]
          exact ⟨rfl, fun fd hfd => .inl (List.mem_singleton.mp hfd)⟩
        · rw [if_neg hlisten, if_neg hlisten]
          refine ⟨scan_max_fd _ _ _ _, fun fd hfd => ?_⟩
          exact (List.mem_cons.mp hfd).imp_right fun h => (Server.mem_fds.mp (mem_scan_uses h)).2

/-- A round in which a client is accepted. -/
theorem round_of_some (h : s.accepted lfd k = some cfd) :
    (s.iterate lfd k).2.maxFd = max s.maxFd cfd ∧ cfd ∈ s.fdUses lfd k ∧
      ∀ fd ∈ s.fdUses lfd k, fd = lfd ∨ fd ≤ max s.maxFd cfd := by
  have hmax : ((s.call (.accept (some cfd))).add cfd).maxFd = max s.maxFd cfd := by
    show (if cfd > s.maxFd then cfd else s.maxFd) = max s.maxFd cfd
    split <;> omega
  have haccept : k.accept = some cfd := Server.accept_of_accepted h
  unfold Server.accepted at h
  unfold Server.iterate Server.fdUses
  cases hselect : k.select with
  | failed =>
      rw [hselect] at h
      cases h
  | ready readable =>
      simp only [hselect] at h ⊢
      obtain ⟨hlisten, -⟩ := Option.ite_none_right_eq_some.mp h
      have hzero : (s.rest readable).card ≠ 0 := Finset.card_ne_zero_of_mem hlisten
      rw [if_neg hzero, if_neg hzero, if_pos hlisten, if_pos hlisten, haccept]
      simp only
      refine ⟨?_, List.mem_cons_of_mem lfd List.mem_cons_self, ?_⟩
      · split
        · exact hmax
        · exact (scan_max_fd _ _ _ _).trans hmax
      · intro fd hfd
        rcases List.mem_cons.mp hfd with rfl | hfd
        · exact .inl rfl
        · refine .inr ?_
          rcases List.mem_cons.mp hfd with rfl | hfd
          · exact Nat.le_max_right _ _
          · split at hfd
            · cases hfd
            · exact hmax ▸ (Server.mem_fds.mp (mem_scan_uses hfd)).2

/-! ## The lowest descriptor -/

/-- The clients have descriptors above the listening one. -/
theorem Invariant.clients_bound (h : Invariant lfd s) {fd : Nat} (hfd : fd ∈ s.clients lfd) :
    lfd < fd ∧ fd ≤ s.maxFd := by
  obtain ⟨hne, hmem⟩ := Finset.mem_erase.mp hfd
  exact ⟨h.above fd (((h.watched fd).mp hmem).resolve_left hne), h.bound fd hmem⟩

/-- An open descriptor above the listening one is one of a client. -/
theorem Invariant.mem_clients (h : Invariant lfd s) {fd : Nat} (hlt : lfd < fd) :
    s.Open lfd fd ↔ fd ∈ s.clients lfd := by
  have hne : fd ≠ lfd := Nat.ne_of_gt hlt
  rw [Server.Open, or_iff_right (Nat.not_le.mpr hlt), Server.clients, Finset.mem_erase,
    and_iff_right hne, h.watched, or_iff_right hne]

/-- The lowest unused descriptor is below `FD_SETSIZE` exactly if there is room. Above the listening
descriptor all descriptors below it are clients, and all clients have descriptors that fit. -/
theorem Invariant.lowest_lt_iff (h : Invariant lfd s) (hmax : s.maxFd < fdSetsize)
    (hunused : ¬ s.Open lfd cfd) (hlowest : ∀ fd < cfd, s.Open lfd fd) :
    cfd < fdSetsize ↔ lfd + 1 + (s.clients lfd).card < fdSetsize := by
  have hlt : lfd < cfd := Nat.lt_of_not_le fun hle => hunused (.inl hle)
  constructor
  · intro hfits
    have hnew : cfd ∉ s.clients lfd := fun hmem => hunused ((h.mem_clients hlt).mpr hmem)
    have hsubset : insert cfd (s.clients lfd) ⊆ Finset.Ioo lfd fdSetsize := by
      intro fd hfd
      rw [Finset.mem_Ioo]
      rcases Finset.mem_insert.mp hfd with rfl | hclient
      · exact ⟨hlt, hfits⟩
      · obtain ⟨habove, hbound⟩ := h.clients_bound hclient
        exact ⟨habove, by omega⟩
    have hcard := Finset.card_le_card hsubset
    rw [Finset.card_insert_of_notMem hnew, Nat.card_Ioo] at hcard
    omega
  · intro hroom
    have hsubset : Finset.Ioo lfd cfd ⊆ s.clients lfd := by
      intro fd hfd
      obtain ⟨habove, hbelow⟩ := Finset.mem_Ioo.mp hfd
      exact (h.mem_clients habove).mp (hlowest fd hbelow)
    have hcard := Finset.card_le_card hsubset
    rw [Nat.card_Ioo] at hcard
    omega

/-- A round stays below `FD_SETSIZE` exactly if a client that is accepted finds room. -/
theorem Invariant.round_iff (h : Invariant lfd s) (hmax : s.maxFd < fdSetsize)
    (hlowest : LowestUnused lfd s k) :
    (∀ fd ∈ s.fdUses lfd k, fd < fdSetsize) ∧ (s.iterate lfd k).2.maxFd < fdSetsize ↔
      HasRoom lfd s k := by
  have hlfd : lfd ≤ s.maxFd := h.bound lfd ((h.watched lfd).mpr (.inl rfl))
  cases haccepted : s.accepted lfd k with
  | none =>
      obtain ⟨hnext, huses⟩ := round_of_none haccepted
      refine iff_of_true ⟨fun fd hfd => ?_, hnext ▸ hmax⟩ fun hne => absurd haccepted hne
      rcases huses fd hfd with rfl | hle <;> omega
  | some cfd =>
      obtain ⟨hnext, hmem, huses⟩ := round_of_some haccepted
      obtain ⟨hunused, hbelow⟩ := hlowest cfd haccepted
      have hroom : HasRoom lfd s k ↔ lfd + 1 + (s.clients lfd).card < fdSetsize :=
        forall_prop_of_true (by rw [haccepted]; exact Option.some_ne_none cfd)
      rw [hroom, ← h.lowest_lt_iff hmax hunused hbelow, hnext]
      constructor
      · intro hfits
        exact hfits.1 cfd hmem
      · intro hfits
        refine ⟨fun fd hfd => ?_, by omega⟩
        rcases huses fd hfd with rfl | hle <;> omega

/-! ## Runs -/

/-- A run from a state in which `maxFd` fits stays below `FD_SETSIZE` exactly if all clients find
room. -/
theorem Invariant.fits_iff (h : Invariant lfd s) (hrun : IsRun lfd s rounds) :
    Fits lfd s rounds ↔ s.maxFd < fdSetsize ∧ AllHaveRoom lfd s rounds := by
  induction rounds generalizing s with
  | nil => exact (and_iff_left trivial).symm
  | cons k rounds ih =>
      obtain ⟨hlowest, hlast, hrest⟩ := hrun
      have hnext : Fits lfd (s.iterate lfd k).2 rounds ↔
          (s.iterate lfd k).2.maxFd < fdSetsize ∧ AllHaveRoom lfd (s.iterate lfd k).2 rounds := by
        cases hgoes : (s.iterate lfd k).1 with
        | true => exact ih (h.iterate (fun cfd hcfd => (hlowest cfd hcfd).1) hgoes) hrest
        | false =>
            obtain rfl := hlast hgoes
            exact (and_iff_left trivial).symm
      rw [Fits, AllHaveRoom, hnext, ← and_assoc (a := ∀ fd ∈ s.fdUses lfd k, fd < fdSetsize)]
      refine and_congr_right fun hmax => and_congr_left' ?_
      exact h.round_iff hmax hlowest

/-- When all descriptors fit. For every run in which `accept` returns the lowest descriptor that is
not in use: every descriptor that is passed to `FD_SET`, `FD_ISSET` and `FD_CLR`, and `maxFd`, is
below `FD_SETSIZE`, if and only if the listening descriptor is and whenever a client is accepted
fewer than `FD_SETSIZE` - 1 - `lfd` clients are connected. -/
theorem select_capacity_iff (h : IsRun lfd (.start lfd) rounds) :
    RunFits lfd rounds ↔ lfd < fdSetsize ∧ AllHaveRoom lfd (.start lfd) rounds := by
  rw [RunFits, (invariant_start lfd).fits_iff h]
  exact and_congr_right fun hlfd => and_iff_right hlfd

/-- The first client fits. -/
theorem select_capacity_first : RunFits 3 [firstRound] := by
  have hlowest : LowestUnused 3 (.start 3) firstRound := by
    intro cfd h
    obtain rfl := Option.some.inj (Server.accept_of_accepted h)
    refine ⟨by simp [Server.Open, Server.start, connections], fun fd hlt => ?_⟩
    exact .inl (Nat.le_of_lt_succ hlt)
  have hrun : IsRun 3 (.start 3) [firstRound] :=
    ⟨hlowest, fun h => absurd h (by decide), trivial⟩
  exact (select_capacity_iff hrun).mpr ⟨by decide, fun _ => by decide, trivial⟩

/-! ## A crowd -/

/-- A round in which a client arrives and nothing else happens. -/
def arrival (lfd cfd : Nat) : Round where
  select := .ready {lfd}
  accept := some cfd
  read _ := .error .eof

/-- The next `n` descriptors above the listening one are clients. -/
structure Crowd (lfd n : Nat) (s : Server) : Prop where
  opened : ∀ fd, s.Open lfd fd ↔ fd ≤ lfd + n
  listening : lfd ∈ s.oldSet
  last : s.maxFd = lfd + n

/-- One more client. -/
theorem Crowd.arrive {n : Nat} (h : Crowd lfd n s) :
    LowestUnused lfd s (arrival lfd (lfd + n + 1)) ∧
      (s.iterate lfd (arrival lfd (lfd + n + 1))).1 = true ∧
      Crowd lfd (n + 1) (s.iterate lfd (arrival lfd (lfd + n + 1))).2 := by
  have hrest : s.rest {lfd} = {lfd} := by
    ext fd
    rw [Server.rest, Finset.mem_filter, Finset.mem_singleton]
    constructor
    · intro hfd
      exact hfd.2.2
    · rintro rfl
      exact ⟨h.listening, by have := h.last; omega, rfl⟩
  have hround : s.iterate lfd (arrival lfd (lfd + n + 1)) =
      (true, (s.call (.accept (some (lfd + n + 1)))).add (lfd + n + 1)) := by
    simp [Server.iterate, arrival, hrest]
  refine ⟨?_, ?_, ?_⟩
  · intro cfd hcfd
    obtain rfl := Option.some.inj (Server.accept_of_accepted hcfd)
    refine ⟨fun hopen => ?_, fun fd hlt => (h.opened fd).mpr (Nat.le_of_lt_succ hlt)⟩
    have := (h.opened _).mp hopen
    omega
  · rw [hround]
  · rw [hround]
    refine ⟨fun fd => ?_, Finset.mem_insert_of_mem h.listening, ?_⟩
    · have hold := h.opened fd
      show fd ≤ lfd ∨ fd ∈ connections (s.calls ++ [.accept (some (lfd + n + 1))]) ↔ _
      rw [mem_connections_accept, ← or_assoc]
      show s.Open lfd fd ∨ _ ↔ _
      rw [hold]
      omega
    · have hlast := h.last
      show (if lfd + n + 1 > s.maxFd then lfd + n + 1 else s.maxFd) = lfd + (n + 1)
      rw [if_pos (by omega)]
      rfl

/-- A number of clients, one after the other. -/
theorem Crowd.arrivals {n : Nat} (h : Crowd lfd n s) (m : Nat) :
    IsRun lfd s ((List.range' (lfd + n + 1) m).map (arrival lfd)) ∧
      (Fits lfd s ((List.range' (lfd + n + 1) m).map (arrival lfd)) → lfd + n + m < fdSetsize) := by
  induction m generalizing n s with
  | zero => exact ⟨trivial, fun hfits => h.last ▸ hfits⟩
  | succ m ih =>
      obtain ⟨hlowest, hgoes, hnext⟩ := h.arrive
      obtain ⟨hrun, hend⟩ := ih hnext
      rw [List.range'_succ, List.map_cons]
      refine ⟨⟨hlowest, fun hstop => ?_, hrun⟩, fun hfits => ?_⟩
      · rw [hgoes] at hstop
        cases hstop
      · have hlt := hend hfits.2.2
        omega

/-- With 1020 clients connected, the next one has a descriptor that is not below `FD_SETSIZE`. -/
theorem select_capacity_crowd : ¬ ∀ rounds, IsRun 3 (.start 3) rounds → RunFits 3 rounds := by
  intro hall
  have hcrowd : Crowd 3 0 (.start 3) := by
    refine ⟨fun fd => ?_, Finset.mem_singleton_self 3, rfl⟩
    exact or_iff_left (by simp [Server.start, connections])
  obtain ⟨hrun, hend⟩ := hcrowd.arrivals 1021
  exact absurd (hend (hall _ hrun).2) (by decide)

end UnixNet.TcpServerDemo
