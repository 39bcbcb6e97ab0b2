import Mathlib.Data.List.Nodup
import UnixNet.Lib.Execution
import UnixNet.Lib.Sockets
import UnixNet.Lib.Source

/-!
# The event table of the libevent echo server

`libeventServer.c` remembers in `FdArr` which event it created for which descriptor, to find the
event when the connection ends. `addEvent` takes the first unused slot, and the listening event has
the first of all; no slot is ever given back, and no descriptor closed. The table therefore knows
the first 1023 connections of the process and no other (`lookups_right_iff`).

The events are numbered in the order in which `event_new` created them. libevent calls `lfdcb` and
`cfdcb` for events that were added and not deleted.
-/

namespace UnixNet.Libevent

open NetLib

/-- `_MAXEVENT_` -/
def maxEvent : Nat := 1024

/-- `struct eventStructure` -/
structure EventStructure where
  fd : Int
  ev : Option Nat
  deriving DecidableEq

/-- `initEventArr` -/
def initEventArr : List EventStructure :=
  List.replicate maxEvent ⟨-1, none⟩

/-- `addEvent(fd, ev)` on the slots from the loop index on. -/
def addEvent (fd : Int) (ev : Nat) : List EventStructure → Int × List EventStructure
  | [] => (-1, [])
  | slot :: rest =>
      if slot.fd = -1 then (0, ⟨fd, some ev⟩ :: rest)
      else ((addEvent fd ev rest).1, slot :: (addEvent fd ev rest).2)

/-- `getEvent(fd)` on the slots from the loop index on. Behind the last slot the function ends
without a `return`. -/
def getEvent (fd : Int) : List EventStructure → Option (Option Nat)
  | [] => none
  | slot :: rest => if slot.fd = fd then some slot.ev else getEvent fd rest

/-- The state of the process: the table, the number of `event_new` calls, the connections with the
events that `lfdcb` created for them, the events that are on the tree, the calls on sockets, and
what `getEvent` returned for which descriptor. Nothing is defined any more once `event_del` was
called without an event. -/
structure Server where
  fdArr : List EventStructure
  created : Nat
  owners : List (Int × Nat)
  tree : List Nat
  calls : List (SocketCall Int)
  lookups : List (Int × Option (Option Nat))
  defined : Bool

/-- The process when `event_base_dispatch` is called: event 0 is the listening event. -/
def Server.start (lfd : Int) : Server where
  fdArr := (addEvent lfd 0 initEventArr).2
  created := 1
  owners := []
  tree := [0]
  calls := []
  lookups := []
  defined := true

/-- One more call. -/
def Server.call (s : Server) (c : SocketCall Int) : Server :=
  { s with calls := s.calls ++ [c] }

/-- `lfdcb`, when `Accept` returns `cfd`. What `addEvent` returns is not used. -/
def Server.lfdcb (s : Server) (cfd : Int) : Server :=
  let s := s.call (.accept (some cfd))
  { s with
    fdArr := (addEvent cfd s.created s.fdArr).2
    created := s.created + 1
    owners := s.owners ++ [(cfd, s.created)]
    tree := s.tree ++ [s.created] }

/-- `event_del(getEvent(cfd))` -/
def Server.delete (s : Server) (cfd : Int) : Server :=
  let found := getEvent cfd s.fdArr
  let s := { s with lookups := s.lookups ++ [(cfd, found)] }
  match found with
  | some (some ev) => { s with tree := s.tree.erase ev }
  | _ => { s with defined := false }

/-- `cfdcb`. `Read` has repeated what failed with EINTR. -/
def Server.cfdcb (s : Server) (cfd : Int) (read : Except Ending (Chunk UInt8 1500)) : Server :=
  let s := s.call (.read cfd)
  match read with
  | .error _ => s.delete cfd
  | .ok chunk => s.call (.write cfd chunk.data)

/-- What makes libevent call a callback: a client connects, or a connection can be read. -/
inductive Event where
  | connect (cfd : Int)
  | readable (cfd : Int) (read : Except Ending (Chunk UInt8 1500))

/-- The event of a connection is on the tree. -/
def Server.watches (s : Server) (cfd : Int) : Bool :=
  s.owners.any fun owner => owner.1 = cfd ∧ owner.2 ∈ s.tree

/-- The callback for an event. `accept` returns a descriptor that is not open. -/
def Server.step (lfd : Int) (s : Server) : Event → Option Server
  | .connect cfd =>
      if s.defined ∧ 0 ∈ s.tree ∧ 0 ≤ cfd ∧ cfd ≠ lfd ∧ cfd ∉ connections s.calls then
        some (s.lfdcb cfd)
      else none
  | .readable cfd read =>
      if s.defined ∧ s.watches cfd then some (s.cfdcb cfd read) else none

/-- The descriptors of the connections, in the order in which the clients connect. -/
def connects (events : List Event) : List Int :=
  events.filterMap fun
    | .connect cfd => some cfd
    | .readable _ _ => none

/-- The descriptors for which a read fails or returns 0. -/
def disconnects (events : List Event) : List Int :=
  events.filterMap fun
    | .readable cfd (.error _) => some cfd
    | _ => none

theorem connects_connect (done : List Event) (cfd : Int) :
    connects (done ++ [.connect cfd]) = connects done ++ [cfd] := by
  simp [connects]

/-- `getEvent` returned the event that `lfdcb` created for the connection. -/
def Server.FoundOwn (s : Server) (lookup : Int × Option (Option Nat)) : Prop :=
  ∃ ev, lookup.2 = some (some ev) ∧ (lookup.1, ev) ∈ s.owners

/-! ## The table -/

/-- The table after adding the given events one after the other: the first of them, and unused slots
behind them. -/
def table : Nat → List (Int × Nat) → List EventStructure
  | 0, _ => []
  | slots + 1, [] => ⟨-1, none⟩ :: table slots []
  | slots + 1, owner :: owners => ⟨owner.1, some owner.2⟩ :: table slots owners

theorem table_nil (slots : Nat) : table slots [] = List.replicate slots ⟨-1, none⟩ := by
  induction slots with
  | zero => rfl
  | succ slots ih => rw [table, ih, List.replicate_succ]

/-- Adding an event. When all slots are in use, the table stays as it is. -/
theorem add_event_table (slots : Nat) {owners : List (Int × Nat)}
    (hused : ∀ owner ∈ owners, owner.1 ≠ -1) (fd : Int) (ev : Nat) :
    (addEvent fd ev (table slots owners)).2 = table slots (owners ++ [(fd, ev)]) := by
  induction slots generalizing owners with
  | zero => rfl
  | succ slots ih =>
      cases owners with
      | nil =>
          show (addEvent fd ev (⟨-1, none⟩ :: table slots [])).2 = ⟨fd, some ev⟩ :: table slots []
          rw [addEvent, if_pos rfl]
      | cons owner owners =>
          have hfirst : owner.1 ≠ -1 := hused owner List.mem_cons_self
          have hrest := ih fun other hother => hused other (List.mem_cons_of_mem _ hother)
          rw [table, addEvent, if_neg hfirst, hrest]
          rfl

/-- Looking for an event: the first of those with a slot that was added for the descriptor. -/
theorem get_event_table (slots : Nat) (owners : List (Int × Nat)) {fd : Int} (hfd : fd ≠ -1) :
    getEvent fd (table slots owners) =
      ((owners.take slots).find? fun owner => owner.1 = fd).map fun owner => some owner.2 := by
  induction slots generalizing owners with
  | zero => rfl
  | succ slots ih =>
      cases owners with
      | nil =>
          have hrest := ih []
          rw [List.take_nil] at hrest
          rw [table, getEvent, if_neg hfd.symm, hrest]
          rfl
      | cons owner owners =>
          rw [table, getEvent, List.take_succ_cons, List.find?_cons]
          by_cases heq : owner.1 = fd
          · simp [heq]
          · simp [heq, ih]

/-! ## Runs -/

/-- What a run has done to the state: the table holds the events of the connections in the order in
which they came, no descriptor was given out twice, and what `getEvent` returned is the right event
for the first 1023 connections and for no other. -/
structure Invariant (lfd : Int) (done : List Event) (s : Server) : Prop where
  slots : s.fdArr = table maxEvent ((lfd, 0) :: s.owners)
  owned : s.owners.map Prod.fst = connects done
  opened : connections s.calls = connects done
  apart : (connects done).Nodup
  descriptors : ∀ fd ∈ connects done, 0 ≤ fd ∧ fd ≠ lfd
  asked : s.lookups.map Prod.fst = disconnects done
  known : ∀ lookup ∈ s.lookups, lookup.1 ∈ connects done ∧
    (s.FoundOwn lookup ↔ lookup.1 ∈ (connects done).take (maxEvent - 1))

variable {lfd : Int} {done : List Event} {s next : Server}

/-- The process starts with the listening event in the first slot. -/
theorem invariant_start (lfd : Int) : Invariant lfd [] (.start lfd) := by
  refine ⟨?_, rfl, rfl, List.nodup_nil, by simp [connects], rfl, fun lookup h => by cases h⟩
  have hinit : initEventArr = table maxEvent [] := (table_nil maxEvent).symm
  show (addEvent lfd 0 initEventArr).2 = _
  rw [hinit, add_event_table maxEvent (by simp)]
  rfl

/-- The descriptors that the events of the table were added for. -/
theorem Invariant.used (h : Invariant lfd done s) (hlfd : 0 ≤ lfd) :
    ∀ owner ∈ (lfd, 0) :: s.owners, owner.1 ≠ -1 := by
  intro owner howner
  rcases List.mem_cons.mp howner with rfl | howner
  · show lfd ≠ -1
    omega
  · have hmem := h.owned ▸ List.mem_map_of_mem howner
    have := (h.descriptors _ hmem).1
    omega

/-- An old descriptor is not the new one, so it is as early in the list of connections as before. -/
theorem mem_take_concat {fd cfd : Int} {fds : List Int} (n : Nat) (h : fd ∈ fds)
    (hnew : cfd ∉ fds) : fd ∈ (fds ++ [cfd]).take n ↔ fd ∈ fds.take n := by
  rw [List.take_append, List.mem_append]
  refine or_iff_left fun hmem => hnew ?_
  rwa [← List.mem_singleton.mp (List.mem_of_mem_take hmem)]

/-- A client connects. -/
theorem Invariant.connect {cfd : Int} (h : Invariant lfd done s) (hlfd : 0 ≤ lfd)
    (hstep : s.step lfd (.connect cfd) = some next) :
    Invariant lfd (done ++ [.connect cfd]) next := by
  obtain ⟨⟨-, -, hpos, hne, hfresh⟩, rfl⟩ := eq_of_guarded hstep
  rw [h.opened] at hfresh
  have hconnects := connects_connect done cfd
  have hdisconnects : disconnects (done ++ [.connect cfd]) = disconnects done := by
    simp [disconnects]
  refine ⟨?_, ?_, ?_, ?_, ?_, ?_, ?_⟩
  · show (addEvent cfd s.created s.fdArr).2 = _
    rw [h.slots, add_event_table maxEvent (h.used hlfd)]
    rfl
  · show (s.owners ++ [(cfd, s.created)]).map Prod.fst = _
    rw [hconnects, List.map_append, h.owned]
    rfl
  · show connections (s.calls ++ [.accept (some cfd)]) = _
    rw [hconnects, connections_concat, h.opened]
    rfl
  · rw [hconnects, List.nodup_append_comm]
    exact List.nodup_cons.mpr ⟨hfresh, h.apart⟩
  · rw [hconnects]
    intro fd hfd
    rcases List.mem_append.mp hfd with hfd | hfd
    · exact h.descriptors fd hfd
    · rw [List.mem_singleton.mp hfd]
      exact ⟨hpos, hne⟩
  · rw [hdisconnects]
    exact h.asked
  · intro lookup hlookup
    obtain ⟨hmem, hfound⟩ := h.known lookup hlookup
    rw [hconnects, mem_take_concat _ hmem hfresh, ← hfound]
    refine ⟨List.mem_append_left _ hmem, ?_⟩
    -- the new event belongs to another descriptor
    have howner : ∀ ev, (lookup.1, ev) ∈ s.owners ++ [(cfd, s.created)] ↔
        (lookup.1, ev) ∈ s.owners := by
      intro ev
      rw [List.mem_append]
      refine or_iff_left fun hnew => hfresh ?_
      have heq : lookup.1 = cfd := congrArg Prod.fst (List.mem_singleton.mp hnew)
      exact heq ▸ hmem
    exact exists_congr fun ev => and_congr_right fun _ => howner ev

/-- What `getEvent` finds for a connection. -/
theorem Invariant.lookup (h : Invariant lfd done s) {cfd : Int} (hmem : cfd ∈ connects done) :
    s.FoundOwn (cfd, getEvent cfd s.fdArr) ↔ cfd ∈ (connects done).take (maxEvent - 1) := by
  obtain ⟨hpos, hne⟩ := h.descriptors cfd hmem
  have hfound : getEvent cfd s.fdArr =
      ((s.owners.take (maxEvent - 1)).find? fun owner => owner.1 = cfd).map
        fun owner => some owner.2 := by
    have hskip : ¬ lfd = cfd := fun heq => hne heq.symm
    rw [h.slots, get_event_table maxEvent _ (by omega)]
    show Option.map _ (((lfd, 0) :: s.owners.take (maxEvent - 1)).find? _) = _
    rw [List.find?_cons]
    simp [hskip]
  have htake : (connects done).take (maxEvent - 1) =
      (s.owners.take (maxEvent - 1)).map Prod.fst := by
    rw [← h.owned, List.map_take]
  rw [Server.FoundOwn, htake, hfound]
  constructor
  · rintro ⟨ev, heq, -⟩
    obtain ⟨owner, hfind, -⟩ := Option.map_eq_some_iff.mp heq
    have hfd : owner.1 = cfd := by simpa using List.find?_some hfind
    exact hfd ▸ List.mem_map_of_mem (List.mem_of_find?_eq_some hfind)
  · intro hfd
    obtain ⟨owner, howner, heq⟩ := List.mem_map.mp hfd
    obtain ⟨found, hfind⟩ : ∃ found, (s.owners.take (maxEvent - 1)).find?
        (fun owner => owner.1 = cfd) = some found :=
      Option.isSome_iff_exists.mp (List.find?_isSome.mpr ⟨owner, howner, by simpa using heq⟩)
    have hown : found.1 = cfd := by simpa using List.find?_some hfind
    refine ⟨found.2, by rw [hfind]; rfl, ?_⟩
    show (cfd, found.2) ∈ s.owners
    rw [← hown]
    exact List.mem_of_mem_take (List.mem_of_find?_eq_some hfind)

/-- A callback for a connection that stays: only the calls change. -/
theorem Invariant.of_same {event : Event} (h : Invariant lfd done s)
    (hslots : next.fdArr = s.fdArr) (howners : next.owners = s.owners)
    (hlookups : next.lookups = s.lookups) (hcalls : connections next.calls = connections s.calls)
    (hconnects : connects (done ++ [event]) = connects done)
    (hdisconnects : disconnects (done ++ [event]) = disconnects done) :
    Invariant lfd (done ++ [event]) next := by
  refine ⟨?_, ?_, ?_, ?_, ?_, ?_, ?_⟩
  · rw [hslots, howners, h.slots]
  · rw [howners, hconnects, h.owned]
  · rw [hcalls, hconnects, h.opened]
  · exact hconnects ▸ h.apart
  · exact hconnects ▸ h.descriptors
  · rw [hlookups, hdisconnects, h.asked]
  · rw [hlookups, hconnects]
    unfold Server.FoundOwn
    rw [howners]
    exact h.known

/-- A connection can be read. -/
theorem Invariant.readable {cfd : Int} {read : Except Ending (Chunk UInt8 1500)}
    (h : Invariant lfd done s) (hstep : s.step lfd (.readable cfd read) = some next) :
    Invariant lfd (done ++ [.readable cfd read]) next := by
  obtain ⟨⟨-, hwatches⟩, rfl⟩ := eq_of_guarded hstep
  have hconnects : connects (done ++ [.readable cfd read]) = connects done := by
    simp [connects]
  have hmem : cfd ∈ connects done := by
    obtain ⟨owner, howner, hown⟩ := List.any_eq_true.mp hwatches
    have heq : owner.1 = cfd := (decide_eq_true_eq.mp hown).1
    exact heq ▸ h.owned ▸ List.mem_map_of_mem howner
  cases read with
  | ok chunk =>
      refine h.of_same rfl rfl rfl ?_ hconnects (by simp [disconnects])
      show connections (s.calls ++ [.read cfd] ++ [.write cfd chunk.data]) = _
      rw [connections_concat, connections_concat]
      rfl
  | error ending =>
      -- `getEvent` is called, and nothing but the lookups and the tree changes
      have hdelete : (s.cfdcb cfd (.error ending)).fdArr = s.fdArr ∧
          (s.cfdcb cfd (.error ending)).owners = s.owners ∧
          (s.cfdcb cfd (.error ending)).calls = s.calls ++ [.read cfd] ∧
          (s.cfdcb cfd (.error ending)).lookups =
            s.lookups ++ [(cfd, getEvent cfd s.fdArr)] := by
        unfold Server.cfdcb Server.delete
        simp only [Server.call]
        split <;> exact ⟨rfl, rfl, rfl, rfl⟩
      obtain ⟨hslots, howners, hcalls, hlookups⟩ := hdelete
      have hdisconnects : disconnects (done ++ [.readable cfd (.error ending)]) =
          disconnects done ++ [cfd] := by
        simp [disconnects]
      refine ⟨?_, ?_, ?_, hconnects ▸ h.apart, hconnects ▸ h.descriptors, ?_, ?_⟩
      · rw [hslots, howners, h.slots]
      · rw [howners, hconnects, h.owned]
      · rw [hcalls, hconnects, connections_concat, ← h.opened]
        rfl
      · rw [hlookups, hdisconnects, List.map_append, h.asked]
        rfl
      · rw [hlookups, hconnects]
        unfold Server.FoundOwn
        rw [howners]
        intro lookup hlookup
        rcases List.mem_append.mp hlookup with hlookup | hlookup
        · exact h.known lookup hlookup
        · rw [List.mem_singleton.mp hlookup]
          exact ⟨hmem, h.lookup hmem⟩

/-- What holds of every run. -/
theorem run_invariant (hlfd : 0 ≤ lfd) {events : List Event}
    (hrun : runEvents (Server.step lfd) (.start lfd) events = some s) :
    Invariant lfd events s := by
  refine run_events_induction (Invariant lfd) (invariant_start lfd) ?_ hrun
  intro done s event next hs hstep
  cases event with
  | connect cfd => exact hs.connect hlfd hstep
  | readable cfd read => exact hs.readable hstep

/-- Which lookups are right. In every run, with any order and number of connects and disconnects:
every `getEvent` returned the event that `lfdcb` created for the same connection if and only if
every connection for which `getEvent` was called is one of the first 1023 that were accepted. -/
theorem lookups_right_iff (hlfd : 0 ≤ lfd) {events : List Event}
    (hrun : runEvents (Server.step lfd) (.start lfd) events = some s) :
    (∀ lookup ∈ s.lookups, s.FoundOwn lookup) ↔
      ∀ cfd ∈ disconnects events, cfd ∈ (connects events).take 1023 := by
  have h := run_invariant hlfd hrun
  rw [← h.asked, List.forall_mem_map]
  exact forall₂_congr fun lookup hlookup => (h.known lookup hlookup).2

/-- One connection, which ends. -/
theorem lookups_right_one :
    ∃ s, runEvents (Server.step 3) (.start 3) [.connect 7, .readable 7 (.error .eof)] = some s ∧
      ∀ lookup ∈ s.lookups, s.FoundOwn lookup := by
  have hrun : ∃ s, runEvents (Server.step 3) (.start 3)
      [.connect 7, .readable 7 (.error .eof)] = some s := ⟨_, rfl⟩
  obtain ⟨s, hrun⟩ := hrun
  exact ⟨s, hrun, (lookups_right_iff (by decide) hrun).mpr (by decide)⟩

/-! ## The connection that finds no slot -/

/-- A new connection is watched, and so are the others. -/
theorem watches_lfdcb {cfd fd : Int} (h : fd = cfd ∨ s.watches fd = true) :
    (s.lfdcb cfd).watches fd = true := by
  rcases h with rfl | h
  · refine List.any_eq_true.mpr ⟨(fd, s.created), List.mem_append_right _ ?_, ?_⟩
    · exact List.mem_singleton_self _
    · simp [Server.lfdcb, Server.call]
  · obtain ⟨owner, howner, hown⟩ := List.any_eq_true.mp h
    obtain ⟨hfd, htree⟩ := decide_eq_true_eq.mp hown
    refine List.any_eq_true.mpr ⟨owner, List.mem_append_left _ howner, decide_eq_true_eq.mpr ?_⟩
    exact ⟨hfd, List.mem_append_left _ htree⟩

/-- Any number of clients can connect one after the other. -/
theorem run_arrivals {fds : List Int} (hs : Invariant lfd done s) (hlfd : 0 ≤ lfd)
    (hdefined : s.defined = true) (htree : 0 ∈ s.tree) (hnodup : fds.Nodup)
    (hfds : ∀ fd ∈ fds, 0 ≤ fd ∧ fd ≠ lfd ∧ fd ∉ connects done) :
    ∃ next, runEvents (Server.step lfd) s (fds.map .connect) = some next ∧
      next.defined = true ∧ ∀ fd, fd ∈ fds ∨ s.watches fd = true → next.watches fd = true := by
  induction fds generalizing s done with
  | nil => exact ⟨s, rfl, hdefined, fun fd h => h.resolve_left List.not_mem_nil⟩
  | cons cfd fds ih =>
      obtain ⟨hpos, hne, hfresh⟩ := hfds cfd List.mem_cons_self
      obtain ⟨hnot, hnodup⟩ := List.nodup_cons.mp hnodup
      have hstep : s.step lfd (.connect cfd) = some (s.lfdcb cfd) :=
        if_pos ⟨hdefined, htree, hpos, hne, hs.opened ▸ hfresh⟩
      have hrest : ∀ fd ∈ fds, 0 ≤ fd ∧ fd ≠ lfd ∧ fd ∉ connects (done ++ [.connect cfd]) := by
        intro fd hfd
        obtain ⟨hpos, hne, hfresh⟩ := hfds fd (List.mem_cons_of_mem _ hfd)
        have hother : fd ≠ cfd := fun heq => hnot (heq ▸ hfd)
        rw [connects_connect]
        exact ⟨hpos, hne, by simpa using ⟨hfresh, hother⟩⟩
      obtain ⟨next, hrun, hnext, hwatches⟩ := ih (hs.connect hlfd hstep) hdefined
        (List.mem_append_left _ htree) hnodup hrest
      refine ⟨next, run_events_cons.mpr ⟨_, hstep, hrun⟩, hnext, fun fd h => hwatches fd ?_⟩
      rcases h with h | h
      · rcases List.mem_cons.mp h with rfl | h
        · exact .inr (watches_lfdcb (.inl rfl))
        · exact .inl h
      · exact .inr (watches_lfdcb (.inr h))

/-- The descriptors of the first `n` connections of a process in which 3 is the listening one. -/
def firstFds (n : Nat) : List Int :=
  (List.range n).map fun i : Nat => (i : Int) + 4

theorem mem_firstFds {n : Nat} {fd : Int} : fd ∈ firstFds n ↔ 4 ≤ fd ∧ fd < n + 4 := by
  simp only [firstFds, List.mem_map, List.mem_range]
  exact ⟨fun ⟨i, hi, heq⟩ => by omega, fun h => ⟨(fd - 4).toNat, by omega, by omega⟩⟩

/-- The 1024th connection has no slot, and when it ends its event is not found. -/
theorem lookups_right_overflow :
    ¬ ∀ (lfd : Int) (events : List Event) (s : Server), 0 ≤ lfd →
      runEvents (Server.step lfd) (.start lfd) events = some s →
      ∀ lookup ∈ s.lookups, s.FoundOwn lookup := by
  intro hall
  have hnodup : (firstFds 1024).Nodup := List.nodup_range.map fun i j heq => by
    have heq : (i : Int) + 4 = j + 4 := heq
    omega
  have hfds : ∀ fd ∈ firstFds 1024, 0 ≤ fd ∧ fd ≠ 3 ∧ fd ∉ connects [] := by
    intro fd hfd
    obtain ⟨hlow, -⟩ := mem_firstFds.mp hfd
    exact ⟨by omega, by omega, List.not_mem_nil⟩
  obtain ⟨s, harrive, hdefined, hwatches⟩ :=
    run_arrivals (invariant_start 3) (by decide) rfl (List.mem_singleton_self 0) hnodup hfds
  have hlast : s.watches 1027 = true := hwatches 1027 (.inl (mem_firstFds.mpr (by decide)))
  have hstep : runEvents (Server.step 3) s [.readable 1027 (.error .eof)] =
      some (s.cfdcb 1027 (.error .eof)) :=
    run_events_cons.mpr ⟨_, if_pos ⟨hdefined, hlast⟩, rfl⟩
  have hrun := run_events_append harrive hstep
  have hinv := run_invariant (by decide) hrun
  have hconnects : connects ((firstFds 1024).map .connect ++ [.readable 1027 (.error .eof)]) =
      firstFds 1024 := by
    simp [connects, List.filterMap_map]
  have hdisconnects : 1027 ∈
      disconnects ((firstFds 1024).map .connect ++ [.readable 1027 (.error .eof)]) := by
    simp [disconnects]
  -- the lookup of the last connection would have to be one of the first 1023
  rw [← hinv.asked] at hdisconnects
  obtain ⟨lookup, hlookup, heq⟩ := List.mem_map.mp hdisconnects
  have hfirst := (hinv.known lookup hlookup).2.mp (hall 3 _ _ (by decide) hrun lookup hlookup)
  have htake : (firstFds 1024).take (maxEvent - 1) = firstFds 1023 := by
    rw [firstFds, ← List.map_take, List.take_range]
    rfl
  rw [hconnects, htake, heq] at hfirst
  exact absurd (mem_firstFds.mp hfirst).2 (by decide)

end UnixNet.Libevent
