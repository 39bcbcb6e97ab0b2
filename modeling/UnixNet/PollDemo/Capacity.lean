import Mathlib.Data.Finset.Card
import Mathlib.Order.Interval.Finset.Nat
import UnixNet.PollDemo.SlotTable

/-!
# When the poll server gives up

`perr_exit` ends the server when a read or a close fails, when `Accept` does, and with "too many
clients" when the search for an unused slot fails. In rounds in which no call fails only the last is
left. `goes_on_iff` says when it happens: slots that clients have left are all found again, and so
the server gives up if and only if it is asked to take one more client while all 1023 slots belong
to open connections.
-/

namespace UnixNet.PollDemo

open NetLib

/-- In the round `Accept` succeeds, no close fails, and a read fails with ECONNRESET only. -/
structure Healthy (k : Round) : Prop where
  accept : k.accept ≠ none
  read : ∀ i errno, k.read i = .error (.fail errno) → errno = econnreset
  close : ∀ i, k.closeFails i = false

/-- The slots in use. -/
def Server.used (s : Server) : Finset Nat :=
  (Finset.Ico 1 openMax).filter fun i => 0 ≤ (s.client i).fd

/-- The number of open connections. -/
def Server.clients (s : Server) : Nat :=
  (connections s.calls).toFinset.card

variable {listenfd : Int} {s : Server} {k : Round}

/-! ## Slots -/

/-- There are as many slots in use as open connections. -/
theorem Invariant.clients_eq (h : Invariant listenfd s) : s.clients = s.used.card := by
  have hinj : Set.InjOn (fun i => (s.client i).fd) s.used := by
    intro i hi j hj heq
    obtain ⟨hrange, hused⟩ := Finset.mem_filter.mp hi
    obtain ⟨hlow, hhigh⟩ := Finset.mem_Ico.mp hrange
    obtain ⟨hlow', hhigh'⟩ := Finset.mem_Ico.mp (Finset.mem_filter.mp hj).1
    exact h.apart i j hlow hhigh hlow' hhigh' hused heq
  have himage : s.used.image (fun i => (s.client i).fd) = (connections s.calls).toFinset := by
    ext fd
    rw [Finset.mem_image, List.mem_toFinset]
    constructor
    · rintro ⟨i, hi, rfl⟩
      obtain ⟨hrange, hused⟩ := Finset.mem_filter.mp hi
      obtain ⟨hlow, hhigh⟩ := Finset.mem_Ico.mp hrange
      exact (h.held i hlow hhigh hused).1
    · intro hfd
      obtain ⟨hpos, i, hlow, hle, rfl⟩ := h.found fd hfd
      have hlt := Nat.lt_of_le_of_lt hle h.maxi_lt
      exact ⟨i, Finset.mem_filter.mpr ⟨Finset.mem_Ico.mpr ⟨hlow, hlt⟩, hpos⟩, rfl⟩
  rw [Server.clients, ← himage, Finset.card_image_of_injOn hinj]

/-- There are no more open connections than slots. -/
theorem Invariant.clients_le (h : Invariant listenfd s) : s.clients ≤ openMax - 1 := by
  rw [h.clients_eq, ← Nat.card_Ico 1 openMax]
  exact Finset.card_filter_le _ _

/-- The search for a slot fails if and only if every slot belongs to an open connection. -/
theorem Invariant.full_iff (h : Invariant listenfd s) :
    s.freeSlot = openMax ↔ s.clients = openMax - 1 := by
  obtain ⟨hlow, hhigh, hfree, hbelow⟩ := s.free_slot_spec
  rw [h.clients_eq, ← Nat.card_Ico 1 openMax]
  constructor
  · intro hfull
    refine congrArg Finset.card (Finset.filter_true_of_mem fun i hi => ?_)
    obtain ⟨hi, hlt⟩ := Finset.mem_Ico.mp hi
    exact hbelow i hi (hfull ▸ hlt)
  · intro hcard
    have hall := Finset.eq_of_subset_of_card_le (Finset.filter_subset _ _) hcard.ge
    by_contra hne
    -- the slot that was found is one of those in use
    have hslot : s.freeSlot ∈ s.used := by
      rw [Server.used, hall]
      exact Finset.mem_Ico.mpr ⟨hlow, Nat.lt_of_le_of_ne hhigh hne⟩
    have hused := (Finset.mem_filter.mp hslot).2
    exact absurd (hfree (Nat.lt_of_le_of_ne hhigh hne)) (Int.not_lt.mpr hused)

/-! ## Rounds -/

/-- Serving a slot does not end the server. -/
theorem Healthy.serve_slot (h : Healthy k) (s : Server) (i : Nat) :
    (s.serveSlot k i).1 = true := by
  have hdisconnect : ∀ t : Server, (t.disconnect k i).1 = true := by
    intro t
    rw [Server.disconnect, h.close i]
    rfl
  unfold Server.serveSlot
  split
  · next errno hread =>
      rw [if_pos (h.read i errno hread)]
      exact hdisconnect _
  · exact hdisconnect _
  · rfl

/-- Neither does the scan. -/
theorem Healthy.scan (h : Healthy k) (slots : List Nat) (nready : Int) (s : Server) :
    (PollDemo.scan k slots nready s).1 = true := by
  induction slots generalizing nready s with
  | nil => rfl
  | cons i rest ih =>
      have hserved := h.serve_slot s i
      rw [PollDemo.scan]
      split
      · exact ih nready s
      · split
        · exact ih nready s
        · generalize s.serveSlot k i = result at hserved ⊢
          obtain ⟨goes, t⟩ := result
          obtain rfl : goes = true := hserved
          dsimp only
          split
          · rfl
          · exact ih _ t

/-- A new connection is refused if and only if the search for a slot fails. -/
theorem save_fst (s : Server) (connfd : Int) :
    (s.save connfd).1 = true ↔ s.freeSlot ≠ openMax := by
  unfold Server.save
  dsimp only
  split
  · next hfull => exact iff_of_false Bool.false_ne_true (not_not_intro hfull)
  · next hfound => exact iff_of_true rfl hfound

/-- The branch for a connection request. -/
theorem Healthy.accept_iff (h : Healthy k) (s : Server) (nready : Int) :
    (s.accept k nready).1 = true ↔ s.freeSlot ≠ openMax := by
  obtain ⟨connfd, hconnfd⟩ := Option.ne_none_iff_exists'.mp h.accept
  rw [← show (s.call (.accept (some connfd))).freeSlot = s.freeSlot from rfl,
    ← save_fst _ connfd, Server.accept, hconnfd]
  dsimp only
  generalize (s.call (.accept (some connfd))).save connfd = result
  obtain ⟨goes, t⟩ := result
  cases goes with
  | false => exact Iff.rfl
  | true =>
      refine iff_of_true ?_ rfl
      dsimp only
      split
      · rfl
      · exact h.scan _ _ t

/-- In a round in which no call fails, the server goes on if and only if no connection request is
seen, or fewer than 1023 connections are open. -/
theorem goes_on_iff {listenfd : Int} {stale : Nat → Pollfd} {s : Server}
    (hreach : Reachable listenfd stale s) {k : Round} (hhealthy : Healthy k) :
    (s.iterate k).1 = true ↔
      ((s.poll k.poll).2.client 0).revents &&& pollin = 0 ∨ s.clients < openMax - 1 := by
  have hinv := (reachable_inv hreach).poll k.poll
  have hclients : (s.poll k.poll).2.clients = s.clients := by
    cases k.poll with
    | failed => rfl
    | ready reported => rfl
  have hfull := hinv.full_iff
  have hle := hinv.clients_le
  rw [hclients] at hfull hle
  unfold Server.iterate
  generalize s.poll k.poll = polled at hfull ⊢
  obtain ⟨nready, t⟩ := polled
  dsimp only at hfull ⊢
  by_cases hseen : (t.client 0).revents &&& pollin = 0
  · rw [if_neg (not_not_intro hseen)]
    exact iff_of_true (hhealthy.scan _ _ t) (.inl hseen)
  · rw [if_pos hseen, hhealthy.accept_iff, Ne, hfull, or_iff_right hseen]
    omega

/-- With one client connected, the server takes another one. -/
theorem goes_on_second_client :
    (firstClient.iterate { firstRound with accept := some 5 }).1 = true ↔
      ((firstClient.poll firstRound.poll).2.client 0).revents &&& pollin = 0 ∨
        firstClient.clients < openMax - 1 :=
  goes_on_iff first_client_reachable
    ⟨nofun, nofun, fun _ => rfl⟩

end UnixNet.PollDemo
