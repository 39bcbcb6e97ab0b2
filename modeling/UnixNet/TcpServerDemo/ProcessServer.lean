import Mathlib.Data.Finset.Max
import Mathlib.Data.List.Nodup
import UnixNet.Lib.Execution

/-!
# The signal handler of the process server

`process_tcp_server.c` forks a child for every client, and reaps the children in `Fun`, its handler
for SIGCHLD. `Fun` calls `waitpid` until it returns -1, which it does when there are no children;
while children run and none has exited it returns 0. `fun_reaps_iff` says when the handler ends with
the exited children reaped.
-/

namespace UnixNet.TcpServerDemo

open NetLib

/-- The children of the server: those that have exited and are not reaped, and those that run. -/
structure Children where
  exited : Finset Nat
  running : Finset Nat
  apart : Disjoint exited running

/-- Which of the exited children `waitpid` takes. No choice is made twice, since the child is gone
then. -/
structure WaitOrder where
  pick : Finset Nat → Nat
  pick_mem : ∀ exited, exited.Nonempty → pick exited ∈ exited

/-- A child is reaped. -/
def Children.reap (c : Children) (pid : Nat) : Children where
  exited := c.exited.erase pid
  running := c.running
  apart := Finset.disjoint_of_subset_left (Finset.erase_subset _ _) c.apart

/-- `waitpid(-1, NULL, WNOHANG)` -/
def waitpid (order : WaitOrder) (c : Children) : Int × Children :=
  if c.exited.Nonempty then (order.pick c.exited, c.reap (order.pick c.exited))
  else if c.running.Nonempty then (0, c)
  else (-1, c)

/-- The children, and the numbers that `Fun` has printed as those of reaped children. -/
structure Handler where
  children : Children
  printed : List Int

/-- A round of the loop of `Fun`. The flag says that the loop goes on. -/
def funRound (order : WaitOrder) (s : Handler) : Bool × Handler :=
  let (pid, children) := waitpid order s.children
  if pid = -1 then (false, { s with children := children })
  else (true, ⟨children, s.printed ++ [pid]⟩)

/-- The handler ends after finitely many calls, every child that had exited is reaped once, and no
other. -/
def Reaps (order : WaitOrder) (c : Children) : Prop :=
  ∃ fuel final, whileLoop (funRound order) fuel ⟨c, []⟩ = some final ∧
    final.children.exited = ∅ ∧ final.children.running = c.running ∧ final.printed.Nodup ∧
      ∀ pid, pid ∈ final.printed ↔ ∃ n ∈ c.exited, pid = n

/-! ## The round -/

variable {order : WaitOrder} {c : Children} {s : Handler}

/-- A child that has exited is reaped. -/
theorem fun_round_exited (h : s.children.exited.Nonempty) :
    funRound order s = (true, ⟨s.children.reap (order.pick s.children.exited),
      s.printed ++ [(order.pick s.children.exited : Int)]⟩) := by
  have hpid : ¬ (order.pick s.children.exited : Int) = -1 := by omega
  rw [funRound, waitpid, if_pos h]
  exact if_neg hpid

/-- While children run, the loop goes on. -/
theorem fun_round_running (h : s.children.exited = ∅) (hrun : s.children.running.Nonempty) :
    funRound order s = (true, ⟨s.children, s.printed ++ [0]⟩) := by
  rw [funRound, waitpid, if_neg (by rw [h]; exact Finset.not_nonempty_empty), if_pos hrun]
  rfl

/-- Without children the loop ends. -/
theorem fun_round_none (h : s.children.exited = ∅) (hrun : s.children.running = ∅) :
    funRound order s = (false, s) := by
  rw [funRound, waitpid, if_neg (by rw [h]; exact Finset.not_nonempty_empty),
    if_neg (by rw [hrun]; exact Finset.not_nonempty_empty)]
  rfl

/-- What every round of a handler without running children keeps: a child that had exited is either
still there or has been printed. -/
structure Handler.Inv (s : Handler) (c : Children) : Prop where
  running_eq : s.children.running = ∅
  nodup : s.printed.Nodup
  mem_iff : ∀ n : Nat, n ∈ c.exited ↔ n ∈ s.children.exited ∨ (n : Int) ∈ s.printed
  not_both : ∀ n ∈ s.children.exited, (n : Int) ∉ s.printed
  printed_nat : ∀ pid ∈ s.printed, ∃ n : Nat, pid = n

theorem Handler.Inv.start (h : c.running = ∅) : Handler.Inv ⟨c, []⟩ c where
  running_eq := h
  nodup := List.nodup_nil
  mem_iff := by simp
  not_both := by simp
  printed_nat := by simp

/-- A round that reaps a child. -/
theorem Handler.Inv.reap {n : Nat} (h : s.Inv c) (hn : n ∈ s.children.exited) :
    Handler.Inv ⟨s.children.reap n, s.printed ++ [(n : Int)]⟩ c where
  running_eq := h.running_eq
  nodup := by
    refine List.Nodup.append h.nodup (List.nodup_singleton _) ?_
    rw [List.disjoint_singleton]
    exact h.not_both n hn
  mem_iff := by
    intro m
    rw [h.mem_iff m]
    show _ ↔ m ∈ s.children.exited.erase n ∨ (m : Int) ∈ s.printed ++ [(n : Int)]
    rw [Finset.mem_erase, List.mem_append, List.mem_singleton, Int.natCast_inj]
    by_cases heq : m = n
    · simp [heq, hn]
    · simp [heq]
  not_both := by
    intro m hm
    obtain ⟨hne, hexited⟩ := Finset.mem_erase.mp hm
    rw [List.mem_append, List.mem_singleton, Int.natCast_inj, not_or]
    exact ⟨h.not_both m hexited, hne⟩
  printed_nat := by
    intro pid hpid
    rcases List.mem_append.mp hpid with hold | hnew
    · exact h.printed_nat pid hold
    · exact ⟨n, List.mem_singleton.mp hnew⟩

/-- The rounds keep the invariant and take one child each. -/
theorem Handler.Inv.round (h : s.Inv c) (hgoes : (funRound order s).1 = true) :
    (funRound order s).2.Inv c ∧
      (funRound order s).2.children.exited.card < s.children.exited.card := by
  rcases s.children.exited.eq_empty_or_nonempty with hnone | hsome
  · rw [fun_round_none hnone h.running_eq] at hgoes
    cases hgoes
  · have hpick := order.pick_mem _ hsome
    rw [fun_round_exited hsome]
    exact ⟨h.reap hpick, Finset.card_erase_lt_of_mem hpick⟩

/-- While a child runs, the handler does not end. -/
theorem fun_not_terminates (order : WaitOrder) (hsome : c.running.Nonempty) :
    ¬ Terminates (funRound order) ⟨c, []⟩ := by
  refine not_terminates_of_invariant (fun s : Handler => s.children.running.Nonempty)
    (fun s hs => ?_) hsome
  -- a round reaps an exited child or gets 0, and goes on in both cases
  rcases s.children.exited.eq_empty_or_nonempty with hempty | hexited
  · rw [fun_round_running hempty hs]
    exact ⟨rfl, hs⟩
  · rw [fun_round_exited hexited]
    exact ⟨rfl, hs⟩

/-- The handler ends with the exited children reaped if and only if no child runs. -/
theorem fun_reaps_iff (order : WaitOrder) (c : Children) : Reaps order c ↔ c.running = ∅ := by
  refine ⟨fun ⟨fuel, final, hrun, _⟩ => ?_, fun hnone => ?_⟩
  · by_contra hsome
    exact fun_not_terminates order (Finset.nonempty_iff_ne_empty.mpr hsome) ⟨fuel, final, hrun⟩
  · obtain ⟨fuel, final, hrun⟩ := Terminates.of_measure (fun s : Handler => s.Inv c)
      (fun s => s.children.exited.card) (fun s hs hgoes => hs.round hgoes) (.start hnone)
    obtain ⟨last, hlast, hexit, hfinal⟩ := while_loop_invariant (fun s : Handler => s.Inv c)
      (fun s hs hgoes => (hs.round hgoes).1) (.start hnone) hrun
    -- the round that ends the loop has found no exited child
    have hempty : last.children.exited = ∅ := by
      by_contra hnot
      rw [fun_round_exited (Finset.nonempty_iff_ne_empty.mpr hnot)] at hexit
      cases hexit
    rw [fun_round_none hempty hlast.running_eq] at hfinal
    cases hfinal
    refine ⟨fuel, last, hrun, hempty, hlast.running_eq.trans hnone.symm, hlast.nodup, ?_⟩
    intro pid
    refine ⟨fun hpid => ?_, fun ⟨n, hn, heq⟩ => ?_⟩
    · obtain ⟨n, rfl⟩ := hlast.printed_nat pid hpid
      exact ⟨n, (hlast.mem_iff n).mpr (.inr hpid), rfl⟩
    · rcases (hlast.mem_iff n).mp hn with hexited | hprinted
      · rw [hempty] at hexited
        cases hexited
      · exact heq ▸ hprinted

/-- The least of the exited children is taken. -/
def leastFirst : WaitOrder where
  pick exited := if h : exited.Nonempty then exited.min' h else 0
  pick_mem exited h := by
    rw [dif_pos h]
    exact exited.min'_mem h

/-- One child has exited, another one runs. -/
theorem fun_not_reaps : ¬ Reaps leastFirst ⟨{7}, {8}, by decide⟩ :=
  fun ⟨fuel, final, hrun, _⟩ =>
    fun_not_terminates leastFirst (Finset.singleton_nonempty 8) ⟨fuel, final, hrun⟩

end UnixNet.TcpServerDemo
