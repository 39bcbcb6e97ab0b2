import Mathlib.Data.List.Infix
import UnixNet.Lib.Execution

/-!
# One-way connections

What a relay owes to the two peers it stands between, for one direction. A `Conduit` knows what one
peer has sent and what the other one was given, whether the end towards the other peer is still
open, and whether an end or a failure was reported there (`broken`). Steps send, deliver, report and
close; the end is closed only after a report or when nothing is left to deliver. So what was
delivered is always the beginning of what was sent, and all of it once the end is closed without a
report (`Conduit.Reliable`).
-/

namespace NetLib

/-- One direction of a relayed connection. -/
structure Conduit (α : Type*) where
  sent : List α
  delivered : List α
  isOpen : Bool
  broken : Bool

variable {α : Type*}

/-- Nothing was sent yet. -/
def Conduit.fresh : Conduit α :=
  ⟨[], [], true, false⟩

/-- What can happen to a direction. -/
inductive Conduit.Step : Conduit α → Conduit α → Prop
  | send (c : Conduit α) (data : List α) (hopen : c.isOpen = true) :
      Step c { c with sent := c.sent ++ data }
  | deliver (c : Conduit α) (data : List α) (hsent : c.delivered ++ data <+: c.sent) :
      Step c { c with delivered := c.delivered ++ data }
  | report (c : Conduit α) :
      Step c { c with broken := true }
  | close (c : Conduit α) (hdone : c.broken = true ∨ c.delivered = c.sent) :
      Step c { c with isOpen := false }

/-- Nothing is lost, duplicated or reordered, and nothing is left behind when the end is closed
without a report. -/
structure Conduit.Reliable (c : Conduit α) : Prop where
  in_order : c.delivered <+: c.sent
  complete : c.isOpen = false → c.broken = false → c.delivered = c.sent

variable {c next : Conduit α}

theorem Conduit.Reliable.fresh : (Conduit.fresh : Conduit α).Reliable where
  in_order := List.nil_prefix
  complete := fun h => nomatch h

/-- Every step keeps a direction reliable. -/
theorem Conduit.Reliable.step (h : c.Reliable) (hstep : c.Step next) : next.Reliable := by
  cases hstep with
  | send data hopen =>
      refine ⟨h.in_order.trans (List.prefix_append _ _), fun hclosed => ?_⟩
      rw [hopen] at hclosed
      cases hclosed
  | deliver data hsent =>
      refine ⟨hsent, fun hclosed hwhole => ?_⟩
      have hsame : c.delivered = c.sent := h.complete hclosed hwhole
      have hnone : data = [] := by
        have := hsent.length_le
        rw [hsame, List.length_append] at this
        exact List.eq_nil_of_length_eq_zero (by omega)
      rw [hnone, List.append_nil]
      exact hsame
  | report => exact ⟨h.in_order, fun _ hwhole => nomatch hwhole⟩
  | close hdone =>
      refine ⟨h.in_order, fun _ hwhole => ?_⟩
      rcases hdone with hbroken | hsame
      · rw [hbroken] at hwhole
        cases hwhole
      · exact hsame

/-- A direction stays as it is or makes one step. -/
def Conduit.Moves (c next : Conduit α) : Prop :=
  next = c ∨ c.Step next

/-- A direction that only moves stays reliable. -/
theorem Conduit.Reliable.moves (h : c.Reliable) (hmoves : c.Moves next) : next.Reliable := by
  rcases hmoves with rfl | hstep
  · exact h
  · exact h.step hstep

end NetLib
