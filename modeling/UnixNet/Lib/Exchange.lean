import Mathlib.Data.List.Basic
import Mathlib.Logic.Relation
import Mathlib.Tactic.Common

/-!
# One request at a time

A client that asks, waits for the answer and only then asks again, over a network that may lose what
is sent. There is one message of the exchange at a time, wherever it is (`Token`), so that the
answers that the client has got are those to its first requests (`Exchange.got_eq`). Once its
message is lost, the exchange never goes on (`Exchange.stopped_stays`). Requests and answers are of
any type.
-/

namespace NetLib

/-- Where the exchange is: nothing is asked, a request or an answer is on its way, or it has come to
an end. -/
inductive Token (ρ α : Type*) where
  | idle
  | requested (request : ρ)
  | answered (answer : α)
  | stopped

/-- What a client has asked, the answers that it has got, and what is on its way. -/
structure Exchange (ρ α : Type*) where
  asked : List ρ
  got : List α
  token : Token ρ α

variable {ρ α : Type*}

/-- Before the first request. -/
def Exchange.start : Exchange ρ α :=
  ⟨[], [], .idle⟩

/-- The steps of an exchange with a server that answers a request with `answer`. -/
inductive Exchange.Step (answer : ρ → α) : Exchange ρ α → Exchange ρ α → Prop
  | ask {e} (request : ρ) : e.token = .idle →
      Step answer e { e with asked := e.asked ++ [request], token := .requested request }
  | answer {e request} : e.token = .requested request →
      Step answer e { e with token := .answered (answer request) }
  | get {e reply} : e.token = .answered reply →
      Step answer e { e with got := e.got ++ [reply], token := .idle }
  -- the message is lost, or a party ends
  | stop {e} : Step answer e { e with token := .stopped }

/-- The states that an exchange can get into. -/
def Exchange.Reachable (answer : ρ → α) : Exchange ρ α → Prop :=
  Relation.ReflTransGen (Step answer) .start

/-- What has been asked, in terms of the answers: as long as the client has not asked again, there
is an answer to everything, and then to everything but the last request. -/
def Exchange.Balanced (answer : ρ → α) (e : Exchange ρ α) : Prop :=
  match e.token with
  | .idle => e.got = e.asked.map answer
  | .requested request => ∃ before, e.asked = before ++ [request] ∧ e.got = before.map answer
  | .answered reply =>
      ∃ before request, e.asked = before ++ [request] ∧ e.got = before.map answer ∧
        reply = answer request
  | .stopped => e.got = e.asked.map answer ∨
      ∃ before request, e.asked = before ++ [request] ∧ e.got = before.map answer

variable {answer : ρ → α} {e e' : Exchange ρ α}

/-- Whatever the token is, at most the last request has no answer. -/
theorem Exchange.Balanced.stopped (h : e.Balanced answer) :
    Exchange.Balanced answer { e with token := .stopped } := by
  obtain ⟨asked, got, token⟩ := e
  cases token with
  | idle => exact .inl h
  | requested request =>
      obtain ⟨before, hasked, hgot⟩ := h
      exact .inr ⟨before, request, hasked, hgot⟩
  | answered reply =>
      obtain ⟨before, request, hasked, hgot, -⟩ := h
      exact .inr ⟨before, request, hasked, hgot⟩
  | stopped => exact h

theorem Exchange.Balanced.step (h : e.Balanced answer) (hstep : Step answer e e') :
    e'.Balanced answer := by
  cases hstep with
  | ask request htoken =>
      rw [Balanced, htoken] at h
      exact ⟨e.asked, rfl, h⟩
  | answer htoken =>
      rw [Balanced, htoken] at h
      obtain ⟨before, hasked, hgot⟩ := h
      exact ⟨before, _, hasked, hgot, rfl⟩
  | get htoken =>
      rw [Balanced, htoken] at h
      obtain ⟨before, request, hasked, hgot, hreply⟩ := h
      show e.got ++ [_] = e.asked.map answer
      rw [hgot, hasked, hreply, List.map_append, List.map_singleton]
  | stop => exact h.stopped

theorem Exchange.balanced_of_reachable (h : e.Reachable answer) : e.Balanced answer := by
  induction h with
  | refl => exact rfl
  | tail _ hstep ih => exact ih.step hstep

/-- The answers that the client has got are those to its first requests, and at most one request has
none. -/
theorem Exchange.got_eq (h : e.Reachable answer) :
    e.asked.length ≤ e.got.length + 1 ∧
      e.got = (e.asked.take e.got.length).map answer := by
  have hstopped := (balanced_of_reachable h).stopped
  rcases hstopped with hgot | ⟨before, request, hasked, hgot⟩
  · have hlength : e.got.length = e.asked.length := by
      rw [hgot, List.length_map]
    exact ⟨by omega, by rw [hlength, List.take_length, hgot]⟩
  · have hlength : e.got.length = before.length := by
      rw [hgot, List.length_map]
    have hlonger : e.asked.length = before.length + 1 := by
      rw [hasked, List.length_append, List.length_singleton]
    refine ⟨by omega, ?_⟩
    rw [hlength, hasked, List.take_left, hgot]

/-- Nothing happens behind the end. -/
theorem Exchange.stopped_stays (h : e.token = .stopped)
    (hrun : Relation.ReflTransGen (Step answer) e e') : e' = e := by
  induction hrun with
  | refl => rfl
  | tail _ hstep ih =>
      subst ih
      cases hstep with
      | ask request htoken | answer htoken | get htoken =>
          rw [h] at htoken
          cases htoken
      | stop => rw [← h]

end NetLib
