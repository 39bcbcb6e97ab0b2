import Mathlib.Logic.Relation
import Mathlib.Tactic.Common

/-!
# Loops and runs

Ways a program goes on for an unknown time. `whileLoop` is a `while` loop whose body is a
function on states that also says whether the test held; the loop is run with fuel and returns
`none` when the fuel does not suffice, so `Terminates` (some fuel suffices) is a statement about
the code and not about the model. A run of a transition system is the reflexive transitive
closure of its step relation, or, where the events matter that the system goes through, the fold
`runEvents` of a step function that is undefined on an event that cannot happen.
-/

namespace NetLib

variable {σ : Type*}

/-- Run `while (body);`: the body returns whether the test held, and the state it leaves. -/
def whileLoop (body : σ → Bool × σ) : Nat → σ → Option σ
  | 0, _ => none
  | fuel + 1, s => if (body s).1 then whileLoop body fuel (body s).2 else some (body s).2

/-- The loop stops after finitely many rounds. -/
def Terminates (body : σ → Bool × σ) (s : σ) : Prop :=
  ∃ fuel final, whileLoop body fuel s = some final

variable {body : σ → Bool × σ}

/-- A loop whose test fails stops at once. -/
theorem Terminates.of_exit {s : σ} (h : (body s).1 = false) : Terminates body s :=
  ⟨1, (body s).2, by simp [whileLoop, h]⟩

/-- A loop stops if it does after one more round. -/
theorem Terminates.of_round {s : σ} (h : Terminates body (body s).2) : Terminates body s := by
  obtain ⟨fuel, final, hrun⟩ := h
  cases htest : (body s).1 with
  | false => exact .of_exit htest
  | true => exact ⟨fuel + 1, final, by simp [whileLoop, htest, hrun]⟩

/-- A loop stops when, under an invariant, every round whose test holds decreases a measure. -/
theorem Terminates.of_measure (Inv : σ → Prop) (measure : σ → Nat)
    (hround : ∀ s, Inv s → (body s).1 = true → Inv (body s).2 ∧ measure (body s).2 < measure s)
    {s : σ} (hs : Inv s) : Terminates body s := by
  induction hn : measure s using Nat.strongRecOn generalizing s with
  | ind n ih =>
      cases htest : (body s).1 with
      | false => exact .of_exit htest
      | true =>
          obtain ⟨hinv, hlt⟩ := hround s hs htest
          exact .of_round (ih _ (hn ▸ hlt) hinv rfl)

/-- A loop never stops when an invariant keeps its test true. -/
theorem not_terminates_of_invariant (Inv : σ → Prop)
    (hround : ∀ s, Inv s → (body s).1 = true ∧ Inv (body s).2) {s : σ} (hs : Inv s) :
    ¬ Terminates body s := by
  rintro ⟨fuel, final, hrun⟩
  induction fuel generalizing s with
  | zero => cases hrun
  | succ fuel ih =>
      obtain ⟨htest, hinv⟩ := hround s hs
      rw [whileLoop, if_pos htest] at hrun
      exact ih hinv hrun

/-- A loop that stopped did so in a state in which the test fails. -/
theorem while_loop_exit {fuel : Nat} {s final : σ} (h : whileLoop body fuel s = some final) :
    ∃ last, (body last).1 = false ∧ (body last).2 = final := by
  induction fuel generalizing s with
  | zero => cases h
  | succ fuel ih =>
      rw [whileLoop] at h
      cases htest : (body s).1 with
      | true => exact ih (by rwa [if_pos htest] at h)
      | false =>
          rw [htest, if_neg Bool.false_ne_true] at h
          exact ⟨s, htest, Option.some.inj h⟩

/-- A loop that stopped did so in a state of which everything holds that every round keeps. -/
theorem while_loop_invariant (Inv : σ → Prop)
    (hround : ∀ s, Inv s → (body s).1 = true → Inv (body s).2) {fuel : Nat} {s final : σ}
    (hs : Inv s) (h : whileLoop body fuel s = some final) :
    ∃ last, Inv last ∧ (body last).1 = false ∧ (body last).2 = final := by
  induction fuel generalizing s with
  | zero => cases h
  | succ fuel ih =>
      rw [whileLoop] at h
      cases htest : (body s).1 with
      | true => exact ih (hround s hs htest) (by rwa [if_pos htest] at h)
      | false =>
          rw [htest, if_neg Bool.false_ne_true] at h
          exact ⟨s, hs, htest, Option.some.inj h⟩

/-- What holds initially and is kept by every step holds in every state of every run. -/
theorem reachable_invariant {Step : σ → σ → Prop} (Inv : σ → Prop) {start s : σ}
    (hinit : Inv start) (hstep : ∀ s next, Inv s → Step s next → Inv next)
    (h : Relation.ReflTransGen Step start s) : Inv s := by
  induction h with
  | refl => exact hinit
  | tail _ hlast ih => exact hstep _ _ ih hlast

/-! ## Runs with their events -/

variable {ε : Type*} {step : σ → ε → Option σ}

/-- Go through a list of events; there is no result when one of them cannot happen. -/
def runEvents (step : σ → ε → Option σ) : σ → List ε → Option σ
  | s, [] => some s
  | s, event :: events => (step s event).bind fun next => runEvents step next events

/-- A step that happened under a guard. -/
theorem eq_of_guarded {c : Prop} [Decidable c] {s next : σ}
    (h : (if c then some s else none) = some next) : c ∧ s = next := by
  obtain ⟨hc, heq⟩ := Option.ite_none_right_eq_some.mp h
  exact ⟨hc, Option.some.inj heq⟩

/-- One event more. -/
theorem run_events_cons {s final : σ} {event : ε} {events : List ε} :
    runEvents step s (event :: events) = some final ↔
      ∃ next, step s event = some next ∧ runEvents step next events = some final := by
  rw [runEvents, Option.bind_eq_some_iff]

/-- Events that come after others. -/
theorem run_events_append {s next final : σ} {events more : List ε}
    (h : runEvents step s events = some next) (hmore : runEvents step next more = some final) :
    runEvents step s (events ++ more) = some final := by
  induction events generalizing s with
  | nil =>
      rw [List.nil_append, Option.some.inj h]
      exact hmore
  | cons event events ih =>
      obtain ⟨mid, hmid, hrest⟩ := run_events_cons.mp h
      exact run_events_cons.mpr ⟨mid, hmid, ih hrest⟩

/-- A run of events that come after others, in its two parts. -/
theorem run_events_split {s final : σ} {events more : List ε}
    (h : runEvents step s (events ++ more) = some final) :
    ∃ next, runEvents step s events = some next ∧ runEvents step next more = some final := by
  induction events generalizing s with
  | nil => exact ⟨s, rfl, h⟩
  | cons event events ih =>
      obtain ⟨mid, hmid, hrest⟩ := run_events_cons.mp h
      obtain ⟨next, hnext, hmore⟩ := ih hrest
      exact ⟨next, run_events_cons.mpr ⟨mid, hmid, hnext⟩, hmore⟩

/-- A run with one event more at its end. -/
theorem run_events_concat {s final : σ} {events : List ε} {event : ε} :
    runEvents step s (events ++ [event]) = some final ↔
      ∃ next, runEvents step s events = some next ∧ step next event = some final := by
  refine ⟨fun h => ?_, fun ⟨next, hnext, hlast⟩ => ?_⟩
  · obtain ⟨next, hnext, hlast⟩ := run_events_split h
    obtain ⟨last, hstep, hend⟩ := run_events_cons.mp hlast
    rw [Option.some.inj hend] at hstep
    exact ⟨next, hnext, hstep⟩
  · exact run_events_append hnext (run_events_cons.mpr ⟨final, hlast, rfl⟩)

/-- What holds before any event, and after one more event if it holds before, holds of every run:
of its events and the state it ends in. -/
theorem run_events_induction {start final : σ} {events : List ε} (Holds : List ε → σ → Prop)
    (hinit : Holds [] start)
    (hstep : ∀ done s event next, Holds done s → step s event = some next →
      Holds (done ++ [event]) next)
    (h : runEvents step start events = some final) : Holds events final := by
  have hfrom : ∀ done s, Holds done s → runEvents step s events = some final →
      Holds (done ++ events) final := by
    clear h hinit
    induction events with
    | nil =>
        intro done s hdone hrun
        rw [List.append_nil, ← Option.some.inj hrun]
        exact hdone
    | cons event events ih =>
        intro done s hdone hrun
        obtain ⟨next, hnext, hrest⟩ := run_events_cons.mp hrun
        have := ih (done ++ [event]) next (hstep done s event next hdone hnext) hrest
        rwa [List.append_assoc, List.singleton_append] at this
  exact hfrom [] start hinit h

/-! ## Events that are added -/

/-- A list of events goes on with events of one kind. -/
def Extends (ok : ε → Prop) (events longer : List ε) : Prop :=
  ∃ more, longer = events ++ more ∧ ∀ event ∈ more, ok event

variable {ok : ε → Prop}

theorem Extends.refl (events : List ε) : Extends ok events events :=
  ⟨[], (List.append_nil events).symm, fun event hevent => by cases hevent⟩

theorem Extends.trans {first second third : List ε} (h : Extends ok first second)
    (hnext : Extends ok second third) : Extends ok first third := by
  obtain ⟨more, rfl, hok⟩ := h
  obtain ⟨moreNext, rfl, hokNext⟩ := hnext
  exact ⟨more ++ moreNext, List.append_assoc .., List.forall_mem_append.mpr ⟨hok, hokNext⟩⟩

/-- One event more. -/
theorem Extends.concat (events : List ε) {event : ε} (hok : ok event) :
    Extends ok events (events ++ [event]) :=
  ⟨[event], rfl, List.forall_mem_singleton.mpr hok⟩

/-! ## Events in their context -/

/-- Somewhere in a list of events `P` holds, of an event and those before it. -/
def Somewhere (P : List ε → ε → Prop) (events : List ε) : Prop :=
  ∃ before event after, events = before ++ event :: after ∧ P before event

variable {P : List ε → ε → Prop}

theorem somewhere_nil : ¬ Somewhere P [] := by
  rintro ⟨before, event, after, heq, -⟩
  exact absurd heq.symm (by simp)

/-- It holds of the first event, or somewhere behind it. -/
theorem somewhere_cons {event : ε} {events : List ε} :
    Somewhere P (event :: events) ↔
      P [] event ∨ Somewhere (fun before => P (event :: before)) events := by
  constructor
  · rintro ⟨before, e, after, heq, hP⟩
    cases before with
    | nil =>
        obtain ⟨rfl, rfl⟩ := List.cons.inj heq
        exact .inl hP
    | cons first before =>
        obtain ⟨rfl, rfl⟩ := List.cons.inj heq
        exact .inr ⟨before, e, after, rfl, hP⟩
  · rintro (hP | ⟨before, e, after, rfl, hP⟩)
    · exact ⟨[], event, events, rfl, hP⟩
    · exact ⟨event :: before, e, after, rfl, hP⟩

/-- With one event more, it holds there or somewhere before. -/
theorem somewhere_concat {events : List ε} {event : ε} :
    Somewhere P (events ++ [event]) ↔ Somewhere P events ∨ P events event := by
  constructor
  · rintro ⟨before, e, after, heq, hP⟩
    rcases List.eq_nil_or_concat after with rfl | ⟨after, last, rfl⟩
    · obtain ⟨rfl, hlast⟩ := List.append_inj' heq rfl
      obtain rfl := (List.cons.inj hlast).1
      exact .inr hP
    · rw [List.concat_eq_append, ← List.cons_append, ← List.append_assoc] at heq
      obtain ⟨rfl, -⟩ := List.append_inj' heq rfl
      exact .inl ⟨before, e, after, rfl, hP⟩
  · rintro (⟨before, e, after, rfl, hP⟩ | hP)
    · exact ⟨before, e, after ++ [event], by simp, hP⟩
    · exact ⟨events, event, [], rfl, hP⟩

end NetLib
