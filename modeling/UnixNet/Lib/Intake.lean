import Mathlib.Data.List.Basic
import Mathlib.Tactic.Common

/-!
# Taking messages out of arrivals

A reader that is called each time that data arrive, and looks at what it has of them then. It takes
a message out of that, finds none, or fails. `keep` is what it leaves to the next call when it finds
none, and `stops` tells after which messages it is not called again. `run_once_iff` says in which
runs it takes exactly one message.
-/

namespace NetLib

/-- A reader of messages of type `π` out of data of type `α`. An arrival is labelled with what the
environment does in that call. -/
structure Intake (α ε π : Type*) where
  parse : List α → Option (Option π)
  keep : List α → List α
  stops : ε → π → Bool

/-- Whether a reader is called again. -/
inductive Intake.Phase where
  | reading
  | stopped
  | failed
  deriving DecidableEq

/-- What a reader has kept, and the messages it has taken. -/
structure Intake.State (α π : Type*) where
  phase : Intake.Phase
  kept : List α
  taken : List π

namespace Intake

variable {α ε π : Type*}

/-- One arrival. -/
def step (m : Intake α ε π) (s : State α π) (arrival : ε × List α) : State α π :=
  match s.phase with
  | .reading =>
      match m.parse (s.kept ++ arrival.2) with
      | none => ⟨.failed, [], s.taken⟩
      | some none => { s with kept := m.keep (s.kept ++ arrival.2) }
      | some (some message) =>
          ⟨if m.stops arrival.1 message then .stopped else .reading, [], s.taken ++ [message]⟩
  | _ => s

/-- What a reader looks at in the calls in which it finds no message. -/
def inputs (m : Intake α ε π) : List α → List (ε × List α) → List (List α)
  | _, [] => []
  | kept, arrival :: rest => (kept ++ arrival.2) :: m.inputs (m.keep (kept ++ arrival.2)) rest

/-- What a reader has kept after calls in which it found no message. -/
def left (m : Intake α ε π) (kept : List α) (arrivals : List (ε × List α)) : List α :=
  arrivals.foldl (fun kept arrival => m.keep (kept ++ arrival.2)) kept

/-- What reads of at most `cap` elements return from a queue that held `kept`: before each read one
of the pieces is put behind what the queue still holds. -/
def queueReads (cap : Nat) : List α → List (List α) → List (List α)
  | _, [] => []
  | kept, piece :: rest =>
      (kept ++ piece).take cap :: queueReads cap ((kept ++ piece).drop cap) rest

/-- The reader finds no message in any of the arrivals. -/
def Quiet (m : Intake α ε π) (kept : List α) (arrivals : List (ε × List α)) : Prop :=
  ∀ input ∈ m.inputs kept arrivals, m.parse input = some none

/-- One arrival completes the message, with what was kept before. There is none in the arrivals
before it, and none in the arrivals behind it unless the reader stops with the message. -/
def Once (m : Intake α ε π) (message : π) (kept : List α) (arrivals : List (ε × List α)) : Prop :=
  ∃ before arrival after, arrivals = before ++ arrival :: after ∧ m.Quiet kept before ∧
    m.parse (m.left kept before ++ arrival.2) = some (some message) ∧
    (m.stops arrival.1 message = true ∨ m.Quiet [] after)

variable {m : Intake α ε π} {s : State α π} {arrival : ε × List α} {rest : List (ε × List α)}
  {kept : List α} {taken : List π} {message : π}

/-- No message in the first arrival, and none in the others. -/
theorem quiet_cons :
    m.Quiet kept (arrival :: rest) ↔
      m.parse (kept ++ arrival.2) = some none ∧ m.Quiet (m.keep (kept ++ arrival.2)) rest :=
  List.forall_mem_cons

/-- The one message is in the first arrival, or it is in the others. -/
theorem once_cons :
    m.Once message kept (arrival :: rest) ↔
      m.parse (kept ++ arrival.2) = some (some message) ∧
          (m.stops arrival.1 message = true ∨ m.Quiet [] rest) ∨
        m.parse (kept ++ arrival.2) = some none ∧
          m.Once message (m.keep (kept ++ arrival.2)) rest := by
  constructor
  · intro ⟨before, arrived, after, heq, hquiet, hmessage, hafter⟩
    cases before with
    | nil =>
        obtain ⟨rfl, rfl⟩ := List.cons.inj heq
        exact .inl ⟨hmessage, hafter⟩
    | cons first before =>
        obtain ⟨rfl, rfl⟩ := List.cons.inj heq
        obtain ⟨hfirst, hquiet⟩ := quiet_cons.mp hquiet
        exact .inr ⟨hfirst, before, arrived, after, rfl, hquiet, hmessage, hafter⟩
  · intro h
    rcases h with ⟨hmessage, hafter⟩ | ⟨hfirst, before, arrived, after, rfl, hquiet, hmore⟩
    · exact ⟨[], arrival, rest, rfl, fun _ h => absurd h List.not_mem_nil, hmessage, hafter⟩
    · exact ⟨arrival :: before, arrived, after, rfl, quiet_cons.mpr ⟨hfirst, hquiet⟩, hmore⟩

/-- What a reader looks at has at least the bytes of an arrival. -/
theorem ne_nil_of_mem_inputs {arrivals : List (ε × List α)} {input : List α}
    (hne : ∀ arrival ∈ arrivals, arrival.2 ≠ []) (h : input ∈ m.inputs kept arrivals) :
    input ≠ [] := by
  induction arrivals generalizing kept with
  | nil => cases h
  | cons arrival rest ih =>
      obtain ⟨hfirst, hrest⟩ := List.forall_mem_cons.mp hne
      rcases List.mem_cons.mp h with rfl | hmem
      · exact List.append_ne_nil_of_right_ne_nil _ hfirst
      · exact ih hrest hmem

/-! ## Readers that keep nothing -/

/-- A reader that keeps nothing looks at each arrival as it is. -/
theorem quiet_of_forgets (h : ∀ input, m.keep input = []) {arrivals : List (ε × List α)} :
    m.Quiet [] arrivals ↔ ∀ arrival ∈ arrivals, m.parse arrival.2 = some none := by
  induction arrivals with
  | nil => simp [Quiet, inputs]
  | cons arrival rest ih => rw [quiet_cons, List.nil_append, h, ih, List.forall_mem_cons]

/-- A reader that keeps nothing has nothing left. -/
theorem left_of_forgets (h : ∀ input, m.keep input = []) (arrivals : List (ε × List α)) :
    m.left [] arrivals = [] := by
  induction arrivals with
  | nil => rfl
  | cons arrival rest ih =>
      show m.left (m.keep ([] ++ arrival.2)) rest = []
      rw [h, ih]

/-! ## Readers that keep what they do not read -/

/-- A reader that takes `cap` elements out of what it has reads a queue. -/
theorem inputs_take {cap : Nat} (h : ∀ input, m.keep input = input.drop cap)
    (arrivals : List (ε × List α)) :
    (m.inputs kept arrivals).map (List.take cap) =
      queueReads cap kept (arrivals.map Prod.snd) := by
  induction arrivals generalizing kept with
  | nil => rfl
  | cons arrival rest ih => rw [inputs, List.map_cons, h, ih, List.map_cons, queueReads]

/-- The reads of the first pieces and one more: the last is what the reader looks at then. -/
theorem queue_reads_concat {cap : Nat} (h : ∀ input, m.keep input = input.drop cap)
    (before : List (ε × List α)) (piece : List α) :
    queueReads cap kept (before.map Prod.snd ++ [piece]) =
      queueReads cap kept (before.map Prod.snd) ++ [(m.left kept before ++ piece).take cap] := by
  induction before generalizing kept with
  | nil => rfl
  | cons arrival rest ih =>
      have hleft : m.left kept (arrival :: rest) = m.left ((kept ++ arrival.2).drop cap) rest := by
        rw [← h]
        rfl
      rw [List.map_cons, List.cons_append, queueReads, ih, hleft, queueReads, List.cons_append]

/-! ## One arrival -/

/-- The reader fails. -/
theorem step_of_failed (h : m.parse (kept ++ arrival.2) = none) :
    m.step ⟨.reading, kept, taken⟩ arrival = ⟨.failed, [], taken⟩ := by
  simp [step, h]

/-- The reader finds no message. -/
theorem step_of_quiet (h : m.parse (kept ++ arrival.2) = some none) :
    m.step ⟨.reading, kept, taken⟩ arrival =
      ⟨.reading, m.keep (kept ++ arrival.2), taken⟩ := by
  simp [step, h]

/-- The reader takes a message. -/
theorem step_of_message (h : m.parse (kept ++ arrival.2) = some (some message)) :
    m.step ⟨.reading, kept, taken⟩ arrival =
      ⟨if m.stops arrival.1 message then .stopped else .reading, [], taken ++ [message]⟩ := by
  simp [step, h]

/-- Nothing happens to a reader that is not called. -/
theorem step_of_not_reading (h : s.phase ≠ .reading) : m.step s arrival = s := by
  unfold step
  split
  · next hreading => exact absurd hreading h
  · rfl

/-! ## All arrivals -/

/-- Nothing happens to a reader that is not called any more. -/
theorem foldl_step_of_not_reading (h : s.phase ≠ .reading) (arrivals : List (ε × List α)) :
    arrivals.foldl m.step s = s := by
  induction arrivals with
  | nil => rfl
  | cons arrival rest ih => rw [List.foldl_cons, step_of_not_reading h, ih]

/-- Messages that were taken stay. -/
theorem taken_stays {arrivals : List (ε × List α)} {all : List π}
    (h : (arrivals.foldl m.step s).taken = all) : s.taken <+: all := by
  induction arrivals generalizing s with
  | nil => exact h ▸ List.prefix_rfl
  | cons arrival rest ih =>
      have hstep : s.taken <+: (m.step s arrival).taken := by
        unfold step
        split
        · split
          · exact List.prefix_rfl
          · exact List.prefix_rfl
          · exact List.prefix_append _ _
        · exact List.prefix_rfl
      exact hstep.trans (ih h)

/-- The reader takes no further message and does not fail exactly when it finds none. -/
theorem run_same_iff {arrivals : List (ε × List α)} :
    (arrivals.foldl m.step ⟨.reading, kept, taken⟩).phase ≠ .failed ∧
        (arrivals.foldl m.step ⟨.reading, kept, taken⟩).taken = taken ↔
      m.Quiet kept arrivals := by
  induction arrivals generalizing kept with
  | nil => exact iff_of_true ⟨Phase.noConfusion, rfl⟩ fun _ h => absurd h List.not_mem_nil
  | cons arrival rest ih =>
      rw [List.foldl_cons, quiet_cons]
      rcases hparse : m.parse (kept ++ arrival.2) with _ | _ | message
      · rw [step_of_failed hparse, foldl_step_of_not_reading Phase.noConfusion]
        simp
      · rw [step_of_quiet hparse, ih]
        simp
      · rw [step_of_message hparse]
        refine iff_of_false ?_ (fun h => by cases h.1)
        intro ⟨_, hsame⟩
        -- one message more has been taken
        have hle := (taken_stays hsame).length_le
        rw [List.length_append, List.length_singleton] at hle
        omega

/-- In which runs a reader takes exactly one message and does not fail. -/
theorem run_once_iff {arrivals : List (ε × List α)} :
    (arrivals.foldl m.step ⟨.reading, kept, []⟩).phase ≠ .failed ∧
        (arrivals.foldl m.step ⟨.reading, kept, []⟩).taken = [message] ↔
      m.Once message kept arrivals := by
  induction arrivals generalizing kept with
  | nil => simp [Once]
  | cons arrival rest ih =>
      rw [List.foldl_cons, once_cons]
      rcases hparse : m.parse (kept ++ arrival.2) with _ | _ | found
      · rw [step_of_failed hparse, foldl_step_of_not_reading Phase.noConfusion]
        simp
      · rw [step_of_quiet hparse, ih]
        simp
      · rw [step_of_message hparse, List.nil_append]
        have hone : (rest.foldl m.step ⟨if m.stops arrival.1 found then .stopped else .reading, [],
            [found]⟩).taken = [message] → found = message := by
          intro hone
          simpa using taken_stays hone
        by_cases heq : found = message
        · -- the message is this one, and it must stay the only one
          subst heq
          cases hstops : m.stops arrival.1 found with
          | true =>
              rw [if_pos rfl, foldl_step_of_not_reading Phase.noConfusion]
              simp
          | false =>
              rw [if_neg Bool.false_ne_true, run_same_iff]
              simp
        · -- another message has been taken
          refine iff_of_false (fun h => heq (hone h.2)) ?_
          simp [heq]

end Intake

end NetLib
