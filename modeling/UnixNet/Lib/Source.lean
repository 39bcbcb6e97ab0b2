import Mathlib.Data.List.Basic
import Mathlib.Tactic.Common

/-!
# Byte sources behind `read`

What successive `read` calls on one descriptor return. A `Source` is a script of outcomes and
an ending that repeats for ever once the script is used up, so every finite sequence of
outcomes is covered and end of file, once reached at the end, stays. `Source.readRetry` is a
read that is repeated on EINTR. The abstract view of a source is `Source.ready`, the elements
it hands over before anything stops it, and `Source.stop`, what stops it. Elements are of any
type and `cap` is the size asked for.
-/

namespace NetLib

/-- The errors of a failing call other than EINTR, which has an outcome of its own. -/
inductive Errno where
  | eagain
  | ebadf
  | other (code : Nat)
  deriving DecidableEq

/-- What one successful read hands over: at least one element, at most the number asked for. -/
structure Chunk (α : Type*) (cap : Nat) where
  data : List α
  nonempty : data ≠ []
  bounded : data.length ≤ cap

/-- The outcome of one `read` call. -/
inductive ReadOutcome (α : Type*) (cap : Nat) where
  | data (chunk : Chunk α cap)
  | eof
  | interrupted
  | fail (errno : Errno)

/-- Why a source hands over nothing more: the peer's orderly shutdown, or an error. -/
inductive Ending where
  | eof
  | fail (errno : Errno)
  deriving DecidableEq

/-- The outcomes of the `read` calls to come: a script, then the ending again and again. -/
structure Source (α : Type*) (cap : Nat) where
  script : List (ReadOutcome α cap)
  ending : Ending

variable {α : Type*} {cap : Nat}

/-- The outcome a source's ending gives. -/
def Ending.outcome : Ending → ReadOutcome α cap
  | .eof => .eof
  | .fail errno => .fail errno

/-- One `read` call. -/
def Source.read : Source α cap → ReadOutcome α cap × Source α cap
  | ⟨[], ending⟩ => (ending.outcome, ⟨[], ending⟩)
  | ⟨outcome :: rest, ending⟩ => (outcome, ⟨rest, ending⟩)

/-- Pass over the EINTR failures at the front of a script and take the outcome behind them. -/
def retryScript (ending : Ending) :
    List (ReadOutcome α cap) → Except Ending (Chunk α cap) × List (ReadOutcome α cap)
  | [] => (.error ending, [])
  | .interrupted :: rest => retryScript ending rest
  | .data chunk :: rest => (.ok chunk, rest)
  | .eof :: rest => (.error .eof, rest)
  | .fail errno :: rest => (.error (.fail errno), rest)

/-- A `read` call repeated as long as it fails with EINTR. -/
def Source.readRetry (src : Source α cap) : Except Ending (Chunk α cap) × Source α cap :=
  ((retryScript src.ending src.script).1, ⟨(retryScript src.ending src.script).2, src.ending⟩)

/-- The repeated call is the loop around `read`: it goes round on EINTR and stops otherwise. -/
theorem Source.read_retry_eq (src : Source α cap) :
    src.readRetry =
      match src.read with
      | (.interrupted, next) => next.readRetry
      | (.data chunk, next) => (.ok chunk, next)
      | (.eof, next) => (.error .eof, next)
      | (.fail errno, next) => (.error (.fail errno), next) := by
  obtain ⟨script, ending⟩ := src
  cases script with
  | nil => cases ending <;> rfl
  | cons outcome rest => cases outcome <;> rfl

/-! ## The abstract view -/

/-- The elements a script hands over before something other than EINTR stops it. -/
def readyScript : List (ReadOutcome α cap) → List α
  | .data chunk :: rest => chunk.data ++ readyScript rest
  | .interrupted :: rest => readyScript rest
  | _ => []

/-- What stops a script. -/
def stopScript (ending : Ending) : List (ReadOutcome α cap) → Ending
  | [] => ending
  | .data _ :: rest => stopScript ending rest
  | .interrupted :: rest => stopScript ending rest
  | .eof :: _ => .eof
  | .fail errno :: _ => .fail errno

/-- The elements a source hands over before anything stops it. -/
def Source.ready (src : Source α cap) : List α :=
  readyScript src.script

/-- What stops a source. -/
def Source.stop (src : Source α cap) : Ending :=
  stopScript src.ending src.script

theorem retry_script_ok {ending : Ending} {script rest : List (ReadOutcome α cap)}
    {chunk : Chunk α cap} (h : retryScript ending script = (.ok chunk, rest)) :
    readyScript script = chunk.data ++ readyScript rest ∧
      stopScript ending script = stopScript ending rest := by
  induction script with
  | nil => simp [retryScript] at h
  | cons outcome script ih =>
      cases outcome with
      | data c =>
          obtain ⟨hc, rfl⟩ := Prod.mk.inj h
          obtain rfl := Except.ok.inj hc
          exact ⟨rfl, rfl⟩
      | eof => simp [retryScript] at h
      | interrupted => exact ih h
      | fail errno => simp [retryScript] at h

theorem retry_script_error {ending stop : Ending} {script rest : List (ReadOutcome α cap)}
    (h : retryScript ending script = (.error stop, rest)) :
    readyScript script = [] ∧ stopScript ending script = stop := by
  induction script with
  | nil =>
      obtain ⟨hstop, -⟩ := Prod.mk.inj h
      exact ⟨rfl, Except.error.inj hstop⟩
  | cons outcome script ih =>
      cases outcome with
      | data c => simp [retryScript] at h
      | eof =>
          obtain ⟨hstop, -⟩ := Prod.mk.inj h
          exact ⟨rfl, Except.error.inj hstop⟩
      | interrupted => exact ih h
      | fail errno =>
          obtain ⟨hstop, -⟩ := Prod.mk.inj h
          exact ⟨rfl, Except.error.inj hstop⟩

/-- A successful read takes its chunk off the elements that are ready. -/
theorem Source.read_retry_ok {src next : Source α cap} {chunk : Chunk α cap}
    (h : src.readRetry = (.ok chunk, next)) :
    src.ready = chunk.data ++ next.ready ∧ src.stop = next.stop := by
  obtain ⟨hresult, rfl⟩ := Prod.mk.inj h
  exact retry_script_ok (Prod.ext hresult rfl)

/-- An unsuccessful read means that nothing was ready, and returns what stopped the source. -/
theorem Source.read_retry_error {src next : Source α cap} {stop : Ending}
    (h : src.readRetry = (.error stop, next)) : src.ready = [] ∧ src.stop = stop := by
  obtain ⟨hresult, rfl⟩ := Prod.mk.inj h
  exact retry_script_error (Prod.ext hresult rfl)

/-! ## What a run of reads has handed over -/

/-- The elements in a list of outcomes. -/
def received : List (ReadOutcome α cap) → List α
  | [] => []
  | .data chunk :: rest => chunk.data ++ received rest
  | _ :: rest => received rest

@[simp] theorem received_append (xs ys : List (ReadOutcome α cap)) :
    received (xs ++ ys) = received xs ++ received ys := by
  induction xs with
  | nil => rfl
  | cons outcome xs ih => cases outcome <;> simp [received, ih]

/-- Between `src` and `next` the source was read, and handed over exactly `got`. -/
def Source.Delivered (src next : Source α cap) (got : List α) : Prop :=
  ∃ used, src.script = used ++ next.script ∧ received used = got ∧ src.ending = next.ending

/-- No read hands over nothing. -/
theorem Source.Delivered.refl (src : Source α cap) : src.Delivered src [] :=
  ⟨[], rfl, rfl, rfl⟩

/-- Two runs of reads, one after the other. -/
theorem Source.Delivered.trans {first second third : Source α cap} {got more : List α}
    (h : first.Delivered second got) (hnext : second.Delivered third more) :
    first.Delivered third (got ++ more) := by
  obtain ⟨used, hscript, rfl, hending⟩ := h
  obtain ⟨usedNext, hscriptNext, rfl, hendingNext⟩ := hnext
  refine ⟨used ++ usedNext, ?_, received_append _ _, hending.trans hendingNext⟩
  rw [hscript, hscriptNext, List.append_assoc]

/-- The elements of a successful read. -/
def chunkData : Except Ending (Chunk α cap) → List α
  | .ok chunk => chunk.data
  | .error _ => []

theorem retry_script_received (ending : Ending) (script : List (ReadOutcome α cap)) :
    ∃ used, script = used ++ (retryScript ending script).2 ∧
      received used = chunkData (retryScript ending script).1 := by
  induction script with
  | nil => exact ⟨[], rfl, rfl⟩
  | cons outcome script ih =>
      cases outcome with
      | interrupted =>
          obtain ⟨used, hscript, hreceived⟩ := ih
          exact ⟨.interrupted :: used, congrArg _ hscript, hreceived⟩
      | data chunk => exact ⟨[.data chunk], rfl, List.append_nil _⟩
      | eof => exact ⟨[.eof], rfl, rfl⟩
      | fail errno => exact ⟨[.fail errno], rfl, rfl⟩

/-- A read hands over its chunk. -/
theorem Source.read_retry_delivered (src : Source α cap) :
    src.Delivered src.readRetry.2 (chunkData src.readRetry.1) := by
  obtain ⟨used, hscript, hreceived⟩ := retry_script_received src.ending src.script
  exact ⟨used, hscript, hreceived, rfl⟩

/-! ## Plain sources -/

/-- A finite stream with one end: nothing but data and EINTR before the ending. -/
def Source.Plain (src : Source α cap) : Prop :=
  ∀ outcome ∈ src.script, outcome = .interrupted ∨ ∃ chunk, outcome = .data chunk

/-- A plain source is stopped by its ending only. -/
theorem Source.Plain.stop_eq {src : Source α cap} (h : src.Plain) : src.stop = src.ending := by
  obtain ⟨script, ending⟩ := src
  induction script with
  | nil => rfl
  | cons outcome script ih =>
      have hrest := ih fun o ho => h o (List.mem_cons_of_mem _ ho)
      rcases h outcome List.mem_cons_self with rfl | ⟨chunk, rfl⟩
      · exact hrest
      · exact hrest

/-- What has not been read of a plain source is plain. -/
theorem Source.Plain.of_delivered {src next : Source α cap} {got : List α} (h : src.Plain)
    (hread : src.Delivered next got) : next.Plain := by
  obtain ⟨used, hscript, -, -⟩ := hread
  exact fun outcome ho => h outcome (hscript ▸ List.mem_append_right _ ho)

/-- Everything in the script of a plain source is ready. -/
theorem Source.Plain.ready_eq {src : Source α cap} (h : src.Plain) :
    src.ready = received src.script := by
  obtain ⟨script, ending⟩ := src
  induction script with
  | nil => rfl
  | cons outcome script ih =>
      have hrest := ih fun o ho => h o (List.mem_cons_of_mem _ ho)
      rcases h outcome List.mem_cons_self with rfl | ⟨chunk, rfl⟩
      · exact hrest
      · exact congrArg (chunk.data ++ ·) hrest

/-- A plain source hands over its elements and keeps the rest ready. -/
theorem Source.Plain.ready_of_delivered {src next : Source α cap} {got : List α} (h : src.Plain)
    (hread : src.Delivered next got) : src.ready = got ++ next.ready := by
  have hnext := h.of_delivered hread
  obtain ⟨used, hscript, rfl, -⟩ := hread
  rw [h.ready_eq, hnext.ready_eq, hscript, received_append]

/-- A stream given as chunks with EINTR failures (`none`) in between, and its ending. -/
def Source.ofStream (chunks : List (Option (Chunk α cap))) (ending : Ending) : Source α cap :=
  ⟨chunks.map fun chunk => chunk.elim .interrupted .data, ending⟩

/-- The elements of a stream given as chunks. -/
def streamData (chunks : List (Option (Chunk α cap))) : List α :=
  chunks.flatMap fun chunk => chunk.elim [] Chunk.data

theorem Source.of_stream_plain (chunks : List (Option (Chunk α cap))) (ending : Ending) :
    (Source.ofStream chunks ending).Plain := by
  intro outcome ho
  obtain ⟨chunk, -, rfl⟩ := List.mem_map.mp ho
  cases chunk with
  | none => exact .inl rfl
  | some chunk => exact .inr ⟨chunk, rfl⟩

/-- All of a stream's elements are ready, whatever the chunks are. -/
theorem ready_script_append (chunks : List (Option (Chunk α cap)))
    (rest : List (ReadOutcome α cap)) :
    readyScript ((chunks.map fun chunk => chunk.elim .interrupted .data) ++ rest) =
      streamData chunks ++ readyScript rest := by
  induction chunks with
  | nil => rfl
  | cons chunk chunks ih =>
      cases chunk with
      | none => exact ih
      | some chunk =>
          simp only [List.map_cons, List.cons_append, Option.elim_some, readyScript, ih,
            streamData, List.flatMap_cons, List.append_assoc]

/-- A stream does not stop a script; what follows it does. -/
theorem stop_script_append (ending : Ending) (chunks : List (Option (Chunk α cap)))
    (rest : List (ReadOutcome α cap)) :
    stopScript ending ((chunks.map fun chunk => chunk.elim .interrupted .data) ++ rest) =
      stopScript ending rest := by
  induction chunks with
  | nil => rfl
  | cons chunk chunks ih =>
      cases chunk with
      | none => exact ih
      | some chunk => exact ih

theorem Source.of_stream_ready (chunks : List (Option (Chunk α cap))) (ending : Ending) :
    (Source.ofStream chunks ending).ready = streamData chunks := by
  simpa [Source.ready, Source.ofStream, readyScript] using ready_script_append chunks []

/-- Any elements can be handed over, one at a time. -/
theorem Source.exists_ready (data : List α) (hcap : 0 < cap) :
    ∃ src : Source α cap, src.ready = data := by
  induction data with
  | nil => exact ⟨⟨[], .eof⟩, rfl⟩
  | cons a rest ih =>
      obtain ⟨src, hsrc⟩ := ih
      have hready : (⟨.data ⟨[a], List.cons_ne_nil a [], hcap⟩ :: src.script, src.ending⟩ :
          Source α cap).ready = a :: src.ready := rfl
      exact ⟨_, hready.trans (congrArg (a :: ·) hsrc)⟩

end NetLib
