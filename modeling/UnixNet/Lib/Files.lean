import UnixNet.Lib.Execution
import UnixNet.Lib.Text

/-!
# Standard I/O streams

A program that uses streams, as the list of calls it makes on them. A stream is known by the number
of the `fopen` that returned it. It may be used from then on until it is closed: `Sound` says that
no call uses a stream at another time. `written` is what a stream gets from all calls together, and
`textLines` cuts it into lines.
-/

namespace NetLib

/-- A call on a stream. `none` is the null pointer: a failing `fopen` returns it. -/
inductive FileCall where
  | fopen (name : Bytes) (ret : Option Nat)
  | fprintf (file : Option Nat) (text : Bytes)
  | fclose (file : Nat)
  | stderr (text : Bytes)
  deriving DecidableEq

/-- What a call does to the list of open streams. -/
def FileCall.effect (streams : List Nat) : FileCall → List Nat
  | .fopen _ (some file) => streams ++ [file]
  | .fclose file => streams.filter (· ≠ file)
  | _ => streams

/-- The streams that are open after some calls. -/
def openFiles (calls : List FileCall) : List Nat :=
  calls.foldl FileCall.effect []

/-- The call uses a stream that is open, or none. -/
def FileCall.Allowed (streams : List Nat) : FileCall → Prop
  | .fprintf file _ => ∃ f, file = some f ∧ f ∈ streams
  | .fclose file => file ∈ streams
  | _ => True

/-- No call writes to a stream that is not open, or closes one. -/
def Sound (calls : List FileCall) : Prop :=
  ¬ Somewhere (fun before c => ¬ c.Allowed (openFiles before)) calls

/-- The text that a call writes to a stream. -/
def FileCall.output (file : Nat) : FileCall → Bytes
  | .fprintf (some f) text => if f = file then text else []
  | _ => []

/-- What is written to a stream, by all calls together. -/
def written (file : Nat) (calls : List FileCall) : Bytes :=
  (calls.map (FileCall.output file)).flatten

/-- The lines of a text, without their newlines. What is behind the last newline is no line. -/
def textLines (text : Bytes) : List Bytes :=
  (text.splitOn 10).dropLast

theorem sound_nil : Sound [] :=
  somewhere_nil

/-- One more call. -/
theorem open_files_concat (calls : List FileCall) (c : FileCall) :
    openFiles (calls ++ [c]) = c.effect (openFiles calls) := by
  simp [openFiles, List.foldl_append]

theorem sound_concat {calls : List FileCall} {c : FileCall} :
    Sound (calls ++ [c]) ↔ Sound calls ∧ c.Allowed (openFiles calls) := by
  rw [Sound, somewhere_concat, not_or, not_not]
  rfl

/-- A stream gets what is printed to it. -/
theorem output_fprintf (file : Option Nat) (text : Bytes) (f : Nat) :
    (FileCall.fprintf file text).output f = if file = some f then text else [] := by
  cases file with
  | none => rfl
  | some g => simp [FileCall.output]

/-- One more call. -/
theorem written_concat (file : Nat) (calls : List FileCall) (c : FileCall) :
    written file (calls ++ [c]) = written file calls ++ c.output file := by
  simp [written]

/-- Lines that are written one behind the other are read as they are. -/
theorem text_lines_flatten {ls : List Bytes} (h : ∀ l ∈ ls, 10 ∉ l) :
    textLines (ls.map fun l => l ++ [10]).flatten = ls := by
  have hsplit : ((ls.map fun l => l ++ [10]).flatten).splitOn 10 = ls ++ [[]] := by
    induction ls with
    | nil => rfl
    | cons l rest ih =>
        obtain ⟨hl, hrest⟩ := List.forall_mem_cons.mp h
        rw [List.map_cons, List.flatten_cons, List.append_assoc, List.singleton_append,
          List.splitOn_append_cons_self_of_not_mem hl, ih hrest, List.cons_append]
  rw [textLines, hsplit, List.dropLast_concat]

end NetLib
