import Mathlib.Logic.Function.Basic
import Mathlib.Tactic.Common

/-!
# The descriptors of processes

A process has a table of the files that its descriptors stand for. A new file gets the lowest
descriptor that is not in use (`LowestFree`), so that after a file was opened and closed again
(`Files.close_open`) the next one gets the same descriptor. Files are of any type; a process that is
forked starts with the table of its parent.
-/

namespace NetLib

variable {ω : Type*}

/-- What the descriptors of a process stand for. -/
abbrev Files (ω : Type*) := Nat → Option ω

/-- A descriptor stands for a file from now on. -/
def Files.open (files : Files ω) (fd : Nat) (file : ω) : Files ω :=
  Function.update files fd (some file)

/-- A descriptor stands for nothing from now on. -/
def Files.close (files : Files ω) (fd : Nat) : Files ω :=
  Function.update files fd none

/-- The lowest descriptor that is not in use. -/
structure LowestFree (files : Files ω) (fd : Nat) : Prop where
  free : files fd = none
  used : ∀ d < fd, files d ≠ none

variable {files : Files ω} {fd d : Nat} {file : ω}

@[simp] theorem Files.open_self : files.open fd file fd = some file :=
  Function.update_self ..

@[simp] theorem Files.close_self : files.close fd fd = none :=
  Function.update_self ..

/-- The other descriptors stand for what they stood for. -/
theorem Files.open_of_ne (h : d ≠ fd) : files.open fd file d = files d :=
  Function.update_of_ne h ..

theorem Files.close_of_ne (h : d ≠ fd) : files.close fd d = files d :=
  Function.update_of_ne h ..

/-- Closing what was opened at a free descriptor. -/
theorem Files.close_open (h : files fd = none) : (files.open fd file).close fd = files := by
  rw [Files.open, Files.close, Function.update_idem, ← h, Function.update_eq_self]

/-- What is still open was open before. -/
theorem Files.eq_some_of_close (h : files.close fd d = some file) :
    d ≠ fd ∧ files d = some file := by
  have hne : d ≠ fd := by
    rintro rfl
    rw [Files.close_self] at h
    cases h
  rw [Files.close_of_ne hne] at h
  exact ⟨hne, h⟩

/-- There is one lowest free descriptor. -/
theorem LowestFree.unique (h : LowestFree files fd) (hd : LowestFree files d) : fd = d := by
  rcases Nat.lt_trichotomy fd d with hlt | heq | hlt
  · exact absurd h.free (hd.used fd hlt)
  · exact heq
  · exact absurd hd.free (h.used d hlt)

end NetLib
