import Mathlib.Data.Finset.Basic
import Mathlib.Data.List.Induction

/-!
# Switching options

A set of options that is changed by one argument after the other: an argument sets all of them, or
switches one off. `switched_eq` says what that leaves: the options that were set last, without those
switched off since.
-/

namespace NetLib

/-- An argument that sets the options, or switches one off. -/
inductive Switch (α : Type*) where
  | set (options : Finset α)
  | off (x : α)

variable {α : Type*} [DecidableEq α]

/-- The options after one argument. -/
def Switch.apply (o : Finset α) : Switch α → Finset α
  | .set options => options
  | .off x => o.erase x

/-- The options after a sequence of arguments. -/
def switched (o : Finset α) (args : List (Switch α)) : Finset α :=
  args.foldl Switch.apply o

/-- The options that were set last, at first `o`. -/
def lastSet (o : Finset α) (args : List (Switch α)) : Finset α :=
  args.foldl (fun last a => match a with | .set options => options | .off _ => last) o

/-- The options switched off since. -/
def offSince (args : List (Switch α)) : Finset α :=
  args.foldl (fun off a => match a with | .set _ => ∅ | .off x => insert x off) ∅

variable (o : Finset α) (args : List (Switch α))

omit [DecidableEq α] in
@[simp] theorem last_set_concat (a : Switch α) : lastSet o (args ++ [a]) =
    match a with | .set options => options | .off _ => lastSet o args :=
  List.foldl_concat _ _ _ _

@[simp] theorem off_since_concat (a : Switch α) : offSince (args ++ [a]) =
    match a with | .set _ => ∅ | .off x => insert x (offSince args) :=
  List.foldl_concat _ _ _ _

@[simp] theorem switched_concat (a : Switch α) :
    switched o (args ++ [a]) = a.apply (switched o args) :=
  List.foldl_concat _ _ _ _

/-- What is left are the options that were set last, without those switched off since. -/
theorem switched_eq : switched o args = lastSet o args \ offSince args := by
  induction args using List.reverseRecOn with
  | nil => exact Finset.sdiff_empty.symm
  | append_singleton args a ih =>
      rw [switched_concat, last_set_concat, off_since_concat, ih]
      cases a with
      | set options => exact Finset.sdiff_empty.symm
      | off x => exact (Finset.sdiff_insert _ _ _).symm

end NetLib
