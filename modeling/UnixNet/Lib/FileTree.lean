import Mathlib.Data.List.Basic
import Mathlib.Tactic.Common

/-!
# Paths in a file system

A file system as a graph of inodes: a directory has an inode for each of its names, the two dot
names among them. A path is cut into names at the separator, and looked up name by name, from the
root directory if it starts with the separator and from the working directory if not. What a path
with one more name leads to is that name in the directory that the path leads to
(`FileTree.resolve_join`). An entry that is a symbolic link is an entry for what the link leads to.
Which entries leave a directory, as links and the name of the parent may do, is a parameter of
`FileTree.Below`.
-/

namespace NetLib

variable {ι α : Type*} {sep : α}

/-- The directories of a file system. Only a directory has entries, and the name of an entry is one
segment of a path. -/
structure FileTree (ι α : Type*) (sep : α) where
  isDirectory : ι → Bool
  entry : ι → List α → Option ι
  root : ι
  directory_of_entry : ∀ {dir name i}, entry dir name = some i → isDirectory dir = true
  segment_of_entry : ∀ {dir name i}, entry dir name = some i → name ≠ [] ∧ sep ∉ name

/-- Look up names one after the other. An empty one asks for a directory, and stays there. -/
def FileTree.walk (tree : FileTree ι α sep) : ι → List (List α) → Option ι
  | i, [] => some i
  | i, [] :: rest => if tree.isDirectory i then tree.walk i rest else none
  | i, (c :: name) :: rest => (tree.entry i (c :: name)).bind fun next => tree.walk next rest

variable [DecidableEq α]

/-- What a path leads to. The empty path leads nowhere. -/
def FileTree.resolve (tree : FileTree ι α sep) (cwd : ι) : List α → Option ι
  | [] => none
  | c :: path => tree.walk (if c = sep then tree.root else cwd) ((c :: path).splitOn sep)

variable {tree : FileTree ι α sep} {cwd : ι}

omit [DecidableEq α] in
/-- Names behind others are looked up where those lead. -/
theorem FileTree.walk_append (i : ι) (names more : List (List α)) :
    tree.walk i (names ++ more) = (tree.walk i names).bind fun next => tree.walk next more := by
  induction names generalizing i with
  | nil => rfl
  | cons name rest ih =>
      cases name with
      | nil =>
          rw [List.cons_append, walk, walk, ih]
          split <;> rfl
      | cons c name =>
          rw [List.cons_append, walk, walk, Option.bind_assoc]
          exact Option.bind_congr fun next _ => ih next

omit [DecidableEq α] in
/-- One name. -/
theorem FileTree.walk_name (i : ι) {name : List α} (hname : name ≠ []) :
    tree.walk i [name] = tree.entry i name := by
  obtain ⟨c, name, rfl⟩ := List.exists_cons_of_ne_nil hname
  rw [walk]
  exact Option.bind_fun_some _

/-- A path that is one name leads to the entry of the working directory. -/
theorem FileTree.resolve_name {name : List α} (hname : name ≠ []) (hsep : sep ∉ name) :
    tree.resolve cwd name = tree.entry cwd name := by
  obtain ⟨c, rest, rfl⟩ := List.exists_cons_of_ne_nil hname
  have hc : c ≠ sep := fun heq => hsep (heq ▸ List.mem_cons_self)
  rw [resolve, if_neg hc, List.splitOn_eq_singleton hsep, walk_name cwd hname]

/-- A path that goes on behind a separator with one name. -/
theorem FileTree.resolve_join {path name : List α} (hpath : path ≠ []) (hname : name ≠ [])
    (hsep : sep ∉ name) :
    tree.resolve cwd (path ++ sep :: name) =
      (tree.resolve cwd path).bind fun dir => tree.entry dir name := by
  obtain ⟨c, rest, rfl⟩ := List.exists_cons_of_ne_nil hpath
  rw [List.cons_append, resolve, resolve, ← List.cons_append, List.splitOn_append_cons_self,
    List.splitOn_eq_singleton hsep, walk_append]
  exact Option.bind_congr fun dir _ => walk_name dir hname

/-- A path that goes on behind a separator. -/
theorem FileTree.resolve_append (path rest : List α) :
    tree.resolve cwd (path ++ sep :: rest) =
      (tree.walk (if path.head?.all (· = sep) then tree.root else cwd) (path.splitOn sep)).bind
        fun dir => tree.walk dir (rest.splitOn sep) := by
  rw [← walk_append, ← List.splitOn_append_cons_self]
  cases path with
  | nil => simp [resolve]
  | cons c path => simp [resolve]

/-- A separator behind a path leads to where the path leads. -/
theorem FileTree.resolve_of_trailing {path : List α} {i : ι} (hpath : path ≠ [])
    (h : tree.resolve cwd (path ++ [sep]) = some i) : tree.resolve cwd path = some i := by
  rw [show path ++ [sep] = path ++ sep :: [] from rfl, resolve_append] at h
  obtain ⟨dir, hdir, hwalk⟩ := Option.bind_eq_some_iff.mp h
  rw [List.splitOn_nil, walk] at hwalk
  obtain ⟨-, hsame⟩ := Option.ite_none_right_eq_some.mp hwalk
  obtain rfl := Option.some.inj hsame
  obtain ⟨c, rest, rfl⟩ := List.exists_cons_of_ne_nil hpath
  rw [resolve, ← hdir]
  simp

omit [DecidableEq α] in
/-- A text without the separator is a part of a path if it is a part of what is in front of a
separator, or of what is behind it. -/
theorem infix_append_cons_iff {text first rest : List α} (h : sep ∉ text) :
    text <:+: first ++ sep :: rest ↔ text <:+: first ∨ text <:+: rest := by
  constructor
  · rintro ⟨before, after, heq⟩
    rcases List.append_eq_append_iff.mp heq with ⟨more, rfl, -⟩ | ⟨more, hfront, hmore⟩
    · exact .inl ⟨before, more, rfl⟩
    · cases more with
      | nil => exact .inl ⟨before, [], by rw [hfront]; simp⟩
      | cons c more =>
          obtain ⟨rfl, rfl⟩ := List.cons.inj hmore
          rcases List.append_eq_append_iff.mp hfront with ⟨piece, -, rfl⟩ | ⟨piece, -, hpiece⟩
          · exact absurd (by simp) h
          · cases piece with
            | nil =>
                rw [List.nil_append] at hpiece
                exact absurd (hpiece ▸ List.mem_cons_self) h
            | cons c piece =>
                obtain ⟨-, rfl⟩ := List.cons.inj hpiece
                exact .inr ⟨piece, after, rfl⟩
  · rintro (hfirst | hrest)
    · exact hfirst.trans (List.prefix_append _ _).isInfix
    · exact hrest.trans ((List.suffix_cons _ _).trans (List.suffix_append _ _)).isInfix

/-- What is reached from a directory through entries that do not lead `outward`. -/
inductive FileTree.Below (tree : FileTree ι α sep) (outward : ι → List α → Prop) (dir : ι) :
    ι → Prop
  | refl : Below tree outward dir dir
  | entry {i next : ι} {name : List α} : Below tree outward dir i → ¬outward i name →
      tree.entry i name = some next → Below tree outward dir next

variable {outward : ι → List α → Prop}

omit [DecidableEq α] in
/-- What is below something below a directory is below the directory. -/
theorem FileTree.Below.trans {dir mid i : ι} (h : tree.Below outward dir mid)
    (hnext : tree.Below outward mid i) : tree.Below outward dir i := by
  induction hnext with
  | refl => exact h
  | entry _ hname hentry ih => exact ih.entry hname hentry

/-- Only a path that is not empty leads anywhere. -/
theorem FileTree.ne_nil_of_resolve {path : List α} {i : ι} (h : tree.resolve cwd path = some i) :
    path ≠ [] := by
  rintro rfl
  cases h

end NetLib
