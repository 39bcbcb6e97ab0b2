import Mathlib.Data.List.Basic
import Mathlib.Tactic.Common

/-!
# Lexical normalization of paths

A path is a list of characters, cut into segments at the separator. `descend` walks through the
segments the way a lexical normalization does: an empty or dot segment stays, a name is entered, a
dot-dot segment leaves the directory entered last, and fails where there is none. A path is
`Confined` if it is relative and the walk does not fail. That is a matter of counting
(`confined_iff`): among no number of leading segments are there more dot-dot segments than names.
The `steps` of a path are its segments without those that stay.
-/

namespace NetLib

variable {α : Type*} [DecidableEq α] {sep dot : α}

/-- What a segment of a path does. -/
inductive SegmentKind where
  | here
  | parent
  | name
  deriving DecidableEq

/-- The kind of a segment. -/
def segmentKind (dot : α) (segment : List α) : SegmentKind :=
  if segment = [] ∨ segment = [dot] then .here
  else if segment = [dot, dot] then .parent
  else .name

/-- Walk through segments. `entered` are the directories entered so far, the last one first. -/
def descend (dot : α) : List (List α) → List (List α) → Option (List (List α))
  | entered, [] => some entered
  | entered, segment :: rest =>
      match segmentKind dot segment with
      | .here => descend dot entered rest
      | .name => descend dot (segment :: entered) rest
      | .parent =>
          match entered with
          | [] => none
          | _ :: outer => descend dot outer rest

/-- A relative path whose normalization never climbs above the directory where it starts. -/
structure Confined (sep dot : α) (path : List α) : Prop where
  relative : path.head? ≠ some sep
  inside : (descend dot [] (path.splitOn sep)).isSome = true

instance (path : List α) : Decidable (Confined sep dot path) :=
  decidable_of_iff
    (path.head? ≠ some sep ∧ (descend dot [] (path.splitOn sep)).isSome = true)
    ⟨fun h => ⟨h.1, h.2⟩, fun h => ⟨h.relative, h.inside⟩⟩

/-- How many of the first `n` segments are of a kind. -/
def countKind (dot : α) (kind : SegmentKind) (segments : List (List α)) (n : Nat) : Nat :=
  (segments.take n).countP fun segment => segmentKind dot segment = kind

/-- Among no number of leading segments are there more dot-dot segments than names and `entered`
further directories. -/
def Balanced (dot : α) (entered : Nat) (segments : List (List α)) : Prop :=
  ∀ n, countKind dot .parent segments n ≤ entered + countKind dot .name segments n

/-- The first segment counts if it is of the kind. -/
theorem count_kind_cons (kind : SegmentKind) (segment : List α) (rest : List (List α)) (n : Nat) :
    countKind dot kind (segment :: rest) (n + 1) =
      countKind dot kind rest n + if segmentKind dot segment = kind then 1 else 0 := by
  simp [countKind, List.countP_cons]

/-- Among no segments is none of any kind. -/
@[simp] theorem count_kind_zero (kind : SegmentKind) (segments : List (List α)) :
    countKind dot kind segments 0 = 0 := by
  simp [countKind]

/-- A segment that stays does not matter. -/
theorem balanced_cons_here {entered : Nat} {segment : List α} {rest : List (List α)}
    (h : segmentKind dot segment = .here) :
    Balanced dot entered (segment :: rest) ↔ Balanced dot entered rest := by
  constructor
  · intro hall n
    simpa [count_kind_cons, h] using hall (n + 1)
  · intro hall n
    cases n with
    | zero => simp
    | succ n => simpa [count_kind_cons, h] using hall n

/-- A name is one more directory that can be left. -/
theorem balanced_cons_name {entered : Nat} {segment : List α} {rest : List (List α)}
    (h : segmentKind dot segment = .name) :
    Balanced dot entered (segment :: rest) ↔ Balanced dot (entered + 1) rest := by
  constructor
  · intro hall n
    have := hall (n + 1)
    simp only [count_kind_cons, h, reduceCtorEq, if_false, if_true] at this
    omega
  · intro hall n
    cases n with
    | zero => simp
    | succ n =>
        have := hall n
        simp only [count_kind_cons, h, reduceCtorEq, if_false, if_true]
        omega

/-- A dot-dot segment needs a directory to leave. -/
theorem balanced_cons_parent {entered : Nat} {segment : List α} {rest : List (List α)}
    (h : segmentKind dot segment = .parent) :
    Balanced dot entered (segment :: rest) ↔ 0 < entered ∧ Balanced dot (entered - 1) rest := by
  constructor
  · intro hall
    have hfirst := hall 1
    simp only [count_kind_cons, count_kind_zero, h, reduceCtorEq, if_false, if_true] at hfirst
    refine ⟨by omega, ?_⟩
    intro n
    have := hall (n + 1)
    simp only [count_kind_cons, h, reduceCtorEq, if_false, if_true] at this
    omega
  · rintro ⟨hpos, hall⟩ n
    cases n with
    | zero => simp
    | succ n =>
        have := hall n
        simp only [count_kind_cons, h, reduceCtorEq, if_false, if_true]
        omega

variable (dot) in
/-- The walk fails exactly if some leading segments leave more directories than were entered. -/
theorem descend_isSome_iff (entered segments : List (List α)) :
    (descend dot entered segments).isSome = true ↔ Balanced dot entered.length segments := by
  induction segments generalizing entered with
  | nil => simp [descend, Balanced, countKind]
  | cons segment rest ih =>
      cases hkind : segmentKind dot segment with
      | here => simp only [descend, hkind, ih, balanced_cons_here hkind]
      | name => simp only [descend, hkind, ih, balanced_cons_name hkind, List.length_cons]
      | parent =>
          rw [balanced_cons_parent hkind]
          cases entered with
          | nil => simp [descend, hkind]
          | cons _ outer => simp [descend, hkind, ih]

/-- Confinement is a matter of counting. -/
theorem confined_iff (path : List α) :
    Confined sep dot path ↔ path.head? ≠ some sep ∧ Balanced dot 0 (path.splitOn sep) := by
  rw [← List.length_nil (α := List α), ← descend_isSome_iff]
  exact ⟨fun h => ⟨h.relative, h.inside⟩, fun h => ⟨h.1, h.2⟩⟩

/-- The condition on a path for the path with a dot in front of it: the first segment is no dot
segment, and balanced are the others, where a nonempty first segment counts as a directory that was
entered. -/
def DotConfined (sep dot : α) (path : List α) : Prop :=
  (path.splitOn sep).head? ≠ some [dot] ∧
    Balanced dot (if (path.splitOn sep).head? = some [] then 0 else 1) (path.splitOn sep).tail

/-- A dot in front of a path joins its first segment. It makes an empty segment a dot segment, a dot
segment a dot-dot segment, and any other one a name. -/
theorem confined_dot_iff (hsep : dot ≠ sep) (path : List α) :
    Confined sep dot (dot :: path) ↔ DotConfined sep dot path := by
  obtain ⟨first, rest, h⟩ := List.exists_cons_of_ne_nil (List.splitOn_ne_nil sep path)
  have hsplit : (dot :: path).splitOn sep = (dot :: first) :: rest := by
    rw [List.splitOn_cons_eq_if_modifyHead, if_neg (by simpa using hsep), h]
    rfl
  rw [confined_iff, hsplit, DotConfined, h]
  by_cases hempty : first = []
  · have hkind : segmentKind dot (dot :: first) = .here := by
      simp [segmentKind, hempty]
    rw [balanced_cons_here hkind]
    simp [hsep, hempty]
  · by_cases hdot : first = [dot]
    · have hkind : segmentKind dot (dot :: first) = .parent := by
        simp [segmentKind, hdot]
      rw [balanced_cons_parent hkind]
      simp [hdot]
    · have hkind : segmentKind dot (dot :: first) = .name := by
        simp [segmentKind, hempty, hdot]
      rw [balanced_cons_name hkind]
      simp [hsep, hempty, hdot]

/-! ## Steps and segments -/

/-- The segments of a path that matter: those that are neither empty nor a dot segment. -/
def moving (dot : α) (segments : List (List α)) : List (List α) :=
  segments.filter fun segment => segmentKind dot segment ≠ .here

/-- A path up to redundant separators and dot segments. -/
def steps (sep dot : α) (path : List α) : List (List α) :=
  moving dot (path.splitOn sep)

@[simp] theorem moving_append (first second : List (List α)) :
    moving dot (first ++ second) = moving dot first ++ moving dot second :=
  List.filter_append first second

@[simp] theorem moving_nil_cons (segments : List (List α)) :
    moving dot ([] :: segments) = moving dot segments := by
  simp [moving, segmentKind]

@[simp] theorem moving_dot_cons (segments : List (List α)) :
    moving dot ([dot] :: segments) = moving dot segments := by
  simp [moving, segmentKind]

/-- Empty segments and dot segments stay. -/
theorem segment_kind_here_iff (segment : List α) :
    segmentKind dot segment = .here ↔ segment = [] ∨ segment = [dot] := by
  unfold segmentKind
  split
  · next hhere => exact iff_of_true rfl hhere
  · next hhere => split <;> exact iff_of_false (by decide) hhere

/-- Names all matter. -/
theorem moving_eq_self {segments : List (List α)}
    (h : ∀ segment ∈ segments, segment ≠ [] ∧ segment ≠ [dot]) :
    moving dot segments = segments := by
  refine List.filter_eq_self.mpr fun segment hsegment => ?_
  rw [decide_eq_true_eq, ne_eq, segment_kind_here_iff, not_or]
  exact h segment hsegment

/-- A segment that is not empty and no dot segment matters. -/
theorem moving_singleton {segment : List α} (hne : segment ≠ []) (hdot : segment ≠ [dot]) :
    moving dot [segment] = [segment] :=
  moving_eq_self (by simp [hne, hdot])

/-- The steps of a path that goes on behind a separator. -/
theorem steps_append (path rest : List α) :
    steps sep dot (path ++ sep :: rest) = steps sep dot path ++ steps sep dot rest := by
  rw [steps, List.splitOn_append_cons_self, moving_append]
  rfl

/-- A leading separator is redundant. -/
theorem steps_sep_cons (rest : List α) : steps sep dot (sep :: rest) = steps sep dot rest :=
  steps_append [] rest

/-- A leading dot is redundant in front of a separator. -/
theorem steps_dot_cons (hdot : dot ≠ sep) {path rest : List α} (h : path <+: sep :: rest) :
    steps sep dot (dot :: path) = steps sep dot path := by
  have hname : ([dot] : List α).splitOn sep = [[dot]] :=
    List.splitOn_eq_singleton (by simpa using hdot.symm)
  have hnone : steps sep dot [dot] = [] := by
    rw [steps, hname, moving_dot_cons]
    rfl
  rcases List.prefix_cons_iff.mp h with rfl | ⟨tail, rfl, -⟩
  · rw [hnone]
    simp [steps, moving, segmentKind]
  · rw [steps_sep_cons, ← List.singleton_append, steps_append, hnone]
    rfl

/-- A segment consists of characters of the path other than the separator. -/
theorem mem_of_mem_segment {path segment : List α} (h : segment ∈ path.splitOn sep) {c : α}
    (hc : c ∈ segment) : c ∈ path ∧ c ≠ sep := by
  induction path generalizing segment with
  | nil =>
      obtain rfl := List.mem_singleton.mp h
      cases hc
  | cons b path ih =>
      obtain ⟨first, rest, hsplit⟩ := List.exists_cons_of_ne_nil (List.splitOn_ne_nil sep path)
      rw [List.splitOn_cons_eq_if_modifyHead, hsplit] at h
      rw [hsplit] at ih
      by_cases hb : b = sep
      · rw [if_pos (beq_iff_eq.mpr hb)] at h
        rcases List.mem_cons.mp h with rfl | h
        · cases hc
        · obtain ⟨hmem, hne⟩ := ih h hc
          exact ⟨List.mem_cons_of_mem b hmem, hne⟩
      · rw [if_neg (mt beq_iff_eq.mp hb)] at h
        rcases List.mem_cons.mp h with rfl | h
        · rcases List.mem_cons.mp hc with rfl | hc
          · exact ⟨List.mem_cons_self, hb⟩
          · obtain ⟨hmem, hne⟩ := ih List.mem_cons_self hc
            exact ⟨List.mem_cons_of_mem b hmem, hne⟩
        · obtain ⟨hmem, hne⟩ := ih (List.mem_cons_of_mem first h) hc
          exact ⟨List.mem_cons_of_mem b hmem, hne⟩

/-- A name put behind a path joins its last segment. -/
theorem split_append_name {name : List α} (hsep : sep ∉ name) (path : List α) :
    ∃ last, (path ++ name).splitOn sep = (path.splitOn sep).dropLast ++ [last ++ name] := by
  induction path with
  | nil => exact ⟨[], List.splitOn_eq_singleton hsep⟩
  | cons b path ih =>
      obtain ⟨last, hlast⟩ := ih
      obtain ⟨first, rest, hsplit⟩ := List.exists_cons_of_ne_nil (List.splitOn_ne_nil sep path)
      rw [List.cons_append, List.splitOn_cons_eq_if_modifyHead,
        List.splitOn_cons_eq_if_modifyHead, hlast, hsplit]
      by_cases hb : (b == sep) = true
      · rw [if_pos hb, if_pos hb]
        exact ⟨last, by simp⟩
      · rw [if_neg hb, if_neg hb]
        cases rest with
        | nil => exact ⟨b :: last, by simp⟩
        | cons next rest => exact ⟨last, by simp⟩

/-- Cutting a path short keeps its segments up to the one where it is cut. -/
theorem split_dropLast_prefix {path longer : List α} (h : path <+: longer) :
    (path.splitOn sep).dropLast <+: (longer.splitOn sep).dropLast := by
  obtain ⟨rest, rfl⟩ := h
  induction path with
  | nil => exact List.nil_prefix
  | cons b path ih =>
      obtain ⟨first, tail, hsplit⟩ := List.exists_cons_of_ne_nil (List.splitOn_ne_nil sep path)
      obtain ⟨head, more, hlonger⟩ :=
        List.exists_cons_of_ne_nil (List.splitOn_ne_nil sep (path ++ rest))
      rw [List.cons_append, List.splitOn_cons_eq_if_modifyHead,
        List.splitOn_cons_eq_if_modifyHead, hsplit, hlonger]
      rw [hsplit, hlonger] at ih
      by_cases hb : (b == sep) = true
      · rw [if_pos hb, if_pos hb]
        exact (List.prefix_cons_inj []).mpr ih
      · rw [if_neg hb, if_neg hb]
        cases tail with
        | nil => exact List.nil_prefix
        | cons next tail =>
            cases more with
            | nil => exact absurd (List.IsPrefix.length_le ih) (by simp)
            | cons other more =>
                obtain ⟨rfl, hrest⟩ := List.cons_prefix_cons.mp ih
                exact List.cons_prefix_cons.mpr ⟨rfl, hrest⟩

end NetLib
