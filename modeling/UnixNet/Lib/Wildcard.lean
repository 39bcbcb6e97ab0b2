import Mathlib.Data.List.Basic
import Mathlib.Data.List.Infix
import Mathlib.Data.List.TakeDrop
import Mathlib.Tactic.Common

/-!
# Names with a star in their first label

A name is a list of characters, cut into labels by `dot`. A pattern whose first label has a `star`
stands for the names in which a nonempty piece of a label is in the place of the star
(`StarMatch`). A pattern is only taken so if there are two further labels and it does not begin with
a reserved prefix (`StarPattern`). `star_match_iff` says how to find the piece: the name has the
labels of the pattern behind the first one, and its first label begins and ends like that of the
pattern and is longer than the two pieces around the star.
-/

namespace NetLib

variable {α : Type*} (star dot : α) (reserved : List α)

/-- The pattern is `pre`, a star, `suf`, a dot and `rest`, with the first star and the first dot of
the pattern there. -/
structure StarPattern (pattern pre suf rest : List α) : Prop where
  eq : pattern = pre ++ star :: (suf ++ dot :: rest)
  star_notMem : star ∉ pre
  dot_notMem : dot ∉ pre ++ star :: suf
  two_dots : dot ∈ rest
  free : ¬ reserved <+: pattern

/-- The name is the pattern with a nonempty piece of a label in the place of the star. -/
def StarMatch (pattern name : List α) : Prop :=
  ∃ pre suf rest piece, StarPattern star dot reserved pattern pre suf rest ∧ piece ≠ [] ∧
    dot ∉ piece ∧ name = pre ++ piece ++ (suf ++ dot :: rest)

variable {star dot reserved}
variable {pattern name pre suf rest label more : List α}

/-- The first place of an element in a list is determined. -/
theorem first_unique {c : α} {before after before' after' : List α} (hbefore : c ∉ before)
    (hbefore' : c ∉ before') (heq : before ++ c :: after = before' ++ c :: after') :
    before = before' ∧ after = after' := by
  induction before generalizing before' with
  | nil =>
      cases before' with
      | nil => exact ⟨rfl, (List.cons.inj heq).2⟩
      | cons x xs => exact absurd ((List.cons.inj heq).1 ▸ List.mem_cons_self) hbefore'
  | cons x xs ih =>
      cases before' with
      | nil => exact absurd ((List.cons.inj heq).1 ▸ List.mem_cons_self) hbefore
      | cons y ys =>
          obtain ⟨rfl, htail⟩ := List.cons.inj heq
          obtain ⟨rfl, hafter⟩ := ih (fun h => hbefore (List.mem_cons_of_mem _ h))
            (fun h => hbefore' (List.mem_cons_of_mem _ h)) htail
          exact ⟨rfl, hafter⟩

/-- There is only one place for the star. -/
theorem StarPattern.unique {pre' suf' rest' : List α}
    (h : StarPattern star dot reserved pattern pre suf rest)
    (h' : StarPattern star dot reserved pattern pre' suf' rest') :
    pre = pre' ∧ suf = suf' ∧ rest = rest' := by
  have heq := h.eq.symm.trans h'.eq
  obtain ⟨hpre, htail⟩ := first_unique h.star_notMem h'.star_notMem heq
  have hsuf : dot ∉ suf := fun hmem => h.dot_notMem (by simp [hmem])
  have hsuf' : dot ∉ suf' := fun hmem => h'.dot_notMem (by simp [hmem])
  obtain ⟨hsame, hrest⟩ := first_unique hsuf hsuf' htail
  exact ⟨hpre, hsame, hrest⟩

/-- A name matches if its first label begins and ends like that of the pattern, with something in
between, and the other labels are those of the pattern. -/
theorem star_match_iff (h : StarPattern star dot reserved pattern pre suf rest)
    (hname : name = label ++ dot :: more) (hlabel : dot ∉ label) :
    StarMatch star dot reserved pattern name ↔
      rest = more ∧ pre.length + 1 + suf.length ≤ label.length ∧ pre = label.take pre.length ∧
        suf = label.drop (label.length - suf.length) := by
  constructor
  · rintro ⟨pre', suf', rest', piece, h', hpiece, hdot, heq⟩
    obtain ⟨rfl, rfl, rfl⟩ := h.unique h'
    have hlong : dot ∉ pre ++ piece ++ suf := by
      intro hmem
      rcases List.mem_append.mp hmem with hfirst | hlast
      · rcases List.mem_append.mp hfirst with hpre | hmid
        · exact h.dot_notMem (List.mem_append_left _ hpre)
        · exact hdot hmid
      · exact h.dot_notMem (by simp [hlast])
    rw [hname, ← List.append_assoc] at heq
    obtain ⟨rfl, rfl⟩ := first_unique hlabel hlong heq
    have hpos := List.length_pos_iff.mpr hpiece
    refine ⟨rfl, ?_, ?_, ?_⟩
    · simp only [List.length_append]
      omega
    · rw [List.append_assoc, List.take_left]
    · rw [show (pre ++ piece ++ suf).length - suf.length = (pre ++ piece).length by
        simp only [List.length_append]; omega, List.drop_left]
  · rintro ⟨rfl, hlen, hpre, hsuf⟩
    -- the piece is what is between the beginning and the end of the label
    have hcut : label = pre ++ (label.take (label.length - suf.length)).drop pre.length ++ suf := by
      have hinit : pre = (label.take (label.length - suf.length)).take pre.length := by
        rw [List.take_take, Nat.min_eq_left (by omega)]
        exact hpre
      conv_lhs => rw [← List.take_append_drop (label.length - suf.length) label, ← hsuf,
        ← List.take_append_drop pre.length (label.take (label.length - suf.length)), ← hinit]
    refine ⟨pre, suf, rest, (label.take (label.length - suf.length)).drop pre.length, h, ?_, ?_, ?_⟩
    · intro hnone
      have := congrArg List.length hnone
      simp only [List.length_take, List.length_drop, List.length_nil] at this
      omega
    · exact fun hmem => hlabel (List.mem_of_mem_take (List.mem_of_mem_drop hmem))
    · rw [hname, ← List.append_assoc, ← hcut]

/-- A name that matches has as many labels as the pattern. -/
theorem StarMatch.count_dot [DecidableEq α] (h : StarMatch star dot reserved pattern name)
    (hne : star ≠ dot) : name.count dot = pattern.count dot := by
  obtain ⟨pre, suf, rest, piece, hpattern, _, hdot, rfl⟩ := h
  have hpiece : piece.count dot = 0 := List.count_eq_zero.mpr hdot
  rw [hpattern.eq]
  simp only [List.count_append, hpiece, List.count_cons_of_ne hne, Nat.add_zero]

/-- It is in the same domain: what follows its first dot is what follows the first dot of the
pattern. -/
theorem StarMatch.domain (h : StarMatch star dot reserved pattern name) :
    ∃ first label domain, dot ∉ first ∧ dot ∉ label ∧ pattern = first ++ dot :: domain ∧
      name = label ++ dot :: domain ∧ dot ∈ domain := by
  obtain ⟨pre, suf, rest, piece, hpattern, _, hdot, rfl⟩ := h
  have hpre : dot ∉ pre := fun hmem => hpattern.dot_notMem (List.mem_append_left _ hmem)
  have hsuf : dot ∉ suf := fun hmem => hpattern.dot_notMem (by simp [hmem])
  refine ⟨pre ++ star :: suf, pre ++ piece ++ suf, rest, hpattern.dot_notMem, ?_, ?_, ?_,
    hpattern.two_dots⟩
  · simp only [List.mem_append, hpre, hdot, hsuf, or_self, not_false_eq_true]
  · rw [hpattern.eq, List.append_assoc, List.cons_append]
  · rw [List.append_assoc (pre ++ piece)]

end NetLib
