import Mathlib.Data.List.Basic
import Mathlib.Tactic.Common

/-!
# Cutting a stream into bounded lines

What a line reader is for, stated on the whole stream: `takeLine mark k xs` is the shortest
prefix of `xs` that ends in a marked element or has `k` elements, and `cut mark ks xs` cuts
`xs` into such lines, one bound for each line. `lineComplete` says that the stream holds the
whole line, so that no later element can change it.
-/

namespace NetLib

variable {α : Type*} {mark : α → Bool}

/-- The first line of a stream: up to and including the first marked element, at most `k`
elements long. -/
def takeLine (mark : α → Bool) : Nat → List α → List α
  | 0, _ => []
  | _ + 1, [] => []
  | k + 1, x :: xs => if mark x then [x] else x :: takeLine mark k xs

/-- The stream holds its first line entirely: a marked element comes in time or the bound is
reached. -/
def lineComplete (mark : α → Bool) : Nat → List α → Bool
  | 0, _ => true
  | _ + 1, [] => false
  | k + 1, x :: xs => mark x || lineComplete mark k xs

/-- What follows the first line. -/
def dropLine (mark : α → Bool) (k : Nat) (xs : List α) : List α :=
  xs.drop (takeLine mark k xs).length

/-- Cut a stream into lines, one for each bound, until it is used up. -/
def cut (mark : α → Bool) : List Nat → List α → List (List α)
  | [], _ => []
  | _, [] => []
  | k :: ks, x :: xs => takeLine mark k (x :: xs) :: cut mark ks (dropLine mark k (x :: xs))

@[simp] theorem take_line_zero (xs : List α) : takeLine mark 0 xs = [] := rfl

@[simp] theorem take_line_nil (k : Nat) : takeLine mark k [] = [] := by
  cases k <;> rfl

@[simp] theorem line_complete_zero (xs : List α) : lineComplete mark 0 xs = true := rfl

@[simp] theorem drop_line_zero (xs : List α) : dropLine mark 0 xs = xs := rfl

theorem take_line_cons (k : Nat) (x : α) (xs : List α) :
    takeLine mark (k + 1) (x :: xs) = if mark x then [x] else x :: takeLine mark k xs := rfl

/-- A marked element ends the line. -/
theorem take_line_of_mark {k : Nat} {x : α} {xs : List α} (h : mark x = true) :
    takeLine mark (k + 1) (x :: xs) = [x] := by
  simp [takeLine, h]

/-- An unmarked element is followed by the rest of the line. -/
theorem take_line_of_not_mark {k : Nat} {x : α} {xs : List α} (h : mark x = false) :
    takeLine mark (k + 1) (x :: xs) = x :: takeLine mark k xs := by
  simp [takeLine, h]

/-- Dropping a line behind an unmarked element drops that element too. -/
theorem drop_line_of_not_mark {k : Nat} {x : α} {xs : List α} (h : mark x = false) :
    dropLine mark (k + 1) (x :: xs) = dropLine mark k xs := by
  simp [dropLine, takeLine, h]

variable (mark) in
/-- A line is a prefix of its stream. -/
theorem take_line_prefix_self (k : Nat) (xs : List α) : takeLine mark k xs <+: xs := by
  induction k generalizing xs with
  | zero => exact List.nil_prefix
  | succ k ih =>
      cases xs with
      | nil => exact List.prefix_rfl
      | cons x xs =>
          by_cases hx : mark x = true
          · rw [take_line_of_mark hx]
            exact ⟨xs, rfl⟩
          · rw [take_line_of_not_mark (by simpa using hx)]
            exact List.cons_prefix_cons.mpr ⟨rfl, ih xs⟩

variable (mark) in
/-- A line and what follows it make up the stream. -/
theorem take_line_append_drop_line (k : Nat) (xs : List α) :
    takeLine mark k xs ++ dropLine mark k xs = xs := by
  have htake := List.prefix_iff_eq_take.mp (take_line_prefix_self mark k xs)
  rw [dropLine]
  conv_lhs => enter [1]; rw [htake]
  exact List.take_append_drop _ xs

variable (mark) in
/-- A line respects its bound. -/
theorem length_take_line_le (k : Nat) (xs : List α) : (takeLine mark k xs).length ≤ k := by
  induction k generalizing xs with
  | zero => simp
  | succ k ih =>
      cases xs with
      | nil => simp
      | cons x xs =>
          have := ih xs
          rw [take_line_cons]
          split <;> simp only [List.length_cons, List.length_nil] <;> omega

variable (mark) in
/-- A positive bound on a nonempty stream gives a nonempty line. -/
theorem take_line_ne_nil {k : Nat} {xs : List α} (hk : 0 < k) (hxs : xs ≠ []) :
    takeLine mark k xs ≠ [] := by
  obtain ⟨k, rfl⟩ := Nat.exists_eq_succ_of_ne_zero (Nat.ne_of_gt hk)
  obtain ⟨x, xs, rfl⟩ := List.exists_cons_of_ne_nil hxs
  rw [take_line_cons]
  split <;> simp

variable (mark) in
/-- Dropping a line of a nonempty stream makes it shorter. -/
theorem length_drop_line_lt {k : Nat} {xs : List α} (hk : 0 < k) (hxs : xs ≠ []) :
    (dropLine mark k xs).length < xs.length := by
  have hpos := List.length_pos_iff.mpr (take_line_ne_nil mark hk hxs)
  have hle := (take_line_prefix_self mark k xs).length_le
  rw [dropLine, List.length_drop]
  omega

/-! ## Complete lines -/

/-- A stream that does not hold its first line entirely is all of that line. -/
theorem take_line_of_incomplete {k : Nat} {xs : List α} (h : lineComplete mark k xs = false) :
    takeLine mark k xs = xs := by
  induction k generalizing xs with
  | zero => simp at h
  | succ k ih =>
      cases xs with
      | nil => rfl
      | cons x xs =>
          simp only [lineComplete, Bool.or_eq_false_iff] at h
          rw [take_line_of_not_mark h.1, ih h.2]

/-- A line shorter than its bound that nothing follows and nothing marks is incomplete. -/
theorem line_complete_iff {k : Nat} {xs : List α} :
    lineComplete mark k xs = true ↔
      (takeLine mark k xs).length = k ∨ ∃ x ∈ takeLine mark k xs, mark x = true := by
  induction k generalizing xs with
  | zero => simp
  | succ k ih =>
      cases xs with
      | nil => simp [lineComplete]
      | cons x xs =>
          cases hx : mark x with
          | true => simp [lineComplete, takeLine, hx]
          | false => simp [lineComplete, takeLine, hx, ih]

/-- Such a line is shorter than its bound. -/
theorem length_lt_of_incomplete {k : Nat} {xs : List α} (h : lineComplete mark k xs = false) :
    xs.length < k := by
  have hle := length_take_line_le mark k xs
  rw [take_line_of_incomplete h] at hle
  refine Nat.lt_of_le_of_ne hle fun heq => ?_
  have hcomplete : lineComplete mark k xs = true :=
    line_complete_iff.mpr (.inl (by rw [take_line_of_incomplete h, heq]))
  rw [h] at hcomplete
  cases hcomplete

/-- Later elements do not change a complete line. -/
theorem take_line_append {k : Nat} {xs : List α} (h : lineComplete mark k xs = true)
    (ys : List α) : takeLine mark k (xs ++ ys) = takeLine mark k xs := by
  induction k generalizing xs with
  | zero => rfl
  | succ k ih =>
      cases xs with
      | nil => simp [lineComplete] at h
      | cons x xs =>
          cases hx : mark x with
          | true => simp [takeLine, hx]
          | false =>
              simp only [lineComplete, hx, Bool.false_or] at h
              rw [List.cons_append, take_line_of_not_mark hx, take_line_of_not_mark hx, ih h]

/-- A stream that holds its first line entirely still does when more follows. -/
theorem line_complete_append {k : Nat} {xs : List α} (h : lineComplete mark k xs = true)
    (ys : List α) : lineComplete mark k (xs ++ ys) = true := by
  rw [line_complete_iff, take_line_append h]
  exact line_complete_iff.mp h

/-- A stream whose only marked element is its last one is a line, cut at the bound. -/
theorem take_line_append_mark {xs : List α} {m : α} (hxs : ∀ x ∈ xs, mark x = false)
    (hm : mark m = true) (k : Nat) :
    takeLine mark k (xs ++ [m]) = (xs ++ [m]).take k ∧
      lineComplete mark k (xs ++ [m]) = true := by
  induction xs generalizing k with
  | nil => cases k <;> simp [takeLine, lineComplete, hm]
  | cons x xs ih =>
      cases k with
      | zero => exact ⟨rfl, rfl⟩
      | succ k =>
          have hx := hxs x List.mem_cons_self
          obtain ⟨htake, hcomplete⟩ := ih (fun y hy => hxs y (List.mem_cons_of_mem _ hy)) k
          rw [List.cons_append, take_line_of_not_mark hx, htake, List.take_succ_cons, lineComplete,
            hcomplete, Bool.or_true]
          exact ⟨rfl, rfl⟩

/-- A part of a stream holds the first line entirely exactly when it is as long as that line. -/
theorem line_complete_prefix_iff {k : Nat} {part xs : List α} (hpart : part <+: xs)
    (h : lineComplete mark k xs = true) :
    lineComplete mark k part = true ↔ (takeLine mark k xs).length ≤ part.length := by
  induction k generalizing part xs with
  | zero => simp
  | succ k ih =>
      cases xs with
      | nil => simp [lineComplete] at h
      | cons x xs =>
          cases part with
          | nil =>
              have hpos : 0 < (takeLine mark (k + 1) (x :: xs)).length :=
                List.length_pos_iff.mpr
                  (take_line_ne_nil mark (Nat.succ_pos k) (List.cons_ne_nil x xs))
              simp only [lineComplete, List.length_nil, Bool.false_eq_true, false_iff]
              omega
          | cons y part =>
              obtain ⟨rfl, hrest⟩ := List.cons_prefix_cons.mp hpart
              cases hy : mark y with
              | true => simp [lineComplete, takeLine, hy]
              | false =>
                  simp only [lineComplete, hy, Bool.false_or] at h
                  simpa [lineComplete, takeLine, hy] using ih hrest h

/-- A list is unmarked if its last element is, and those before it are. -/
theorem not_mark_of_dropLast {xs : List α} (hinit : ∀ x ∈ xs.dropLast, mark x = false)
    (hlast : ∀ x ∈ xs.getLast?, mark x = false) : ∀ x ∈ xs, mark x = false := by
  rcases List.eq_nil_or_concat xs with rfl | ⟨init, last, rfl⟩
  · intro x hx
    cases hx
  · rw [List.concat_eq_append] at hinit hlast ⊢
    rw [List.dropLast_concat] at hinit
    rw [List.getLast?_concat] at hlast
    exact List.forall_mem_append.mpr ⟨hinit, List.forall_mem_singleton.mpr (hlast last rfl)⟩

/-- Only the last element of a line may be marked. -/
theorem not_mark_of_mem_dropLast {k : Nat} {xs : List α} {x : α}
    (hx : x ∈ (takeLine mark k xs).dropLast) : mark x = false := by
  induction k generalizing xs with
  | zero => simp at hx
  | succ k ih =>
      cases xs with
      | nil => simp at hx
      | cons y xs =>
          cases hy : mark y with
          | true => simp [takeLine, hy] at hx
          | false =>
              rw [take_line_of_not_mark hy] at hx
              cases htail : takeLine mark k xs with
              | nil => simp [htail] at hx
              | cons z zs =>
                  rw [htail, List.dropLast_cons_cons] at hx
                  rcases List.mem_cons.mp hx with rfl | hx
                  · exact hy
                  · exact ih (htail ▸ hx)

/-- The line has a mark exactly if there is one within its bound. -/
theorem exists_mark_take_line_iff {k : Nat} {xs : List α} :
    (∃ x ∈ takeLine mark k xs, mark x = true) ↔ ∃ x ∈ xs.take k, mark x = true := by
  induction k generalizing xs with
  | zero => simp
  | succ k ih =>
      cases xs with
      | nil => simp
      | cons x xs =>
          cases hx : mark x with
          | true => simp [takeLine, hx]
          | false => simp [takeLine, hx, ih]

/-- In a line with a mark all elements but one are unmarked. -/
theorem count_unmarked {k : Nat} {xs : List α} (h : ∃ x ∈ takeLine mark k xs, mark x = true) :
    1 + (takeLine mark k xs).countP (!mark ·) = (takeLine mark k xs).length := by
  induction k generalizing xs with
  | zero => simp at h
  | succ k ih =>
      cases xs with
      | nil => simp at h
      | cons x xs =>
          cases hx : mark x with
          | true => simp [takeLine, hx]
          | false =>
              rw [take_line_of_not_mark hx] at h ⊢
              have hrest := ih (by simpa [hx] using h)
              rw [List.countP_cons_of_pos (by simp [hx]), List.length_cons]
              omega

/-- A complete line without a mark is as long as its bound. -/
theorem length_of_unmarked {k : Nat} {xs : List α} (hcomplete : lineComplete mark k xs = true)
    (h : ¬ ∃ x ∈ takeLine mark k xs, mark x = true) :
    (takeLine mark k xs).length = k ∧ (takeLine mark k xs).countP (!mark ·) = k := by
  have hlength := (line_complete_iff.mp hcomplete).resolve_right h
  refine ⟨hlength, ?_⟩
  rw [← hlength, hlength, List.countP_eq_length.mpr, hlength]
  intro x hx
  simpa using fun hmark => h ⟨x, hx, hmark⟩

/-! ## Cutting the whole stream -/

@[simp] theorem cut_nil (ks : List Nat) : cut mark ks [] = [] := by
  cases ks <;> rfl

variable (mark) in
/-- The lines of a cut, joined, are a prefix of the stream. -/
theorem cut_flatten_prefix_self (ks : List Nat) (xs : List α) :
    (cut mark ks xs).flatten <+: xs := by
  induction ks generalizing xs with
  | nil => exact List.nil_prefix
  | cons k ks ih =>
      cases xs with
      | nil => exact List.nil_prefix
      | cons x xs =>
          rw [cut, List.flatten_cons]
          conv_rhs => rw [← take_line_append_drop_line mark k (x :: xs)]
          exact (List.prefix_append_right_inj _).mpr (ih _)

/-- Enough positive bounds cut the whole stream: nothing is lost, repeated or reordered. -/
theorem cut_flatten {ks : List Nat} {xs : List α} (hpos : ∀ k ∈ ks, 0 < k)
    (hlen : xs.length ≤ ks.length) : (cut mark ks xs).flatten = xs := by
  induction ks generalizing xs with
  | nil => simp [List.eq_nil_of_length_eq_zero (Nat.le_zero.mp hlen)]
  | cons k ks ih =>
      cases xs with
      | nil => rfl
      | cons x xs =>
          have hlt := length_drop_line_lt mark (hpos k (by simp)) (List.cons_ne_nil x xs)
          have hrest : (cut mark ks (dropLine mark k (x :: xs))).flatten =
              dropLine mark k (x :: xs) :=
            ih (fun j hj => hpos j (by simp [hj])) (by simp at hlt hlen; omega)
          rw [cut, List.flatten_cons, hrest, take_line_append_drop_line]

/-- A line of a cut that is neither closed by a mark nor full is the last one. -/
theorem cut_last_of_incomplete {k n : Nat} {xs line : List α} {front back : List (List α)}
    (hcut : cut mark (List.replicate n k) xs = front ++ line :: back)
    (hfull : line.length ≠ k) (hmark : ∀ x ∈ line, mark x = false) : back = [] := by
  induction n generalizing xs front with
  | zero => simp [cut] at hcut
  | succ n ih =>
      cases xs with
      | nil => simp at hcut
      | cons x xs =>
          rw [List.replicate_succ, cut] at hcut
          cases front with
          | nil =>
              obtain ⟨hline, hback⟩ := List.cons.inj hcut
              have hincomplete : lineComplete mark k (x :: xs) = false := by
                by_contra hne
                rcases line_complete_iff.mp (by simpa using hne) with hlen | ⟨y, hy, hmarked⟩
                · exact hfull (hline ▸ hlen)
                · exact absurd (hmark y (hline ▸ hy)) (by simp [hmarked])
              rw [← hback, dropLine, take_line_of_incomplete hincomplete, List.drop_length,
                cut_nil]
          | cons first front =>
              obtain ⟨-, hrest⟩ := List.cons.inj hcut
              exact ih hrest

/-- Every line of a cut is the first line of what was left of the stream. -/
theorem exists_take_line_of_mem_cut {ks : List Nat} {xs line : List α}
    (h : line ∈ cut mark ks xs) : ∃ k ∈ ks, ∃ ys, ys ≠ [] ∧ line = takeLine mark k ys := by
  induction ks generalizing xs with
  | nil => simp [cut] at h
  | cons k ks ih =>
      cases xs with
      | nil => simp at h
      | cons x xs =>
          rcases List.mem_cons.mp h with rfl | h
          · exact ⟨k, by simp, x :: xs, by simp, rfl⟩
          · obtain ⟨j, hj, hline⟩ := ih h
            exact ⟨j, by simp [hj], hline⟩

end NetLib
