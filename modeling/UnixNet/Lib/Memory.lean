import UnixNet.Lib.Text

/-!
# A memory with texts in it

What code does with pointers, where it matters that two of them point into the same array. A
`Memory` gives every address its byte, `Memory.put` is the memory after a text has been written, and
`Memory.Holds` says that a text is to be read at an address. `Access` is what a program does to the
memory, one byte at a time; `ReadsFrom` and `WritesTo` say which addresses it uses.
-/

namespace NetLib

/-- The byte at every address. -/
abbrev Memory := Nat → UInt8

/-- The memory after `text` has been written from address `p` on. -/
def Memory.put (mem : Memory) (p : Nat) (text : Bytes) : Memory :=
  fun a => if p ≤ a then (text[a - p]?).getD (mem a) else mem a

/-- The bytes of `text` are at the addresses from `p` on. -/
def Memory.Holds (mem : Memory) (p : Nat) (text : Bytes) : Prop :=
  ∀ i c, text[i]? = some c → mem (p + i) = c

/-- The bytes at the addresses from `p` on. -/
def Memory.bytes (mem : Memory) : Nat → Nat → Bytes
  | _, 0 => []
  | p, n + 1 => mem p :: mem.bytes (p + 1) n

/-- One byte is read or written. -/
inductive Access where
  | read (address : Nat) (value : UInt8)
  | write (address : Nat) (value : UInt8)
  deriving DecidableEq

/-- The writes of a text at an address, one byte after the other. -/
def writes : Nat → Bytes → List Access
  | _, [] => []
  | p, c :: rest => .write p c :: writes (p + 1) rest

/-- What is read is at addresses from `first` to `last`, and is what `mem` has there. -/
def ReadsFrom (mem : Memory) (first last : Nat) (accesses : List Access) : Prop :=
  ∀ a c, .read a c ∈ accesses → first ≤ a ∧ a ≤ last ∧ mem a = c

/-- What is written is at addresses from `first` to `last`. -/
def WritesTo (first last : Nat) (accesses : List Access) : Prop :=
  ∀ a c, .write a c ∈ accesses → first ≤ a ∧ a ≤ last

variable {mem : Memory} {p : Nat} {text : Bytes}

/-! ## Writing -/

@[simp] theorem Memory.put_nil (mem : Memory) (p : Nat) : mem.put p [] = mem := by
  funext a
  simp [put]

/-- Other addresses keep their bytes. -/
theorem Memory.put_of_outside {a : Nat} (h : a < p ∨ p + text.length ≤ a) :
    mem.put p text a = mem a := by
  unfold put
  split
  · next hle =>
      rw [List.getElem?_eq_none (by omega), Option.getD_none]
  · rfl

/-- What was written is there. -/
theorem Memory.put_holds (mem : Memory) (p : Nat) (text : Bytes) :
    (mem.put p text).Holds p text := by
  intro i c hc
  rw [put, if_pos (Nat.le_add_right p i), Nat.add_sub_cancel_left, hc, Option.getD_some]

/-- A text behind a text. -/
theorem Memory.put_append (mem : Memory) (p : Nat) (text more : Bytes) :
    (mem.put p text).put (p + text.length) more = mem.put p (text ++ more) := by
  funext a
  by_cases hmore : p + text.length ≤ a
  · rw [put, if_pos hmore, put_of_outside (.inr hmore), put, if_pos (by omega),
      List.getElem?_append_right (by omega)]
    congr 2
    omega
  · rw [put_of_outside (.inl (by omega)), put, put]
    by_cases hp : p ≤ a
    · rw [if_pos hp, if_pos hp, List.getElem?_append_left (by omega)]
    · rw [if_neg hp, if_neg hp]

/-- A text over the end of a text. What was behind the end is gone if the new text is no shorter. -/
theorem Memory.put_over (mem : Memory) (p : Nat) {text pad more : Bytes}
    (hlength : pad.length ≤ more.length) :
    (mem.put p (text ++ pad)).put (p + text.length) more = mem.put p (text ++ more) := by
  rw [← put_append, ← put_append]
  generalize mem.put p text = start
  funext a
  by_cases hin : p + text.length ≤ a ∧ a < p + text.length + more.length
  · obtain ⟨i, rfl⟩ := Nat.exists_eq_add_of_le hin.1
    have hi : i < more.length := by omega
    have hc : more[i]? = some more[i] := List.getElem?_eq_getElem hi
    rw [put_holds _ _ more i _ hc, put_holds _ _ more i _ hc]
  · rw [put_of_outside (by omega), put_of_outside (by omega), put_of_outside (by omega)]

/-- One byte more, as a single store writes it. -/
theorem Memory.put_update (mem : Memory) (p : Nat) (text : Bytes) (c : UInt8) :
    Function.update (mem.put p text) (p + text.length) c = mem.put p (text ++ [c]) := by
  rw [← put_append]
  funext a
  by_cases ha : a = p + text.length
  · subst ha
    rw [Function.update_self, put, if_pos (Nat.le_refl _), Nat.sub_self]
    rfl
  · have houtside : a < p + text.length ∨ p + text.length + [c].length ≤ a := by
      rw [List.length_singleton]
      omega
    rw [Function.update_of_ne ha, put_of_outside houtside]

/-- A text at the address where a text ends. -/
theorem Memory.put_behind (mem : Memory) (p : Nat) {q : Nat} {text : Bytes}
    (hq : q = p + text.length) (more : Bytes) :
    (mem.put p text).put q more = mem.put p (text ++ more) := by
  rw [hq, put_append]

/-- A part of a text is replaced by one of the same length. -/
theorem Memory.put_inside (mem : Memory) (p : Nat) {q : Nat} {text old new : Bytes}
    (hq : q = p + text.length) (hlength : old.length = new.length) (more : Bytes) :
    (mem.put p (text ++ old ++ more)).put q new = mem.put p (text ++ new ++ more) := by
  subst hq
  funext a
  by_cases hin : p + text.length ≤ a ∧ a < p + text.length + new.length
  · obtain ⟨i, rfl⟩ := Nat.exists_eq_add_of_le hin.1
    have hi : i < new.length := by omega
    have hc : new[i]? = some new[i] := List.getElem?_eq_getElem hi
    have hwhole : (text ++ new ++ more)[text.length + i]? = some new[i] := by
      rw [List.append_assoc, List.getElem?_append_right (by omega), Nat.add_sub_cancel_left,
        List.getElem?_append_left hi, hc]
    rw [put_holds _ _ new i _ hc, Nat.add_assoc, put_holds _ _ _ _ _ hwhole]
  · rw [put_of_outside (by omega)]
    by_cases hbefore : a < p + text.length
    · by_cases hp : p ≤ a
      · obtain ⟨i, rfl⟩ := Nat.exists_eq_add_of_le hp
        rw [put, put, if_pos hp, if_pos hp, List.append_assoc, List.append_assoc,
          List.getElem?_append_left (by omega), List.getElem?_append_left (by omega)]
      · rw [put, put, if_neg hp, if_neg hp]
    · have hp : p ≤ a := by omega
      have hold : (text ++ old).length ≤ a - p := by
        rw [List.length_append]
        omega
      have hnew : (text ++ new).length ≤ a - p := by
        rw [List.length_append]
        omega
      rw [put, put, if_pos hp, if_pos hp, List.getElem?_append_right hold,
        List.getElem?_append_right hnew, List.length_append, List.length_append, hlength]

/-! ## Reading -/

/-- The end of a text is behind its beginning. -/
theorem Memory.Holds.append_right {more : Bytes} (h : mem.Holds p (text ++ more)) :
    mem.Holds (p + text.length) more := by
  intro i c hc
  rw [Nat.add_assoc]
  refine h _ c ?_
  rw [List.getElem?_append_right (by omega), Nat.add_sub_cancel_left]
  exact hc

/-- Two memories that hold a text agree on its addresses. -/
theorem Memory.Holds.eq_at {other : Memory} {q : Nat} (h : mem.Holds p text)
    (hother : other.Holds q text) {i : Nat} (hi : i < text.length) :
    mem (p + i) = other (q + i) := by
  have hc : text[i]? = some text[i] := List.getElem?_eq_getElem hi
  rw [h i _ hc, hother i _ hc]

/-! ## Parts of the memory -/

@[simp] theorem Memory.length_bytes (mem : Memory) (p n : Nat) : (mem.bytes p n).length = n := by
  induction n generalizing p with
  | zero => rfl
  | succ n ih =>
      rw [bytes, List.length_cons, ih]

/-- One part behind the other. -/
theorem Memory.bytes_add (mem : Memory) (p m n : Nat) :
    mem.bytes p (m + n) = mem.bytes p m ++ mem.bytes (p + m) n := by
  induction m generalizing p with
  | zero =>
      rw [Nat.zero_add]
      rfl
  | succ m ih =>
      rw [Nat.succ_add, bytes, ih, bytes, List.cons_append, Nat.succ_add_eq_add_succ]

/-- A part depends on its own addresses only. -/
theorem Memory.bytes_congr {other : Memory} {p n : Nat}
    (h : ∀ a, p ≤ a → a < p + n → mem a = other a) : mem.bytes p n = other.bytes p n := by
  induction n generalizing p with
  | zero => rfl
  | succ n ih =>
      rw [bytes, bytes, h p (by omega) (by omega), ih fun a hp ha => h a (by omega) (by omega)]

/-- A text that is held is read. -/
theorem Memory.Holds.bytes_eq (h : mem.Holds p text) : mem.bytes p text.length = text := by
  induction text generalizing p with
  | nil => rfl
  | cons c rest ih =>
      have hsplit : mem.Holds p ([c] ++ rest) := h
      have hrest : mem.Holds (p + 1) rest := hsplit.append_right
      rw [List.length_cons, bytes, ih hrest]
      congr 1
      exact h 0 c rfl

/-- A part of a text that is held is read. -/
theorem Memory.Holds.bytes_part (h : mem.Holds p text) {i n : Nat} (hin : i + n ≤ text.length) :
    mem.bytes (p + i) n = (text.drop i).take n := by
  have hlength : ((text.drop i).take n).length = n := by
    rw [List.length_take, List.length_drop]
    omega
  have hpart : mem.Holds (p + i) ((text.drop i).take n) := by
    intro j c hc
    have hj : j < n := by
      have hlt := (List.getElem?_eq_some_iff.mp hc).1
      omega
    rw [List.getElem?_take_of_lt hj, List.getElem?_drop] at hc
    rw [Nat.add_assoc]
    exact h _ c hc
  rw [← hpart.bytes_eq, hlength]

/-- A part in which a text has been written. -/
theorem Memory.bytes_put (mem : Memory) (p first last : Nat) (text : Bytes) :
    (mem.put (p + first) text).bytes p (first + text.length + last) =
      mem.bytes p first ++ text ++ mem.bytes (p + first + text.length) last := by
  rw [bytes_add, bytes_add, (mem.put_holds (p + first) text).bytes_eq]
  congr 1
  · congr 1
    exact bytes_congr fun a _ ha => put_of_outside (.inl ha)
  · rw [Nat.add_assoc]
    exact bytes_congr fun a hp _ => put_of_outside (.inr (by omega))

/-! ## Accesses -/

variable {first last : Nat} {accesses more : List Access}

theorem ReadsFrom.append (h : ReadsFrom mem first last accesses)
    (hmore : ReadsFrom mem first last more) : ReadsFrom mem first last (accesses ++ more) := by
  intro a c hread
  rcases List.mem_append.mp hread with hread | hread
  · exact h a c hread
  · exact hmore a c hread

theorem WritesTo.append (h : WritesTo first last accesses) (hmore : WritesTo first last more) :
    WritesTo first last (accesses ++ more) := by
  intro a c hwrite
  rcases List.mem_append.mp hwrite with hwrite | hwrite
  · exact h a c hwrite
  · exact hmore a c hwrite

/-- One write reads nothing. -/
theorem ReadsFrom.of_write (mem : Memory) (first last a : Nat) (c : UInt8) :
    ReadsFrom mem first last [.write a c] := by
  intro b d hread
  simp at hread

theorem WritesTo.of_write {a : Nat} (h : first ≤ a ∧ a ≤ last) (c : UInt8) :
    WritesTo first last [.write a c] := by
  intro b d hwrite
  simp only [List.mem_singleton, Access.write.injEq] at hwrite
  rw [hwrite.1]
  exact h

/-- The writes of a text are where the text is. -/
theorem WritesTo.of_writes {p : Nat} {text : Bytes} (hfirst : first ≤ p)
    (hlast : p + text.length ≤ last + 1) : WritesTo first last (writes p text) := by
  induction text generalizing p with
  | nil =>
      intro a c hwrite
      cases hwrite
  | cons b rest ih =>
      rw [List.length_cons] at hlast
      exact (WritesTo.of_write ⟨hfirst, by omega⟩ b).append (ih (by omega) (by omega))

end NetLib
