import UnixNet.Browser

/-!
# The entries on a directory page

Both web servers write the entries of a directory from one buffer, which they clear for each entry,
with one length, which they set only for an entry with a list item. For an entry without one they
write as many zero bytes as the part before had. `delivered_parts_iff` says when the page still
shows what it should.
-/

namespace UnixNet

open NetLib

section

variable (dirItem fileItem : Bytes → Bytes → Bytes) (path : Bytes)

/-- What a directory page should show for an entry: a list item in the form of its kind for a
directory or a regular file, and nothing for any other kind. -/
def listed (entry : DirEnt) : Bytes :=
  if entry.dType = dtDir then dirItem path entry.dName
  else if entry.dType = dtReg then fileItem path entry.dName
  else []

/-- What the servers write for the entries, when the part before had `j` bytes. -/
def entryParts : Nat → List DirEnt → List Bytes
  | _, [] => []
  | j, entry :: rest =>
      let part := (listItem dirItem fileItem path entry).getD (zeros j)
      part :: entryParts part.length rest

end

/-- The entry is of one of the two kinds that a page lists. -/
def DirEnt.Listable (entry : DirEnt) : Prop :=
  entry.dType = dtDir ∨ entry.dType = dtReg

/-- Neither test of the servers finds the kind of the entry. -/
def DirEnt.Unmarked (entry : DirEnt) : Prop :=
  entry.dType &&& dtDir ≠ dtDir ∧ entry.dType &&& dtReg ≠ dtReg

instance (entry : DirEnt) : Decidable entry.Listable :=
  inferInstanceAs (Decidable (_ ∨ _))

instance (entry : DirEnt) : Decidable entry.Unmarked :=
  inferInstanceAs (Decidable (_ ∧ _))

/-- What arrives of parts that are written one by one, when write number `i` succeeds exactly if
`ok i` holds. -/
def delivered (ok : Nat → Bool) : Nat → List Bytes → List Bytes
  | _, [] => []
  | i, part :: rest => (if ok i then part else []) :: delivered ok (i + 1) rest

theorem length_delivered (ok : Nat → Bool) (i : Nat) (parts : List Bytes) :
    (delivered ok i parts).length = parts.length := by
  induction parts generalizing i with
  | nil => rfl
  | cons part rest ih => rw [delivered, List.length_cons, List.length_cons, ih]

/-- When every write succeeds, every part arrives. -/
theorem delivered_all (i : Nat) (parts : List Bytes) :
    delivered (fun _ => true) i parts = parts := by
  induction parts generalizing i with
  | nil => rfl
  | cons part rest ih => rw [delivered, ih, if_pos rfl]

variable {dirItem fileItem : Bytes → Bytes → Bytes} {path : Bytes} {entry : DirEnt}

variable (dirItem fileItem path) in
theorem length_entry_parts (j : Nat) (entries : List DirEnt) :
    (entryParts dirItem fileItem path j entries).length = entries.length := by
  induction entries generalizing j with
  | nil => rfl
  | cons entry rest ih => rw [entryParts, List.length_cons, List.length_cons, ih]

variable (dirItem fileItem path) in
/-- The entries without a list item are the unmarked ones. -/
theorem list_item_eq_none_iff :
    listItem dirItem fileItem path entry = none ↔ entry.Unmarked := by
  unfold listItem DirEnt.Unmarked
  by_cases hdir : entry.dType &&& dtDir = dtDir
  · simp [hdir]
  · by_cases hreg : entry.dType &&& dtReg = dtReg <;> simp [hdir, hreg]

/-- Nothing is listed for an entry of another kind. -/
theorem listed_eq_nil (h : ¬ entry.Listable) : listed dirItem fileItem path entry = [] := by
  obtain ⟨hdir, hreg⟩ := not_or.mp h
  rw [listed, if_neg hdir, if_neg hreg]

variable (dirItem fileItem path) in
/-- For a directory and a regular file the tests find the right form. -/
theorem list_item_listable (h : entry.Listable) :
    listItem dirItem fileItem path entry = some (listed dirItem fileItem path entry) := by
  rcases h with hdir | hreg
  · have hmask : dtDir &&& dtDir = dtDir := rfl
    rw [listItem, listed, hdir, if_pos hmask, if_pos rfl]
  · have hmask : dtReg &&& dtDir ≠ dtDir := by decide
    have hmaskReg : dtReg &&& dtReg = dtReg := rfl
    have hne : dtReg ≠ dtDir := by decide
    rw [listItem, listed, hreg, if_neg hmask, if_pos hmaskReg, if_neg hne, if_pos rfl]

section

variable (hdirItem : ∀ path name, dirItem path name ≠ [])
  (hfileItem : ∀ path name, fileItem path name ≠ [])

include hdirItem hfileItem

/-- No list item is empty. -/
theorem list_item_ne_nil {item : Bytes} (h : listItem dirItem fileItem path entry = some item) :
    item ≠ [] := by
  unfold listItem at h
  split at h
  · exact Option.some.inj h ▸ hdirItem _ _
  · split at h
    · exact Option.some.inj h ▸ hfileItem _ _
    · cases h

/-- A part is empty if and only if the entry is unmarked and the part before was empty. -/
theorem entry_part_eq_nil_iff (path : Bytes) (entry : DirEnt) (j : Nat) :
    (listItem dirItem fileItem path entry).getD (zeros j) = [] ↔ j = 0 ∧ entry.Unmarked := by
  rw [← list_item_eq_none_iff dirItem fileItem path]
  cases h : listItem dirItem fileItem path entry with
  | none => simp [zeros]
  | some item =>
      have hne : item ≠ [] := list_item_ne_nil hdirItem hfileItem h
      simp [hne]

/-- One entry: what arrives for it is what the page should show exactly if a listed entry is
written, and any other entry is not written or has an empty part. -/
theorem entry_delivered_iff {written : Bool} {j : Nat} :
    (if written then (listItem dirItem fileItem path entry).getD (zeros j) else []) =
        listed dirItem fileItem path entry ↔
      if entry.Listable then written = true
      else written = true → j = 0 ∧ entry.Unmarked := by
  by_cases hlist : entry.Listable
  · have hitem := list_item_listable dirItem fileItem path hlist
    have hne := list_item_ne_nil hdirItem hfileItem hitem
    rw [if_pos hlist, hitem, Option.getD_some]
    cases written with
    | true => simp
    | false => simpa using hne.symm
  · have hpart := entry_part_eq_nil_iff hdirItem hfileItem path entry j
    rw [if_neg hlist, listed_eq_nil hlist, ← hpart]
    cases written <;> simp

/-- When the page shows what it should. Every directory and regular file has to be written. The
write of any other entry has to fail or its part has to be empty, and so have the parts of all
entries before it. -/
theorem delivered_parts_iff (path : Bytes) (ok : Nat → Bool) (start j : Nat)
    (entries : List DirEnt) :
    delivered ok start (entryParts dirItem fileItem path j entries) =
        entries.map (listed dirItem fileItem path) ↔
      ∀ i entry, entries[i]? = some entry →
        if entry.Listable then ok (start + i) = true
        else ok (start + i) = true → j = 0 ∧ ∀ e ∈ entries.take (i + 1), e.Unmarked := by
  induction entries generalizing start j with
  | nil => exact iff_of_true rfl fun i entry h => by simp at h
  | cons first rest ih =>
      rw [entryParts, delivered, List.map_cons, List.cons.injEq,
        entry_delivered_iff hdirItem hfileItem, ih, List.length_eq_zero_iff,
        entry_part_eq_nil_iff hdirItem hfileItem]
      -- entry `i` of the rest is entry `i + 1`, and an unmarked first entry hands `j` on
      have hindex : ∀ i, start + 1 + i = start + (i + 1) := fun i => by omega
      constructor
      · rintro ⟨hfirst, hrest⟩ i entry hentry
        cases i with
        | zero =>
            obtain rfl : first = entry := by simpa using hentry
            simpa using hfirst
        | succ i =>
            have h := hrest i entry (by simpa using hentry)
            rw [hindex] at h
            simpa [and_assoc] using h
      · intro h
        refine ⟨by simpa using h 0 first rfl, fun i entry hentry => ?_⟩
        have hnext := h (i + 1) entry (by simpa using hentry)
        rw [hindex]
        simpa [and_assoc] using hnext

end

end UnixNet
