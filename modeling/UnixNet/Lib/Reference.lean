import UnixNet.Lib.Path

/-!
# Relative references

What a relative reference means on a page, in terms of segments: the segments of the page's path
without the last one, followed by those of the reference, where a dot segment is left out and a
dot-dot segment takes the segment before it away. `take_resolve_steps` says which steps are left of
the resolved path when it is cut to some length, and `moving_enter_iff` when they are those of a
directory and an entry of it.
-/

namespace NetLib

variable {α : Type*} {sep dot : α}

/-! ## Paths of directories -/

/-- The path of a directory: every segment ends with the separator. -/
def below (sep : α) (segments : List (List α)) : List α :=
  segments.flatMap (· ++ [sep])

@[simp] theorem below_nil : below sep ([] : List (List α)) = [] := rfl

@[simp] theorem below_cons (segment : List α) (segments : List (List α)) :
    below sep (segment :: segments) = segment ++ sep :: below sep segments := by
  simp [below]

theorem below_append (first second : List (List α)) :
    below sep (first ++ second) = below sep first ++ below sep second :=
  List.flatMap_append

/-- The separators stand between the segments, and behind the last one in front of a rest. -/
theorem intercalate_concat (segments : List (List α)) (last : List α) :
    [sep].intercalate (segments ++ [last]) = below sep segments ++ last := by
  induction segments with
  | nil => simp
  | cons segment rest ih =>
      rw [List.cons_append, List.intercalate_cons_of_ne_nil (by simp), ih]
      simp

/-- A character of the path of a directory is a separator or stands in a segment. -/
theorem mem_below {segments : List (List α)} {c : α} (h : c ∈ below sep segments) :
    c = sep ∨ ∃ segment ∈ segments, c ∈ segment := by
  obtain ⟨segment, hsegment, hc⟩ := List.mem_flatMap.mp h
  rcases List.mem_append.mp hc with hc | hc
  · exact .inr ⟨segment, hsegment, hc⟩
  · exact .inl (List.mem_singleton.mp hc)

variable [DecidableEq α]

/-- The segments of a path that goes on below a directory. -/
theorem split_below {segments : List (List α)} (h : ∀ segment ∈ segments, sep ∉ segment)
    (rest : List α) : (below sep segments ++ rest).splitOn sep = segments ++ rest.splitOn sep := by
  induction segments with
  | nil => rfl
  | cons segment segments ih =>
      obtain ⟨hsegment, hrest⟩ := List.forall_mem_cons.mp h
      rw [below_cons, List.append_assoc, List.cons_append,
        List.splitOn_append_cons_self_of_not_mem hsegment, ih hrest]
      rfl

/-- The steps of the path of a directory. -/
theorem steps_below {segments : List (List α)} (h : ∀ segment ∈ segments, sep ∉ segment) :
    steps sep dot (below sep segments) = moving dot segments := by
  have hsplit := split_below h []
  rw [List.append_nil] at hsplit
  rw [steps, hsplit, List.splitOn_nil, moving_append]
  simp [moving, segmentKind]

/-! ## Resolving a reference -/

/-- Go through one more segment. `out` are the segments so far. -/
def enter (dot : α) (out : List (List α)) (segment : List α) : List (List α) :=
  if segment = [dot] then out
  else if segment = [dot, dot] then out.dropLast
  else out ++ [segment]

/-- The segments of a base path and of a relative reference put behind it, without dot segments
and dot-dot segments. -/
def resolved (sep dot : α) (base ref : List α) : List (List α) :=
  ((base.splitOn sep).tail.dropLast ++ ref.splitOn sep).foldl (enter dot) []

/-- Resolve a reference against a base path that starts with the separator. The reference is a
path that does not start with it. One that ends in a dot segment or a dot-dot segment means a
directory. -/
def resolve (sep dot : α) (base ref : List α) : List α :=
  [sep].intercalate ([] :: (resolved sep dot base ref ++
    if (ref.splitOn sep).getLast? ∈ [some [dot], some [dot, dot]] then [[]] else []))

/-- Segments that a normalized path may have: without separators, and none that is special. -/
def Normal (sep dot : α) (segments : List (List α)) : Prop :=
  ∀ segment ∈ segments, sep ∉ segment ∧ segment ≠ [dot] ∧ segment ≠ [dot, dot]

example : resolve '/' '.' "/a/b/".toList "../c".toList = "/a/c".toList := by decide +kernel

omit [DecidableEq α] in
/-- An empty segment is normal. -/
theorem Normal.concat_nil {segments : List (List α)} (h : Normal sep dot segments) :
    Normal sep dot (segments ++ [[]]) := by
  intro segment hsegment
  rcases List.mem_append.mp hsegment with hsegment | hsegment
  · exact h segment hsegment
  · rw [List.mem_singleton.mp hsegment]
    exact ⟨List.not_mem_nil, by simp, by simp⟩

/-- A segment that is not special is kept. -/
theorem enter_name {segment : List α} (hdot : segment ≠ [dot]) (hparent : segment ≠ [dot, dot])
    (out : List (List α)) : enter dot out segment = out ++ [segment] := by
  rw [enter, if_neg hdot, if_neg hparent]

/-- Normal segments are all kept. -/
theorem foldl_enter_normal {segments : List (List α)} (h : Normal sep dot segments)
    (out : List (List α)) : segments.foldl (enter dot) out = out ++ segments := by
  induction segments generalizing out with
  | nil => simp
  | cons segment rest ih =>
      obtain ⟨⟨-, hdot, hparent⟩, hrest⟩ := List.forall_mem_cons.mp h
      rw [List.foldl_cons, enter_name hdot hparent, ih hrest, List.append_assoc]
      rfl

/-- What one more segment leaves was there before, or is the segment, which is not special. -/
theorem mem_enter {out : List (List α)} {segment kept : List α} (h : kept ∈ enter dot out segment) :
    kept ∈ out ∨ kept = segment ∧ segment ≠ [dot] ∧ segment ≠ [dot, dot] := by
  unfold enter at h
  split at h
  · exact .inl h
  · next hdot =>
      split at h
      · exact .inl (List.dropLast_subset _ h)
      · next hparent =>
          rcases List.mem_append.mp h with h | h
          · exact .inl h
          · exact .inr ⟨List.mem_singleton.mp h, hdot, hparent⟩

/-- What is left at the end was there before or is one of the segments, and not special. -/
theorem mem_foldl_enter {segments out : List (List α)} {kept : List α}
    (h : kept ∈ segments.foldl (enter dot) out) :
    kept ∈ out ∨ kept ∈ segments ∧ kept ≠ [dot] ∧ kept ≠ [dot, dot] := by
  induction segments generalizing out with
  | nil => exact .inl h
  | cons segment rest ih =>
      rcases ih h with hout | ⟨hrest, hnormal⟩
      · rcases mem_enter hout with hout | ⟨rfl, hnormal⟩
        · exact .inl hout
        · exact .inr ⟨List.mem_cons_self, hnormal⟩
      · exact .inr ⟨List.mem_cons_of_mem _ hrest, hnormal⟩

omit [DecidableEq α] in
/-- Without its last segment the path is not longer. -/
theorem length_below_dropLast_le (segments : List (List α)) :
    (below sep segments.dropLast).length ≤ (below sep segments).length := by
  rcases List.eq_nil_or_concat segments with rfl | ⟨init, last, rfl⟩
  · simp
  · simp [below_append]

/-- One more segment makes the path longer by at most this segment. -/
theorem length_below_enter_le (out : List (List α)) (segment : List α) :
    (below sep (enter dot out segment)).length ≤
      (below sep out).length + segment.length + 1 := by
  unfold enter
  split
  · omega
  · split
    · have hle : (below sep out.dropLast).length ≤ (below sep out).length :=
        length_below_dropLast_le out
      omega
    · simp only [below_append, below_cons, below_nil, List.length_append, List.length_cons,
        List.length_nil]
      omega

/-! ## Resolved paths -/

variable (sep dot) in
/-- What is left of the segments is normal. -/
theorem resolved_normal (base ref : List α) : Normal sep dot (resolved sep dot base ref) := by
  intro segment hsegment
  rcases mem_foldl_enter hsegment with hnone | ⟨hmem, hnormal⟩
  · cases hnone
  · refine ⟨fun hsep => ?_, hnormal⟩
    rcases List.mem_append.mp hmem with hbase | href
    · exact (mem_of_mem_segment (List.mem_of_mem_tail (List.dropLast_subset _ hbase)) hsep).2 rfl
    · exact (mem_of_mem_segment href hsep).2 rfl

variable (sep dot) in
/-- A resolved path is made of the segments left, with or without a separator at its end. -/
theorem resolve_eq (base ref : List α) :
    ∃ path, below sep ([] :: resolved sep dot base ref) = path ++ [sep] ∧
      (resolve sep dot base ref = path ∨ resolve sep dot base ref = path ++ [sep]) := by
  have hne : [] :: resolved sep dot base ref ≠ [] := List.cons_ne_nil _ _
  obtain ⟨init, last, hinit⟩ := (List.eq_nil_or_concat _).resolve_left hne
  rw [List.concat_eq_append] at hinit
  refine ⟨below sep init ++ last, by rw [hinit]; simp [below_append], ?_⟩
  unfold resolve
  split
  · right
    rw [← List.cons_append, hinit, intercalate_concat]
    simp [below_append]
  · left
    rw [List.append_nil, hinit, intercalate_concat]

variable (sep dot) in
/-- A separator behind the reference means the directory. -/
theorem resolve_directory (base text : List α) :
    resolve sep dot base (text ++ [sep]) = below sep ([] :: resolved sep dot base text) := by
  have hsplit : (text ++ [sep]).splitOn sep = text.splitOn sep ++ [[]] :=
    List.splitOn_append_cons_self text []
  have hresolved : resolved sep dot base (text ++ [sep]) = resolved sep dot base text ++ [[]] := by
    rw [resolved, hsplit, ← List.append_assoc, List.foldl_append, List.foldl_cons, List.foldl_nil,
      enter_name (by simp) (by simp)]
    rfl
  rw [resolve, hresolved, hsplit, if_neg (by simp), List.append_nil, ← List.cons_append,
    intercalate_concat, List.append_nil]

variable (sep dot) in
/-- A resolved path is not empty. -/
theorem resolve_ne_nil (base ref : List α) : resolve sep dot base ref ≠ [] := by
  obtain ⟨init, last, hsplit⟩ :=
    (List.eq_nil_or_concat _).resolve_left (List.splitOn_ne_nil sep ref)
  rw [List.concat_eq_append] at hsplit
  -- the last segment stays, or an empty one takes its place
  have hsome : resolved sep dot base ref ++
      (if (ref.splitOn sep).getLast? ∈ [some [dot], some [dot, dot]] then [[]] else []) ≠ [] := by
    by_cases hspecial : (ref.splitOn sep).getLast? ∈ [some [dot], some [dot, dot]]
    · simp [hspecial]
    · have hkept : last ≠ [dot] ∧ last ≠ [dot, dot] := by
        simpa [hsplit, and_comm] using hspecial
      rw [resolved, hsplit, ← List.append_assoc, List.foldl_append, List.foldl_cons,
        List.foldl_nil, enter_name hkept.1 hkept.2]
      simp
  rw [resolve, List.intercalate_cons_of_ne_nil hsome]
  simp

variable (sep dot) in
/-- The length of a resolved path: a separator in front of each segment left, and one more behind a
reference that ends in a dot segment or a dot-dot segment. -/
theorem length_resolve (base ref : List α) :
    (resolve sep dot base ref).length = (below sep (resolved sep dot base ref)).length +
      if (ref.splitOn sep).getLast? ∈ [some [dot], some [dot, dot]] then 1 else 0 := by
  have hne : [] :: resolved sep dot base ref ≠ [] := List.cons_ne_nil _ _
  obtain ⟨init, last, hinit⟩ := (List.eq_nil_or_concat _).resolve_left hne
  rw [List.concat_eq_append] at hinit
  have hlength : (below sep (resolved sep dot base ref)).length =
      (below sep init).length + last.length := by
    have hbelow : (below sep ([] :: resolved sep dot base ref)).length =
        (below sep (init ++ [last])).length := congrArg (fun s => (below sep s).length) hinit
    simp only [below_cons, below_append, below_nil, List.nil_append, List.length_append,
      List.length_cons, List.length_nil] at hbelow
    omega
  unfold resolve
  split
  · rw [← List.cons_append, hinit, intercalate_concat, hlength]
    simp [below_append]
    omega
  · rw [List.append_nil, hinit, intercalate_concat, hlength]
    simp

/-- Every character of a resolved path is the separator, or one of the base path or of the
reference. -/
theorem mem_resolve {base ref : List α} {c : α} (h : c ∈ resolve sep dot base ref) :
    c = sep ∨ c ∈ base ∨ c ∈ ref := by
  obtain ⟨path, hpath, hresolve⟩ := resolve_eq sep dot base ref
  have hbelow : c ∈ below sep ([] :: resolved sep dot base ref) := by
    rw [hpath]
    rcases hresolve with heq | heq
    · exact List.mem_append_left _ (heq ▸ h)
    · exact heq ▸ h
  rcases mem_below hbelow with rfl | ⟨segment, hsegment, hc⟩
  · exact .inl rfl
  rcases List.mem_cons.mp hsegment with rfl | hsegment
  · cases hc
  rcases mem_foldl_enter hsegment with hnone | ⟨hmem, -⟩
  · cases hnone
  right
  rcases List.mem_append.mp hmem with hbase | href
  · exact .inl
      (mem_of_mem_segment (List.mem_of_mem_tail (List.dropLast_subset _ hbase)) hc).1
  · exact .inr (mem_of_mem_segment href hc).1

/-- A resolved path is at least as long as the path of the directories left. The reference may end
with a separator. -/
theorem length_below_resolved_le {base text ref : List α}
    (href : ref = text ∨ ref = text ++ [sep]) :
    (below sep (resolved sep dot base text)).length ≤ (resolve sep dot base ref).length := by
  rcases href with rfl | rfl
  · rw [length_resolve]
    omega
  · rw [resolve_directory, below_cons, List.nil_append, List.length_cons]
    omega

/-- The steps of a resolved path, and of such a path that is cut where it has no more than a
separator left. The reference may end with a separator. -/
theorem take_resolve_steps {base text ref : List α} {k : Nat}
    (href : ref = text ∨ ref = text ++ [sep])
    (hfit : (below sep (resolved sep dot base text)).length ≤ k) :
    steps sep dot ((resolve sep dot base ref).take k) =
      moving dot (resolved sep dot base text) := by
  obtain ⟨path, hpath, hresolve⟩ := resolve_eq sep dot base text
  have hlength : path.length = (below sep (resolved sep dot base text)).length := by
    have := congrArg List.length hpath
    simpa using this.symm
  -- a separator at the end adds no step
  have hpathSteps : steps sep dot (path ++ [sep]) = steps sep dot path := by
    rw [steps_append]
    simp [steps, moving, segmentKind]
  have hsteps : steps sep dot path = moving dot (resolved sep dot base text) := by
    have hsep : ∀ segment ∈ resolved sep dot base text, sep ∉ segment :=
      fun segment hsegment => (resolved_normal sep dot base text segment hsegment).1
    rw [← hpathSteps, ← hpath, below_cons, List.nil_append, steps_sep_cons, steps_below hsep]
  have hurl : resolve sep dot base ref = path ∨ resolve sep dot base ref = path ++ [sep] := by
    rcases href with rfl | rfl
    · exact hresolve
    · exact .inr ((resolve_directory sep dot base text).trans hpath)
  have htake : (resolve sep dot base ref).take k = path ∨
      (resolve sep dot base ref).take k = path ++ [sep] := by
    rcases hurl with h | h
    · rw [h, List.take_of_length_le (by omega)]
      exact .inl rfl
    · -- the cut takes away no more than the separator at the end
      rw [h]
      rcases Nat.lt_or_ge path.length k with hlt | hge
      · rw [List.take_of_length_le (by simp; omega)]
        exact .inr rfl
      · rw [show k = path.length by omega, List.take_left]
        exact .inl rfl
  rcases htake with h | h
  · rw [h, hsteps]
  · rw [h, hpathSteps, hsteps]

/-- The same with a dot in front of the path. -/
theorem dot_take_resolve_steps (hdot : dot ≠ sep) {base text ref : List α} {k : Nat}
    (href : ref = text ∨ ref = text ++ [sep])
    (hfit : (below sep (resolved sep dot base text)).length ≤ k) :
    steps sep dot (dot :: (resolve sep dot base ref).take k) =
      moving dot (resolved sep dot base text) := by
  have hwhole : resolve sep dot base ref <+: sep :: below sep (resolved sep dot base text) := by
    rw [← List.nil_append (sep :: _), ← below_cons]
    rcases href with h | h
    · obtain ⟨path, hpath, hresolve⟩ := resolve_eq sep dot base text
      rw [h, hpath]
      rcases hresolve with hurl | hurl
      · rw [hurl]
        exact List.prefix_append _ _
      · exact hurl ▸ List.prefix_rfl
    · have hurl := resolve_directory sep dot base text
      exact h ▸ hurl ▸ List.prefix_rfl
  rw [steps_dot_cons hdot ((List.take_prefix k _).trans hwhole), take_resolve_steps href hfit]

/-- The segments of a reference on the page of a directory are entered from there. -/
theorem resolved_below {segments : List (List α)} (h : Normal sep dot segments) (ref : List α) :
    resolved sep dot (below sep ([] :: segments)) ref =
      (ref.splitOn sep).foldl (enter dot) segments := by
  have hsplit := split_below (fun segment hsegment => (h segment hsegment).1) []
  rw [List.append_nil] at hsplit
  have hbase : ((below sep ([] :: segments)).splitOn sep).tail.dropLast = segments := by
    rw [below_cons, List.splitOn_append_cons_self, hsplit]
    simp
  rw [resolved, hbase, List.foldl_append, foldl_enter_normal h, List.nil_append]

/-- A name on the page of a directory means what is below the directory. -/
theorem resolve_below_name {segments : List (List α)} {name : List α} (h : Normal sep dot segments)
    (hsep : sep ∉ name) (hdot : name ≠ [dot]) (hparent : name ≠ [dot, dot]) :
    resolve sep dot (below sep ([] :: segments)) name = below sep ([] :: segments) ++ name := by
  have hsplit : name.splitOn sep = [name] := List.splitOn_eq_singleton hsep
  have hlast : ¬ [name].getLast? ∈ [some [dot], some [dot, dot]] := by
    simp [hdot, hparent]
  rw [resolve, resolved_below h, hsplit, List.foldl_cons, List.foldl_nil,
    enter_name hdot hparent, if_neg hlast, List.append_nil, ← List.cons_append,
    intercalate_concat]

/-- A segment that is entered below other segments and some first of all leads to where it leads
without the first if and only if these are no step, and it is not a dot-dot segment. -/
theorem moving_enter_iff {first segments : List (List α)} (hfirst : Normal sep dot first)
    (hsegments : Normal sep dot segments) (segment : List α) :
    moving dot (enter dot (first ++ segments) segment) =
        moving dot segments ++ moving dot [segment] ↔
      moving dot first = [] ∧ segment ≠ [dot, dot] := by
  by_cases hparent : segment = [dot, dot]
  · -- the dot-dot segment stays on the right side, and there is none on the left
    subst hparent
    refine iff_of_false (fun heq => ?_) fun h => h.2 rfl
    have hmem : [dot, dot] ∈ moving dot (enter dot (first ++ segments) [dot, dot]) := by
      rw [heq, moving_singleton (by simp) (by simp)]
      simp
    rcases mem_enter (List.mem_filter.mp hmem).1 with hmem | ⟨-, -, hne⟩
    · rcases List.mem_append.mp hmem with hmem | hmem
      · exact (hfirst _ hmem).2.2 rfl
      · exact (hsegments _ hmem).2.2 rfl
    · exact hne rfl
  · -- every other segment is entered as it is
    have henter : moving dot (enter dot (first ++ segments) segment) =
        moving dot first ++ (moving dot segments ++ moving dot [segment]) := by
      by_cases hdot : segment = [dot]
      · simp [enter, hdot, moving_dot_cons]
        rfl
      · rw [enter_name hdot hparent]
        simp
    rw [henter, List.append_left_eq_self]
    exact (and_iff_left hparent).symm

end NetLib
