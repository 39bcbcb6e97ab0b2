import Mathlib.Data.List.Infix
import UnixNet.EventWb.Requests

/-!
# How much of a request path is used

`http_request` decodes the path in place and goes on with a C string. An escape becomes one byte,
and every other byte stays, so the decoding has a length that can be counted in the path
(`length_strdecode`). The C string is the whole of it unless an escape stands for NUL
(`decoded_path_whole_iff`): then `stat` and `copy_file` are given what is in front of that.
-/

namespace UnixNet.EventWb

open NetLib UnixNet.Pub

/-- The text starts with a valid escape. -/
def startsEscape : Bytes → Bool
  | c :: hi :: lo :: _ => c = 37 && isxdigit hi && isxdigit lo
  | _ => false

/-- The number of valid escapes: of the places at which one starts. -/
def escapeCount (path : Bytes) : Nat :=
  path.tails.countP startsEscape

/-- The number of bytes that belong to no valid escape. -/
def literalCount (path : Bytes) : Nat :=
  path.length - 3 * escapeCount path

/-- The escape of NUL. -/
def nulEscape : Bytes := ascii "%00"

/-! ## Counting escapes -/

theorem starts_escape_iff (text : Bytes) : startsEscape text = true ↔ StartsEscape text := by
  match text with
  | [] => exact iff_of_false Bool.false_ne_true fun ⟨_, _, _, h, _⟩ => by cases h
  | [_] => exact iff_of_false Bool.false_ne_true fun ⟨_, _, _, h, _⟩ => by cases h
  | [_, _] => exact iff_of_false Bool.false_ne_true fun ⟨_, _, _, h, _⟩ => by cases h
  | c :: hi :: lo :: rest =>
      simp only [startsEscape, Bool.and_eq_true, decide_eq_true_eq]
      constructor
      · intro ⟨⟨hc, hhi⟩, hlo⟩
        exact ⟨hi, lo, rest, by rw [hc], hhi, hlo⟩
      · intro ⟨_, _, _, heq, hhi, hlo⟩
        cases heq
        exact ⟨⟨rfl, hhi⟩, hlo⟩

/-- A hexadecimal digit starts no escape. -/
theorem digit_not_starts {c : UInt8} (hc : isxdigit c = true) (rest : Bytes) :
    startsEscape (c :: rest) = false := by
  rw [← Bool.not_eq_true, starts_escape_iff]
  intro ⟨_, _, _, heq, _⟩
  obtain ⟨rfl, -⟩ := List.cons.inj heq
  exact absurd hc (by decide)

theorem escape_count_cons (c : UInt8) (rest : Bytes) :
    escapeCount (c :: rest) = escapeCount rest + if startsEscape (c :: rest) then 1 else 0 := by
  rw [escapeCount, List.tails_cons, List.countP_cons, escapeCount]

/-- An escape and the escapes behind it. -/
theorem escape_count_escape {hi lo : UInt8} (hhi : isxdigit hi = true) (hlo : isxdigit lo = true)
    (rest : Bytes) : escapeCount (37 :: hi :: lo :: rest) = escapeCount rest + 1 := by
  have hstart : startsEscape (37 :: hi :: lo :: rest) = true :=
    (starts_escape_iff _).mpr ⟨hi, lo, rest, rfl, hhi, hlo⟩
  rw [escape_count_cons, escape_count_cons hi, escape_count_cons lo, hstart, digit_not_starts hhi,
    digit_not_starts hlo]
  rfl

/-- A byte that starts no escape. -/
theorem escape_count_copy {c : UInt8} {rest : Bytes} (h : ¬ StartsEscape (c :: rest)) :
    escapeCount (c :: rest) = escapeCount rest := by
  rw [escape_count_cons, if_neg (by rwa [starts_escape_iff]), Nat.add_zero]

/-- The decoding has two bytes less for each escape. -/
theorem length_strdecode_add (path : Bytes) :
    (strdecode path).length + 2 * escapeCount path = path.length := by
  induction path using strdecode_induction with
  | nil => rfl
  | escape hi lo rest hhi hlo ih =>
      rw [strdecode_escape hhi hlo, escape_count_escape hhi hlo]
      simp only [List.length_cons]
      omega
  | copy c rest hcopy ih =>
      rw [strdecode_copy hcopy, escape_count_copy hcopy]
      simp only [List.length_cons]
      omega

/-- The escapes take three bytes each. -/
theorem escape_count_le (path : Bytes) : 3 * escapeCount path ≤ path.length := by
  induction path using strdecode_induction with
  | nil => exact Nat.le_refl 0
  | escape hi lo rest hhi hlo ih =>
      rw [escape_count_escape hhi hlo]
      simp only [List.length_cons]
      omega
  | copy c rest hcopy ih =>
      rw [escape_count_copy hcopy]
      simp only [List.length_cons]
      omega

/-- The decoding has a byte for each literal byte and one for each escape. -/
theorem length_strdecode (path : Bytes) :
    (strdecode path).length = literalCount path + escapeCount path := by
  have hadd := length_strdecode_add path
  have hle := escape_count_le path
  rw [literalCount]
  omega

/-! ## The escape of NUL -/

/-- A digit has a value below 16, which is 0 for the digit 0 only. -/
theorem hexit_digit {c : UInt8} (hc : isxdigit c = true) :
    hexit c < 16 ∧ (hexit c = 0 ↔ c = 48) := by
  simp only [isxdigit, Bool.or_eq_true, Bool.and_eq_true, decide_eq_true_eq, UInt8.le_iff_toNat_le]
    at hc
  have hzero : c = 48 ↔ c.toNat = 48 := by
    rw [← UInt8.toNat_inj]
    rfl
  rw [hzero]
  simp only [hexit, Bool.and_eq_true, decide_eq_true_eq, UInt8.le_iff_toNat_le]
  simp only [UInt8.reduceToNat] at hc ⊢
  constructor
  · split_ifs <;> omega
  · constructor
    · intro h
      split_ifs at h <;> omega
    · intro h
      split_ifs <;> omega

/-- Only the digits of `%00` stand for NUL. -/
theorem escape_eq_zero_iff {hi lo : UInt8} (hhi : isxdigit hi = true) (hlo : isxdigit lo = true) :
    UInt8.ofNat (hexit hi * 16 + hexit lo) = 0 ↔ hi = 48 ∧ lo = 48 := by
  obtain ⟨hhiLt, hhiZero⟩ := hexit_digit hhi
  obtain ⟨hloLt, hloZero⟩ := hexit_digit hlo
  have hvalue : (UInt8.ofNat (hexit hi * 16 + hexit lo)).toNat = hexit hi * 16 + hexit lo := by
    rw [UInt8.toNat_ofNat', Nat.mod_eq_of_lt (by omega)]
  rw [← hhiZero, ← hloZero, ← UInt8.toNat_inj, hvalue]
  show hexit hi * 16 + hexit lo = 0 ↔ _
  omega

/-- The decoding has a NUL exactly if the path has an escape of it. -/
theorem zero_mem_strdecode_iff {path : Bytes} (hnul : (0 : UInt8) ∉ path) :
    0 ∈ strdecode path ↔ nulEscape <:+: path := by
  have hescape : nulEscape = [37, 48, 48] := by decide
  rw [hescape]
  induction path using strdecode_induction with
  | nil => simp [strdecode]
  | escape hi lo rest hhi hlo ih =>
      have hhiNe : hi ≠ 37 := by
        rintro rfl
        exact absurd hhi (by decide)
      have hloNe : lo ≠ 37 := by
        rintro rfl
        exact absurd hlo (by decide)
      simp only [List.mem_cons, not_or] at hnul
      have hrest : 0 ∈ strdecode rest ↔ [37, 48, 48] <:+: rest := ih hnul.2.2.2
      rw [strdecode_escape hhi hlo, List.mem_cons, hrest, List.infix_cons_iff,
        List.infix_cons_iff, List.infix_cons_iff, eq_comm, escape_eq_zero_iff hhi hlo]
      simp [List.cons_prefix_cons, hhiNe.symm, hloNe.symm, eq_comm]
  | copy c rest hcopy ih =>
      simp only [List.mem_cons, not_or] at hnul
      have hrest : 0 ∈ strdecode rest ↔ [37, 48, 48] <:+: rest := ih hnul.2
      rw [strdecode_copy hcopy, List.mem_cons, hrest, List.infix_cons_iff]
      refine ⟨fun h => .inr (h.resolve_left hnul.1), fun h => .inr (h.resolve_left ?_)⟩
      intro hprefix
      obtain ⟨after, heq⟩ := hprefix
      exact hcopy ⟨48, 48, after, heq.symm, by decide, by decide⟩

/-! ## The string that is used -/

/-- The C string in the decoded array is the whole decoding, with a byte for each literal byte and
one for each valid escape of the request path; and the path that `http_request` hands to `stat`,
`get_mime_type` and `copy_file` is made from all of it. -/
def UsesWholePath (path : Bytes) : Prop :=
  cstr (strdecode path) = strdecode path ∧
    (cstr (strdecode path)).length = literalCount path + escapeCount path ∧
    strPath path =
      if strdecode path = ascii "/" ∨ strdecode path = ascii "/." then ascii "./"
      else (strdecode path).drop 1

/-- A C string is all of a text without a NUL. -/
theorem cstr_eq_self_iff (text : Bytes) : cstr text = text ↔ 0 ∉ text := by
  refine ⟨fun h hmem => ?_, cstr_eq_self⟩
  rw [← h] at hmem
  have hne := List.mem_takeWhile_imp hmem
  simp at hne

/-- The whole of a request path is used exactly if it has no escape of NUL. For every path, whatever
escapes, broken escapes and other bytes it is made of: the C string that is used after it was
decoded is the decoding of all of it, if and only if `%00` is nowhere in it. -/
theorem decoded_path_whole_iff (path : Bytes) (hnul : (0 : UInt8) ∉ path) :
    UsesWholePath path ↔ ¬ nulEscape <:+: path := by
  rw [← zero_mem_strdecode_iff hnul]
  constructor
  · intro h
    exact (cstr_eq_self_iff _).mp h.1
  · intro hzero
    have hwhole := cstr_eq_self hzero
    have hrest : cstr ((strdecode path).drop 1) = (strdecode path).drop 1 :=
      cstr_eq_self fun hmem => hzero (List.mem_of_mem_drop hmem)
    refine ⟨hwhole, ?_, ?_⟩
    · rw [hwhole, length_strdecode]
    · simp only [strPath, hwhole, hrest]

/-- A path with an escape of a blank. -/
theorem decoded_path_whole_blank : UsesWholePath (ascii "/a%20b") :=
  (decoded_path_whole_iff (ascii "/a%20b") (by decide)).mpr (by decide)

/-- What is behind an escape of NUL is cut off. -/
theorem decoded_path_cut : ¬ ∀ path : Bytes, (0 : UInt8) ∉ path → UsesWholePath path := by
  intro h
  exact absurd (h (ascii "/index.html%00.jpg") (by decide)).1 (by decide)

end UnixNet.EventWb
