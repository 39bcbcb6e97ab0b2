import UnixNet.Cgi.Calculator

/-!
# The same text in both calculators

`test_cgi.c` gets its text whole, from the environment. `post-cgi.c` copies it from the standard
input: `fgets` is told the length of the text and one for the NUL, and not the size of `data[512]`.
`get_post_iff` says for which texts that comes to the same.
-/

namespace UnixNet.Cgi

open NetLib

/-- What the `fgets` of `post-cgi.c` stores in front of the NUL; nothing is known if its second
argument is no `int`. -/
def stored (contentLength stdin : Bytes) : Option Bytes :=
  (atoi contentLength).bind fun len =>
    if IsInt (len + 1) then some (fgets (len + 1) stdin) else none

/-- The size of `data`. -/
def dataSize : Nat := 512

/-- Both programs print the same of a text, and `fgets` stores no byte behind the end of `data`.
What `sscanf` gets of `data` is the text, so that the programs do the same also where C does not say
what it is. -/
def SameAnswer (s : Bytes) : Prop :=
  postCgi (decimal s.length) s = testCgi s ∧
    ∃ text, stored (decimal s.length) s = some text ∧ text.length + 1 ≤ dataSize ∧ cstr text = s

variable {s : Bytes}

/-- The second program scans what is stored. -/
theorem post_cgi_stored (contentLength stdin : Bytes) : postCgi contentLength stdin =
    (stored contentLength stdin).bind fun text =>
      if text.length + 1 ≤ dataSize then answer (cstr text) else none := by
  unfold postCgi stored
  cases atoi contentLength with
  | none => rfl
  | some len =>
      simp only [Option.bind_some]
      by_cases hint : IsInt (len + 1)
      · rw [if_pos hint, Option.bind_some]
        exact if_congr (and_iff_right hint) rfl rfl
      · rw [if_neg hint, if_neg fun h => hint h.1, Option.bind_none]

/-- A text without newline is stored whole, when its length and one more is an `int`. -/
theorem stored_whole (hnewline : (10 : UInt8) ∉ s) : stored (decimal s.length) s =
    if s.length + 1 < 2 ^ 31 then some s else none := by
  have hline : throughNewline s = s := by
    have hkeep : ∀ a ∈ s, decide (a ≠ 10) = true := decide_ne_of_not_mem hnewline
    rw [throughNewline, List.takeWhile_eq_self_iff.mpr hkeep, List.dropWhile_eq_nil_iff.mpr hkeep,
      List.take_nil, List.append_nil]
  rw [stored, atoi_length]
  by_cases hint : IsInt s.length
  · rw [if_pos hint, Option.bind_some, fgets_length, hline]
    refine if_congr ?_ rfl rfl
    constructor
    · intro h
      have := h.2
      omega
    · intro h
      exact ⟨by omega, by omega⟩
  · have hlong : ¬ s.length + 1 < 2 ^ 31 := fun h => hint ⟨by omega, by omega⟩
    rw [if_neg hint, Option.bind_none, if_neg hlong]

/-- When the two calculators agree. For every text without newline and NUL, of any length, that
`test_cgi` gets in `QUERY_STRING` and `post-cgi` on the standard input with its length in
`CONTENT_LENGTH`: the programs print the same and `fgets` stores within `data`, if and only if the
text is at most 511 bytes long. -/
theorem get_post_iff (hnewline : (10 : UInt8) ∉ s) (hnul : (0 : UInt8) ∉ s) :
    SameAnswer s ↔ s.length ≤ 511 := by
  constructor
  · rintro ⟨-, text, hstored, hfits, -⟩
    rw [stored_whole hnewline] at hstored
    obtain ⟨-, htext⟩ := Option.ite_none_right_eq_some.mp hstored
    obtain rfl := Option.some.inj htext
    exact Nat.le_of_succ_le_succ hfits
  · intro hshort
    have hstored : stored (decimal s.length) s = some s := by
      rw [stored_whole hnewline, if_pos (by omega)]
    have hfits : s.length + 1 ≤ dataSize := Nat.succ_le_succ hshort
    refine ⟨?_, s, hstored, hfits, cstr_eq_self hnul⟩
    rw [post_cgi_stored, hstored, Option.bind_some, if_pos hfits, cstr_eq_self hnul]
    rfl

/-- Both programs print 3 for `1+2`. -/
theorem get_post_sum : SameAnswer (ascii "1+2") :=
  (get_post_iff (by decide) (by decide)).mpr (by decide)

/-- For a sum that takes 512 characters, the NUL is stored behind the end of `data`. -/
theorem get_post_overflow :
    ¬ ∀ s : Bytes, (10 : UInt8) ∉ s → (0 : UInt8) ∉ s → SameAnswer s := by
  intro hall
  have hmem : ∀ c ∈ ascii "1+" ++ List.replicate 510 48, c ∈ ascii "1+0" := by
    intro c hc
    rcases List.mem_append.mp hc with hsum | hzeros
    · exact List.mem_append_left (ascii "0") hsum
    · rw [List.eq_of_mem_replicate hzeros]
      exact List.mem_append_right (ascii "1+") List.mem_cons_self
  have hnewline : (10 : UInt8) ∉ ascii "1+" ++ List.replicate 510 48 :=
    fun h => absurd (hmem 10 h) (by decide)
  have hnul : (0 : UInt8) ∉ ascii "1+" ++ List.replicate 510 48 :=
    fun h => absurd (hmem 0 h) (by decide)
  have hlength : (ascii "1+" ++ List.replicate 510 48).length = 512 := by
    rw [List.length_append, List.length_replicate]
    rfl
  obtain ⟨-, text, hstored, hfits, -⟩ := hall _ hnewline hnul
  rw [stored_whole hnewline, if_pos (by omega)] at hstored
  obtain rfl := Option.some.inj hstored
  rw [hlength] at hfits
  exact absurd hfits (by decide)

end UnixNet.Cgi
