import Mathlib.Tactic.IntervalCases
import UnixNet.Lib.Text

/-!
# The URL codec of `pub.c`

`strencode` writes a name in the alphabet of URLs, one or three characters for each byte, and
stops early when the target is nearly full; `strdecode` reads escapes back. Texts are C strings
without their terminator. The counter `tolen` of `strencode` is an `int`, so the model of the
encoder is partial: it has no result where that counter overflows. `strdecode_strencode` says
what the decoder makes of the encoder's output.
-/

namespace UnixNet.Pub

open NetLib

/-- `INT_MAX`. -/
def intMax : Nat := 2 ^ 31 - 1

/-- `isalnum` in the C locale; bytes from 0x80 on are negative `char`s and are in no class. -/
def isalnum (c : UInt8) : Bool :=
  (48 ≤ c && c ≤ 57) || (65 ≤ c && c ≤ 90) || (97 ≤ c && c ≤ 122)

/-- `isxdigit` in the C locale. -/
def isxdigit (c : UInt8) : Bool :=
  (48 ≤ c && c ≤ 57) || (65 ≤ c && c ≤ 70) || (97 ≤ c && c ≤ 102)

/-- `hexit(c)`: the value of a hexadecimal digit, 0 for anything else. -/
def hexit (c : UInt8) : Nat :=
  if 48 ≤ c && c ≤ 57 then c.toNat - 48
  else if 97 ≤ c && c ≤ 102 then c.toNat - 97 + 10
  else if 65 ≤ c && c ≤ 70 then c.toNat - 65 + 10
  else 0

/-- `strdecode(to, from)`: the bytes written to `to` before the terminator. The terminator of
`from` is no hexadecimal digit, so an escape cut short by it is copied. -/
def strdecode : Bytes → Bytes
  | c :: hi :: lo :: rest =>
      if c = 37 && isxdigit hi && isxdigit lo then
        UInt8.ofNat (hexit hi * 16 + hexit lo) :: strdecode rest
      else c :: strdecode (hi :: lo :: rest)
  | c :: rest => c :: strdecode rest
  | [] => []

/-- A lower-case hexadecimal digit. -/
def hexDigit (n : Nat) : UInt8 :=
  UInt8.ofNat (if n < 10 then 48 + n else 87 + n)

/-- `sprintf(to, "%%%02x", (int) *from & 0xff)` -/
def percent (c : UInt8) : Bytes :=
  [37, hexDigit (c.toNat / 16), hexDigit (c.toNat % 16)]

/-- The test of `strencode` for bytes that stay as they are. -/
def isPlain (c : UInt8) : Bool :=
  isalnum c || (ascii "/_.-~").contains c

/-- The loop of `strencode` with `tolen` bytes written. It has no result when the evaluation of
`tolen + 4` overflows. -/
def strencodeLoop (tosize : Nat) : Nat → Bytes → Option Bytes
  | _, [] => some []
  | tolen, c :: rest =>
      if intMax < tolen + 4 then none
      else if tolen + 4 < tosize then
        if isPlain c then (strencodeLoop tosize (tolen + 1) rest).map (c :: ·)
        else (strencodeLoop tosize (tolen + 3) rest).map (percent c ++ ·)
      else some []

/-- `strencode(to, tosize, from)`: the string left in `to`. -/
def strencode (tosize : Nat) (src : Bytes) : Option Bytes :=
  strencodeLoop tosize 0 src

example : strdecode (ascii "/a%2Fb%4") = ascii "/a/b%4" := by decide
example : strencode 100 (ascii "a b") = some (ascii "a%20b") := by decide

/-! ## Decoding what was encoded -/

/-- What `strencode` writes for one byte. -/
def encodeByte (c : UInt8) : Bytes :=
  if isPlain c then [c] else percent c

/-- The encoding of a text that is not cut short. -/
def encode (src : Bytes) : Bytes :=
  src.flatMap encodeByte

theorem length_encode_byte_le (c : UInt8) :
    1 ≤ (encodeByte c).length ∧ (encodeByte c).length ≤ 3 := by
  unfold encodeByte
  split <;> simp [percent]

/-- An encoding is at most three times as long as the text. -/
theorem length_encode_le (src : Bytes) : (encode src).length ≤ 3 * src.length := by
  induction src with
  | nil => rfl
  | cons c rest ih =>
      have := (length_encode_byte_le c).2
      simp only [encode, List.flatMap_cons, List.length_append, List.length_cons] at ih ⊢
      omega

/-- A digit written by `%02x` is read back by `hexit`. -/
theorem hexit_hex_digit : ∀ n : Fin 16,
    isxdigit (hexDigit n) = true ∧ hexit (hexDigit n) = n := by
  decide

/-- A byte other than `%` is copied. -/
theorem strdecode_cons {c : UInt8} (h : c ≠ 37) (rest : Bytes) :
    strdecode (c :: rest) = c :: strdecode rest := by
  match rest with
  | [] => rfl
  | [_] => rfl
  | hi :: lo :: rest => rw [strdecode, if_neg (by simp [h])]

/-- A complete escape is decoded to its byte. -/
theorem strdecode_percent (c : UInt8) (rest : Bytes) :
    strdecode (percent c ++ rest) = c :: strdecode rest := by
  have hlt := UInt8.toNat_lt c
  obtain ⟨hhi, hhiValue⟩ := hexit_hex_digit ⟨c.toNat / 16, by omega⟩
  obtain ⟨hlo, hloValue⟩ := hexit_hex_digit ⟨c.toNat % 16, by omega⟩
  have hvalue : c.toNat / 16 * 16 + c.toNat % 16 = c.toNat := by omega
  show strdecode (37 :: hexDigit (c.toNat / 16) :: hexDigit (c.toNat % 16) :: rest) = _
  rw [strdecode, if_pos (by simp only [hhi, hlo, decide_true, Bool.and_true]),
    hhiValue, hloValue, hvalue, UInt8.ofNat_toNat]

/-- Decoding one encoded byte. No byte that stays as it is starts an escape. -/
theorem strdecode_encode_byte (c : UInt8) (rest : Bytes) :
    strdecode (encodeByte c ++ rest) = c :: strdecode rest := by
  unfold encodeByte
  split
  · next hplain =>
      refine strdecode_cons ?_ rest
      rintro rfl
      exact absurd hplain (by decide)
  · exact strdecode_percent c rest

/-- The decoder undoes the encoding. -/
theorem strdecode_encode (src : Bytes) : strdecode (encode src) = src := by
  induction src with
  | nil => rfl
  | cons c rest ih =>
      rw [encode, List.flatMap_cons, strdecode_encode_byte]
      exact congrArg (c :: ·) ih

/-! ## The size limit and the counter -/

/-- One round of the encoder's loop. -/
theorem strencode_loop_cons {tosize tolen : Nat} {c : UInt8} {rest : Bytes}
    (hint : tolen + 4 ≤ intMax) (hsize : tolen + 4 < tosize) :
    strencodeLoop tosize tolen (c :: rest) =
      (strencodeLoop tosize (tolen + (encodeByte c).length) rest).map (encodeByte c ++ ·) := by
  rw [strencodeLoop, if_neg (by omega), if_pos hsize, encodeByte]
  split <;> rfl

/-- The encoder writes the encoding of the text cut short somewhere, and of the whole text when
the target is large enough. -/
theorem strencode_loop_eq_encode {tosize tolen : Nat} {src out : Bytes}
    (h : strencodeLoop tosize tolen src = some out) :
    ∃ k, out = encode (src.take k) ∧
      (tolen + 3 * src.length + 2 ≤ tosize → src.take k = src) := by
  induction src generalizing tolen out with
  | nil =>
      obtain rfl := Option.some.inj h
      exact ⟨0, rfl, fun _ => rfl⟩
  | cons c rest ih =>
      by_cases hint : intMax < tolen + 4
      · rw [strencodeLoop, if_pos hint] at h
        cases h
      · by_cases hsize : tolen + 4 < tosize
        · rw [strencode_loop_cons (by omega) hsize] at h
          obtain ⟨tail, htail, rfl⟩ := Option.map_eq_some_iff.mp h
          obtain ⟨k, rfl, hall⟩ := ih htail
          have hbyte := (length_encode_byte_le c).2
          refine ⟨k + 1, rfl, ?_⟩
          intro hlarge
          rw [List.take_succ_cons, hall (by rw [List.length_cons] at hlarge; omega)]
        · rw [strencodeLoop, if_neg hint, if_neg hsize] at h
          obtain rfl := Option.some.inj h
          refine ⟨0, rfl, ?_⟩
          intro hlarge
          rw [List.length_cons] at hlarge
          omega

/-- The counter overflows exactly when the encoder comes, within the size limit, to a byte
before which it has written more than `INT_MAX - 4` bytes. -/
theorem strencode_loop_eq_none_iff {tosize tolen : Nat} {src : Bytes} :
    strencodeLoop tosize tolen src = none ↔
      ∃ k < src.length, intMax < tolen + (encode (src.take k)).length + 4 ∧
        ∀ j < k, tolen + (encode (src.take j)).length + 4 < tosize := by
  induction src generalizing tolen with
  | nil => simp [strencodeLoop]
  | cons c rest ih =>
      have hstep : ∀ k, tolen + (encode ((c :: rest).take (k + 1))).length =
          tolen + (encodeByte c).length + (encode (rest.take k)).length := by
        intro k
        simp only [List.take_succ_cons, encode, List.flatMap_cons, List.length_append]
        omega
      by_cases hint : intMax < tolen + 4
      · -- the very first test overflows
        rw [strencodeLoop, if_pos hint]
        exact iff_of_true rfl ⟨0, by simp, by simpa [encode] using hint, by simp⟩
      · by_cases hsize : tolen + 4 < tosize
        · -- the first byte is encoded, and the leading parts of the rest are one byte longer
          rw [strencode_loop_cons (by omega) hsize, Option.map_eq_none_iff, ih]
          constructor
          · rintro ⟨k, hk, hover, hfit⟩
            refine ⟨k + 1, by simpa using hk, by rw [hstep]; exact hover, ?_⟩
            intro j hj
            cases j with
            | zero => simpa [encode] using hsize
            | succ j =>
                rw [hstep]
                exact hfit j (by omega)
          · rintro ⟨k, hk, hover, hfit⟩
            cases k with
            | zero => exact absurd (by simpa [encode] using hover) hint
            | succ k =>
                refine ⟨k, by simpa using hk, by rw [← hstep]; exact hover, ?_⟩
                intro j hj
                rw [← hstep]
                exact hfit (j + 1) (by omega)
        · rw [strencodeLoop, if_neg hint, if_neg hsize]
          refine iff_of_false (by simp) ?_
          rintro ⟨k, hk, hover, hfit⟩
          cases k with
          | zero => exact hint (by simpa [encode] using hover)
          | succ k => exact hsize (by simpa [encode] using hfit 0 (by omega))

/-- Encoding one byte more adds at most three bytes. -/
theorem length_encode_take_succ_le (src : Bytes) (k : Nat) :
    (encode (src.take (k + 1))).length ≤ (encode (src.take k)).length + 3 := by
  rw [List.take_add_one, encode, encode, List.flatMap_append, List.length_append]
  cases hc : src[k]? with
  | none => simp
  | some c => simpa using (length_encode_byte_le c).2

/-- The counter does not overflow with a target of at most `INT_MAX - 2` bytes, nor with a text
whose encoding is sure to fit an `int`. -/
theorem strencode_isSome {tosize : Nat} {src : Bytes}
    (h : tosize ≤ intMax - 2 ∨ 3 * src.length + 1 ≤ intMax) :
    (strencode tosize src).isSome = true := by
  rw [Option.isSome_iff_ne_none, strencode]
  intro hnone
  obtain ⟨k, hk, hover, hfit⟩ := strencode_loop_eq_none_iff.mp hnone
  rcases h with h | h
  · cases k with
    | zero => simp [encode, intMax] at hover
    | succ k =>
        have hlast := hfit k (by omega)
        have hone := length_encode_take_succ_le src k
        have : 2 ≤ intMax := by decide
        omega
  · have hlen := length_encode_le (src.take k)
    rw [List.length_take_of_le (by omega)] at hlen
    omega

/-- The round trip: where the encoder's counter does not overflow, decoding what it wrote gives a
prefix of the text, and the whole text when the target is large enough. The counter overflows
exactly in the case stated last, never with a target of at most `INT_MAX - 2` bytes or a text of
at most `(INT_MAX - 1) / 3` bytes. -/
theorem strdecode_strencode (src : Bytes) (tosize : Nat) :
    (∀ out, strencode tosize src = some out →
        strdecode out <+: src ∧ (3 * src.length + 2 ≤ tosize → strdecode out = src)) ∧
      (tosize ≤ intMax - 2 ∨ 3 * src.length + 1 ≤ intMax → (strencode tosize src).isSome = true) ∧
      (strencode tosize src = none ↔
        ∃ k < src.length, intMax < (encode (src.take k)).length + 4 ∧
          ∀ j < k, (encode (src.take j)).length + 4 < tosize) := by
  refine ⟨?_, strencode_isSome, ?_⟩
  · intro out hout
    obtain ⟨k, rfl, hall⟩ := strencode_loop_eq_encode hout
    rw [strdecode_encode]
    exact ⟨List.take_prefix k src, fun hlarge => hall (by omega)⟩
  · simp only [strencode, strencode_loop_eq_none_iff, Nat.zero_add]

/-- A text of bytes that stay as they are is as long as its encoding. -/
theorem length_encode_replicate {c : UInt8} (h : isPlain c = true) (n : Nat) :
    (encode (List.replicate n c)).length = n := by
  induction n with
  | zero => rfl
  | succ n ih =>
      simp only [encode, List.replicate_succ, List.flatMap_cons, List.length_append] at ih ⊢
      rw [ih, encodeByte, if_pos h, List.length_singleton, Nat.add_comm]

/-- A text of 2 GiB overflows the counter of a larger target. -/
theorem strencode_large_none : strencode (2 ^ 33) (List.replicate (2 ^ 31) 97) = none := by
  have hlen : ∀ k, k ≤ 2 ^ 31 →
      (encode ((List.replicate (2 ^ 31) 97).take k)).length = k := by
    intro k hk
    rw [List.take_replicate, Nat.min_eq_left hk, length_encode_replicate (by decide)]
  refine strencode_loop_eq_none_iff.mpr ⟨intMax - 3, ?_, ?_, ?_⟩
  · rw [List.length_replicate, intMax]
    omega
  · rw [hlen _ (by rw [intMax]; omega), intMax]
    omega
  · intro j hj
    rw [intMax] at hj
    rw [hlen _ (by omega)]
    omega

/-- A text of 2 GiB overflows the counter of a larger target: both sizes fit `size_t`, but the
encoder has no defined result. -/
theorem strencode_overflow :
    ¬ ∀ (src : Bytes) (tosize : Nat), (0 : UInt8) ∉ src → 1 ≤ tosize →
      ∃ out, strencode tosize src = some out ∧ strdecode out <+: src ∧
        (3 * src.length + 2 ≤ tosize → strdecode out = src) := by
  intro h
  obtain ⟨out, hout, -⟩ := h (List.replicate (2 ^ 31) 97) (2 ^ 33)
    (fun hmem => absurd (List.eq_of_mem_replicate hmem) (by decide)) (by decide)
  rw [strencode_large_none] at hout
  cases hout

/-! ## Texts that were not encoded -/

/-- An escape stands at the front of the text. -/
def StartsEscape (text : Bytes) : Prop :=
  ∃ hi lo after, text = 37 :: hi :: lo :: after ∧ isxdigit hi = true ∧ isxdigit lo = true

/-- Somewhere in the text a `%` stands in front of two hexadecimal digits. -/
def HasEscape (text : Bytes) : Prop :=
  ∃ before rest, text = before ++ rest ∧ StartsEscape rest

/-- An escape at the front is decoded to one byte. -/
theorem strdecode_escape {hi lo : UInt8} (hhi : isxdigit hi = true) (hlo : isxdigit lo = true)
    (rest : Bytes) :
    strdecode (37 :: hi :: lo :: rest) =
      UInt8.ofNat (hexit hi * 16 + hexit lo) :: strdecode rest := by
  rw [strdecode, if_pos (by simp [hhi, hlo])]

/-- A byte that starts no escape is copied. -/
theorem strdecode_copy {c : UInt8} {rest : Bytes} (h : ¬ StartsEscape (c :: rest)) :
    strdecode (c :: rest) = c :: strdecode rest := by
  match rest with
  | [] => rfl
  | [_] => rfl
  | hi :: lo :: after =>
      rw [strdecode, if_neg]
      simp only [Bool.and_eq_true, decide_eq_true_eq]
      intro ⟨⟨hc, hhi⟩, hlo⟩
      exact h ⟨hi, lo, after, by rw [hc], hhi, hlo⟩

/-- Induction along the rounds of the decoder: the text is empty, or it starts with an escape, or
its first byte starts none. -/
theorem strdecode_induction {P : Bytes → Prop} (nil : P [])
    (escape : ∀ hi lo rest, isxdigit hi = true → isxdigit lo = true → P rest →
      P (37 :: hi :: lo :: rest))
    (copy : ∀ c rest, ¬ StartsEscape (c :: rest) → P rest → P (c :: rest)) (text : Bytes) :
    P text := by
  induction hn : text.length using Nat.strongRecOn generalizing text with
  | ind n ih =>
      subst hn
      cases text with
      | nil => exact nil
      | cons c rest =>
          by_cases hescape : StartsEscape (c :: rest)
          · obtain ⟨hi, lo, after, heq, hhi, hlo⟩ := hescape
            rw [heq]
            refine escape hi lo after hhi hlo (ih after.length ?_ after rfl)
            rw [heq]
            simp only [List.length_cons]
            omega
          · exact copy c rest hescape (ih rest.length (by simp) rest rfl)

/-- The decoder never makes a text longer. -/
theorem length_strdecode_le (text : Bytes) : (strdecode text).length ≤ text.length := by
  induction text using strdecode_induction with
  | nil => exact Nat.le_refl _
  | escape hi lo rest hhi hlo ih =>
      rw [strdecode_escape hhi hlo]
      simp only [List.length_cons]
      omega
  | copy c rest hcopy ih =>
      rw [strdecode_copy hcopy]
      simpa using ih

/-- A byte that starts no escape does not matter for the escapes behind it. -/
theorem has_escape_cons_iff {c : UInt8} {rest : Bytes} (h : ¬ StartsEscape (c :: rest)) :
    HasEscape (c :: rest) ↔ HasEscape rest := by
  constructor
  · intro ⟨before, tail, heq, htail⟩
    cases before with
    | nil => exact absurd (heq ▸ htail) h
    | cons b before => exact ⟨before, tail, (List.cons.inj heq).2, htail⟩
  · intro ⟨before, tail, heq, htail⟩
    exact ⟨c :: before, tail, by rw [heq]; rfl, htail⟩

/-- The decoder leaves a text as it is if and only if no escape is in it. -/
theorem strdecode_eq_self_iff (text : Bytes) : strdecode text = text ↔ ¬ HasEscape text := by
  induction text using strdecode_induction with
  | nil =>
      refine iff_of_true rfl fun ⟨before, rest, heq, _, _, _, hrest, _⟩ => ?_
      rw [(List.append_eq_nil_iff.mp heq.symm).2] at hrest
      cases hrest
  | escape hi lo rest hhi hlo ih =>
      have hle := length_strdecode_le rest
      refine iff_of_false (fun heq => ?_) ?_
      · -- the escape is three bytes long, and what it is decoded to one
        have hlength := congrArg List.length heq
        rw [strdecode_escape hhi hlo] at hlength
        simp only [List.length_cons] at hlength
        omega
      · exact not_not.mpr ⟨[], _, rfl, hi, lo, rest, rfl, hhi, hlo⟩
  | copy c rest hcopy ih =>
      rw [strdecode_copy hcopy, has_escape_cons_iff hcopy, ← ih]
      exact ⟨fun heq => (List.cons.inj heq).2, fun heq => by rw [heq]⟩

/-- A slash separates what is decoded: it is no part of an escape. -/
theorem strdecode_append_slash (first rest : Bytes) :
    strdecode (first ++ 47 :: rest) = strdecode first ++ 47 :: strdecode rest := by
  induction first using strdecode_induction with
  | nil => exact strdecode_cons (by decide) rest
  | escape hi lo tail hhi hlo ih =>
      show strdecode (37 :: hi :: lo :: (tail ++ 47 :: rest)) = _
      rw [strdecode_escape hhi hlo, strdecode_escape hhi hlo, ih]
      rfl
  | copy c tail hcopy ih =>
      have hstart : ¬ StartsEscape (c :: (tail ++ 47 :: rest)) := by
        intro ⟨hi, lo, after, heq, hhi, hlo⟩
        obtain ⟨rfl, htail⟩ := List.cons.inj heq
        match tail with
        | [] =>
            obtain ⟨rfl, -⟩ := List.cons.inj htail
            exact absurd hhi (by decide)
        | [_] =>
            obtain ⟨-, hnext⟩ := List.cons.inj htail
            obtain ⟨rfl, -⟩ := List.cons.inj hnext
            exact absurd hlo (by decide)
        | b :: d :: more =>
            obtain ⟨rfl, hnext⟩ := List.cons.inj htail
            obtain ⟨rfl, -⟩ := List.cons.inj hnext
            exact hcopy ⟨b, d, more, rfl, hhi, hlo⟩
      rw [List.cons_append, strdecode_copy hstart, strdecode_copy hcopy, ih]
      rfl

end UnixNet.Pub
