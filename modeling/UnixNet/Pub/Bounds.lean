import UnixNet.Lib.Memory
import UnixNet.Pub.Codec

/-!
# `strencode` on memory

`strencode(to, tosize, from)` with every byte it writes, the terminators of `sprintf` among them.
The loop goes on while five bytes are left, an escape with its terminator takes four of them, and
one is left for the terminator of the output. What the array then holds is the output of `strencode`
(`strencode_at_loop_eq`), a text of the alphabet of URLs (`UrlText`), and nothing is written
elsewhere (`strencode_stays`).
-/

namespace UnixNet.Pub

open NetLib

/-- The variables of `strencode`: the memory, the pointer into the target, the number of bytes
written to it, and all the writes. -/
structure Encoding where
  mem : Memory
  target : Nat
  tolen : Nat
  accesses : List Access

/-- Write a text at the pointer, which stays where it is. -/
def Encoding.write (s : Encoding) (text : Bytes) : Encoding :=
  { s with
    mem := s.mem.put s.target text
    accesses := s.accesses ++ writes s.target text }

/-- `to += step; tolen += step;` -/
def Encoding.advance (s : Encoding) (step : Nat) : Encoding :=
  { s with target := s.target + step, tolen := s.tolen + step }

/-- The body of the loop: `*to = *from; ++to; ++tolen;` for a byte that stays as it is, otherwise
`sprintf(to, "%%%02x", (int) *from & 0xff); to += 3; tolen += 3;` -/
def Encoding.put (s : Encoding) (c : UInt8) : Encoding :=
  if isPlain c then (s.write [c]).advance 1 else (s.write (percent c ++ [0])).advance 3

/-- The loop of `strencode`. It has no result when the evaluation of `tolen + 4` overflows. -/
def strencodeAtLoop (tosize : Nat) : Bytes → Encoding → Option Encoding
  | [], s => some s
  | c :: rest, s =>
      if intMax < s.tolen + 4 then none
      else if s.tolen + 4 < tosize then strencodeAtLoop tosize rest (s.put c)
      else some s

/-- `strencode(to, tosize, from)` on a memory. -/
def strencodeAt (target tosize : Nat) (src : Bytes) (mem : Memory) : Option Encoding :=
  (strencodeAtLoop tosize src ⟨mem, target, 0, []⟩).map fun s => s.write [0]

/-- The bytes that stay as they are. -/
def urlAlphabet : Bytes :=
  ascii "ABCDEFGHIJKLMNOPQRSTUVWXYZabcdefghijklmnopqrstuvwxyz0123456789/_.-~"

/-- The digits of `%02x`. -/
def lowerHex : Bytes :=
  ascii "0123456789abcdef"

/-- A text of letters, digits, the five other characters, and complete escapes. -/
inductive UrlText : Bytes → Prop where
  | nil : UrlText []
  | plain (c : UInt8) (rest : Bytes) : c ∈ urlAlphabet → UrlText rest → UrlText (c :: rest)
  | escape (hi lo : UInt8) (rest : Bytes) :
      hi ∈ lowerHex → lo ∈ lowerHex → UrlText rest → UrlText (37 :: hi :: lo :: rest)

/-! ## The alphabet -/

theorem mem_alphabet_of_plain {c : UInt8} (h : isPlain c = true) : c ∈ urlAlphabet := by
  have hall : ∀ n : Fin 256, isPlain (UInt8.ofNat n) = true → UInt8.ofNat n ∈ urlAlphabet := by
    decide +kernel
  have hc := hall ⟨c.toNat, UInt8.toNat_lt c⟩
  rw [UInt8.ofNat_toNat] at hc
  exact hc h

theorem hex_digit_mem : ∀ n : Fin 16, hexDigit n ∈ lowerHex := by
  decide +kernel

/-- An encoding is a text for URLs. -/
theorem url_text_encode (src : Bytes) : UrlText (encode src) := by
  induction src with
  | nil => exact .nil
  | cons c rest ih =>
      have hlt := UInt8.toNat_lt c
      rw [encode, List.flatMap_cons, encodeByte]
      split
      · next hplain => exact .plain c _ (mem_alphabet_of_plain hplain) ih
      · exact .escape _ _ _ (hex_digit_mem ⟨c.toNat / 16, by omega⟩)
          (hex_digit_mem ⟨c.toNat % 16, by omega⟩) ih

/-! ## The loop -/

/-- The text `out` has been written to the target. Behind it there may be the terminator of an
escape. -/
structure Filled (mem : Memory) (dst tosize : Nat) (out : Bytes) (s : Encoding) : Prop where
  target : s.target = dst + out.length
  tolen : s.tolen = out.length
  written : ∃ pad : Bytes, pad.length ≤ 1 ∧ s.mem = mem.put dst (out ++ pad)
  writes : WritesTo dst (dst + tosize - 1) s.accesses
  room : out.length < tosize

variable {mem : Memory} {dst tosize : Nat} {out : Bytes} {s : Encoding}

/-- Writing a text with room for it, of which all but the last `pad` is passed. -/
theorem Filled.write (h : Filled mem dst tosize out s) (text pad : Bytes)
    (hroom : out.length + (text ++ pad).length ≤ tosize) (htext : text ≠ []) (hpad : pad.length ≤ 1)
    (hless : out.length + text.length < tosize) :
    Filled mem dst tosize (out ++ text) ((s.write (text ++ pad)).advance text.length) := by
  obtain ⟨htarget, htolen, ⟨before, hbefore, hmem⟩, hwrites, -⟩ := h
  have hpos := List.length_pos_iff.mpr htext
  refine ⟨?_, ?_, ⟨pad, hpad, ?_⟩, ?_, ?_⟩
  · show s.target + text.length = _
    rw [htarget, List.length_append, Nat.add_assoc]
  · show s.tolen + text.length = _
    rw [htolen, List.length_append]
  · show s.mem.put s.target (text ++ pad) = _
    rw [hmem, htarget, Memory.put_over, List.append_assoc]
    rw [List.length_append]
    omega
  · exact hwrites.append (.of_writes (by omega) (by omega))
  · rw [List.length_append]
    exact hless

/-- The body of the loop writes the encoding of one byte. -/
theorem Filled.put (h : Filled mem dst tosize out s) (hsize : s.tolen + 4 < tosize) (c : UInt8) :
    Filled mem dst tosize (out ++ encodeByte c) (s.put c) := by
  have htolen := h.tolen
  unfold Encoding.put encodeByte
  split
  · exact h.write [c] [] (by simp; omega) (List.cons_ne_nil _ _) (by simp)
      (by simp; omega)
  · exact h.write (percent c) [0] (by simp [percent]; omega)
      (List.cons_ne_nil _ _) (by simp) (by simp [percent]; omega)

/-- The loop on a memory writes what the loop of `strencode` gives, and overflows where that does.
-/
theorem strencode_at_loop_eq (src : Bytes) (h : Filled mem dst tosize out s) :
    (strencodeLoop tosize out.length src = none → strencodeAtLoop tosize src s = none) ∧
      ∀ more, strencodeLoop tosize out.length src = some more →
        ∃ final, strencodeAtLoop tosize src s = some final ∧
          Filled mem dst tosize (out ++ more) final := by
  induction src generalizing s out with
  | nil =>
      refine ⟨(fun hnone => by cases hnone), fun more hmore => ⟨s, rfl, ?_⟩⟩
      rw [← Option.some.inj hmore, List.append_nil]
      exact h
  | cons c rest ih =>
      have htolen := h.tolen
      rw [strencodeAtLoop, htolen]
      by_cases hint : intMax < out.length + 4
      · rw [strencodeLoop, if_pos hint, if_pos hint]
        exact ⟨fun _ => rfl, fun more hmore => by cases hmore⟩
      · by_cases hsize : out.length + 4 < tosize
        · obtain ⟨hnone, hsome⟩ := ih (h.put (htolen ▸ hsize) c)
          rw [List.length_append] at hnone hsome
          rw [strencode_loop_cons (by omega) hsize, if_neg hint, if_pos hsize]
          refine ⟨fun hmap => hnone (Option.map_eq_none_iff.mp hmap), fun more hmore => ?_⟩
          obtain ⟨tail, htail, rfl⟩ := Option.map_eq_some_iff.mp hmore
          rw [← List.append_assoc]
          exact hsome tail htail
        · rw [strencodeLoop, if_neg hint, if_neg hsize, if_neg hint, if_neg hsize]
          refine ⟨(fun hnone => by cases hnone), fun more hmore => ⟨s, rfl, ?_⟩⟩
          rw [← Option.some.inj hmore, List.append_nil]
          exact h

/-- On a memory the encoder puts its output and a terminator into the target. -/
theorem strencode_at_eq (mem : Memory) (dst : Nat) {tosize : Nat} (src : Bytes)
    (hsize : 1 ≤ tosize) :
    (strencode tosize src = none → strencodeAt dst tosize src mem = none) ∧
      ∀ out, strencode tosize src = some out → out.length < tosize ∧
        ∃ final, strencodeAt dst tosize src mem = some final ∧
          final.mem = mem.put dst (out ++ [0]) ∧
          WritesTo dst (dst + tosize - 1) final.accesses := by
  have hstart : Filled mem dst tosize [] ⟨mem, dst, 0, []⟩ :=
    ⟨rfl, rfl, ⟨[], Nat.zero_le 1, (Memory.put_nil mem dst).symm⟩,
      (fun a c hwrite => by cases hwrite), hsize⟩
  obtain ⟨hnone, hsome⟩ := strencode_at_loop_eq src hstart
  refine ⟨fun h => by rw [strencodeAt, hnone h]; rfl, fun out hout => ?_⟩
  obtain ⟨final, hfinal, hfilled⟩ := hsome out hout
  rw [List.nil_append] at hfilled
  obtain ⟨htarget, -, ⟨pad, hpad, hmem⟩, hwrites, hroom⟩ := hfilled
  refine ⟨hroom, final.write [0], by rw [strencodeAt, hfinal]; rfl, ?_, ?_⟩
  · show final.mem.put final.target [0] = _
    rw [hmem, htarget, Memory.put_over _ _ hpad]
  · refine hwrites.append (.of_writes (by omega) ?_)
    rw [htarget, List.length_singleton]
    omega

/-- The bounded encoder stays in its target, and what it leaves there is well-formed. For every
text, every target of at least one byte in any memory: where the counter does not overflow, all
writes, the terminators of `sprintf` among them, are to the `tosize` bytes of the target, which then
hold a text and a terminator, and however short the text was cut it consists of bytes of the
alphabet and complete escapes. The counter overflows exactly in the case stated last. -/
theorem strencode_stays (mem : Memory) (dst tosize : Nat) (src : Bytes) (hsize : 1 ≤ tosize) :
    (∀ final, strencodeAt dst tosize src mem = some final →
      WritesTo dst (dst + tosize - 1) final.accesses ∧
        ∃ out, out.length < tosize ∧ final.mem = mem.put dst (out ++ [0]) ∧ UrlText out) ∧
    (strencodeAt dst tosize src mem = none ↔
      ∃ k < src.length, intMax < (encode (src.take k)).length + 4 ∧
        ∀ j < k, (encode (src.take j)).length + 4 < tosize) := by
  obtain ⟨hnone, hsome⟩ := strencode_at_eq mem dst src hsize
  have hoverflow : strencode tosize src = none ↔
      ∃ k < src.length, intMax < (encode (src.take k)).length + 4 ∧
        ∀ j < k, (encode (src.take j)).length + 4 < tosize := by
    simp only [strencode, strencode_loop_eq_none_iff, Nat.zero_add]
  rw [← hoverflow]
  cases hlist : strencode tosize src with
  | none =>
      rw [hnone hlist]
      exact ⟨(fun final hfinal => by cases hfinal), iff_of_true rfl rfl⟩
  | some out =>
      obtain ⟨hroom, final, hfinal, hmem, hwrites⟩ := hsome out hlist
      obtain ⟨k, rfl, -⟩ := strencode_loop_eq_encode hlist
      rw [hfinal]
      refine ⟨fun other hother => ?_, by simp⟩
      obtain rfl := Option.some.inj hother
      exact ⟨hwrites, _, hroom, hmem, url_text_encode _⟩

/-- A target of five bytes is too small for the blank behind the letter. -/
theorem strencode_stays_small :
    ∃ final, strencodeAt 0 5 (ascii "a b") (fun _ => 1) = some final ∧
      WritesTo 0 4 final.accesses := by
  have hsome : (strencodeAt 0 5 (ascii "a b") fun _ => 1).isSome = true := by decide
  obtain ⟨final, hfinal⟩ := Option.isSome_iff_exists.mp hsome
  exact ⟨final, hfinal,
    ((strencode_stays (fun _ => 1) 0 5 (ascii "a b") (by decide)).1 final hfinal).1⟩

/-- A text of 2 GiB overflows the counter of a larger target. -/
theorem strencode_at_overflow :
    ¬ ∀ (mem : Memory) (dst tosize : Nat) (src : Bytes), (0 : UInt8) ∉ src → 1 ≤ tosize →
      ∃ final, strencodeAt dst tosize src mem = some final ∧
        WritesTo dst (dst + tosize - 1) final.accesses ∧
        ∃ out, out.length < tosize ∧ final.mem = mem.put dst (out ++ [0]) ∧ UrlText out := by
  intro h
  obtain ⟨final, hfinal, -⟩ := h (fun _ => 0) 0 (2 ^ 33) (List.replicate (2 ^ 31) 97)
    (fun hmem => absurd (List.eq_of_mem_replicate hmem) (by decide)) (by decide)
  rw [(strencode_at_eq _ 0 _ (by decide)).1 strencode_large_none] at hfinal
  cases hfinal

end UnixNet.Pub
