import Mathlib.Algebra.Ring.Nat
import UnixNet.Lib.Text

/-!
# The order of bytes

How a 16-bit number lies in the memory of a host: `Endian.word` reads two bytes as a number,
`Endian.bytes` are the bytes of a number, and `htons` and `ntohs` go between the host's order and
that of the network. A text read as 16-bit numbers is `Endian.words`; a last byte without a
neighbour gets a zero byte. The orders give different numbers, and `words_sum_mod` is what the sums
have in common.
-/

namespace NetLib

/-- The order in which a host has the bytes of a number. -/
inductive Endian where
  | little
  | big
  deriving DecidableEq

namespace Endian

/-- The `unsigned short` whose bytes are these. -/
def word : Endian → UInt8 → UInt8 → Nat
  | little, c, d => c.toNat + 256 * d.toNat
  | big, c, d => 256 * c.toNat + d.toNat

/-- The bytes of an `unsigned short`. -/
def bytes : Endian → Nat → Bytes
  | little, w => [UInt8.ofNat w, UInt8.ofNat (w / 256)]
  | big, w => [UInt8.ofNat (w / 256), UInt8.ofNat w]

/-- An `unsigned short` with its bytes exchanged. -/
def swap (w : Nat) : Nat :=
  w / 256 % 256 + 256 * (w % 256)

/-- `htons(w)` -/
def htons : Endian → Nat → Nat
  | little, w => swap w
  | big, w => w

/-- `ntohs(w)` -/
def ntohs : Endian → Nat → Nat
  | little, w => swap w
  | big, w => w

/-- A text as 16-bit numbers. -/
def words (e : Endian) : Bytes → List Nat
  | c :: d :: rest => e.word c d :: e.words rest
  | [c] => [e.word c 0]
  | [] => []

variable (e f : Endian) (c d : UInt8)

/-! ## One number -/

theorem word_lt : e.word c d < 65536 := by
  have hc := c.toNat_lt
  have hd := d.toNat_lt
  cases e with
  | little =>
      show c.toNat + 256 * d.toNat < 65536
      omega
  | big =>
      show 256 * c.toNat + d.toNat < 65536
      omega

@[simp] theorem length_bytes (w : Nat) : (e.bytes w).length = 2 := by
  cases e with
  | little => rfl
  | big => rfl

/-- The bytes of a number are read as the number. -/
theorem word_bytes {w : Nat} (h : w < 65536) : ∃ c d, e.bytes w = [c, d] ∧ e.word c d = w := by
  cases e with
  | little =>
      refine ⟨_, _, rfl, ?_⟩
      rw [word, UInt8.toNat_ofNat', UInt8.toNat_ofNat']
      omega
  | big =>
      refine ⟨_, _, rfl, ?_⟩
      rw [word, UInt8.toNat_ofNat', UInt8.toNat_ofNat']
      omega

/-- A number is zero if its bytes are, in any order. -/
theorem word_eq_zero_iff : e.word c d = 0 ↔ c = 0 ∧ d = 0 := by
  rw [← UInt8.toNat_inj, ← UInt8.toNat_inj]
  cases e with
  | little =>
      show c.toNat + 256 * d.toNat = 0 ↔ c.toNat = 0 ∧ d.toNat = 0
      omega
  | big =>
      show 256 * c.toNat + d.toNat = 0 ↔ c.toNat = 0 ∧ d.toNat = 0
      omega

/-- A number whose first byte in the memory is zero is not the largest one. -/
theorem word_zero_lt : e.word 0 d < 65535 := by
  have hd := d.toNat_lt
  cases e with
  | little =>
      show 0 + 256 * d.toNat < 65535
      omega
  | big =>
      show 256 * 0 + d.toNat < 65535
      omega

/-- `ntohs` makes of what the host reads what the network means. -/
theorem ntohs_word : e.ntohs (e.word c d) = big.word c d := by
  have hc := c.toNat_lt
  have hd := d.toNat_lt
  cases e with
  | little =>
      show (c.toNat + 256 * d.toNat) / 256 % 256 + 256 * ((c.toNat + 256 * d.toNat) % 256) =
        256 * c.toNat + d.toNat
      omega
  | big => rfl

/-- `htons` makes a number whose bytes the host has in the order of the network. -/
theorem bytes_htons (w : Nat) : e.bytes (e.htons w) = big.bytes w := by
  cases e with
  | little =>
      have hlow : UInt8.ofNat (swap w) = UInt8.ofNat (w / 256) := by
        rw [← UInt8.toNat_inj, UInt8.toNat_ofNat', UInt8.toNat_ofNat', swap]
        omega
      have hhigh : UInt8.ofNat (swap w / 256) = UInt8.ofNat w := by
        have hbyte : w / 256 % 256 < 256 := Nat.mod_lt _ (by decide)
        rw [← UInt8.toNat_inj, UInt8.toNat_ofNat', UInt8.toNat_ofNat', swap,
          Nat.add_mul_div_left _ _ (by decide), Nat.div_eq_of_lt hbyte, Nat.zero_add]
        exact Nat.mod_mod _ _
      show [UInt8.ofNat (swap w), UInt8.ofNat (swap w / 256)] = _
      rw [hlow, hhigh]
      rfl
  | big => rfl

/-- Different numbers stay different. -/
theorem ntohs_inj {v w : Nat} (hv : v < 65536) (hw : w < 65536) (h : e.ntohs v = e.ntohs w) :
    v = w := by
  cases e with
  | little =>
      have hswap : v / 256 % 256 + 256 * (v % 256) = w / 256 % 256 + 256 * (w % 256) := h
      omega
  | big => exact h

/-! ## A text as numbers -/

variable {e f}

/-- A text behind a text of even length. -/
theorem words_append {text : Bytes} (h : text.length % 2 = 0) (more : Bytes) :
    e.words (text ++ more) = e.words text ++ e.words more := by
  induction text using words.induct with
  | case1 c d rest ih =>
      rw [List.length_cons, List.length_cons] at h
      rw [List.cons_append, List.cons_append, words, words, ih (by omega), List.cons_append]
  | case2 c => cases h
  | case3 => rfl

/-- The byte that is missing at the end is zero. -/
theorem words_padded {text : Bytes} (h : text.length % 2 = 1) :
    e.words (text ++ [0]) = e.words text := by
  induction text using words.induct with
  | case1 c d rest ih =>
      rw [List.length_cons, List.length_cons] at h
      rw [List.cons_append, List.cons_append, words, words, ih (by omega)]
  | case2 c => rfl
  | case3 => exact absurd h (by decide)

/-- The last byte of a text of even length. -/
theorem words_sum_concat {text : Bytes} (h : text.length % 2 = 1) (c : UInt8) :
    (e.words (text ++ [c])).sum = (e.words text).sum + e.word 0 c := by
  induction text using words.induct with
  | case1 b d rest ih =>
      rw [List.length_cons, List.length_cons] at h
      rw [List.cons_append, List.cons_append, words, words, List.sum_cons, List.sum_cons,
        ih (by omega), Nat.add_assoc]
  | case2 b =>
      show e.word b c + 0 = e.word b 0 + 0 + e.word 0 c
      cases e with
      | little =>
          show b.toNat + 256 * c.toNat = b.toNat + (0 + 256 * c.toNat)
          omega
      | big =>
          show 256 * b.toNat + c.toNat = 256 * b.toNat + 0 + (0 + c.toNat)
          omega
  | case3 => cases h

theorem mem_words_lt {text : Bytes} {w : Nat} (h : w ∈ e.words text) : w < 65536 := by
  induction text using words.induct with
  | case1 c d rest ih =>
      rcases List.mem_cons.mp h with heq | hrest
      · rw [heq]
        exact e.word_lt c d
      · exact ih hrest
  | case2 c =>
      rw [List.mem_singleton.mp h]
      exact e.word_lt c 0
  | case3 => cases h

/-- A bound for the sum. -/
theorem words_sum_le (text : Bytes) :
    2 * (e.words text).sum ≤ 65535 * (text.length + text.length % 2) := by
  induction text using words.induct with
  | case1 c d rest ih =>
      have hword := e.word_lt c d
      rw [words, List.sum_cons, List.length_cons, List.length_cons]
      omega
  | case2 c =>
      have hword := e.word_lt c 0
      show 2 * (e.word c 0 + 0) ≤ 65535 * 2
      omega
  | case3 => exact Nat.zero_le _

/-- The sums are zero for the same texts. -/
theorem words_sum_eq_zero (text : Bytes) : (e.words text).sum = 0 ↔ (f.words text).sum = 0 := by
  induction text using words.induct with
  | case1 c d rest ih =>
      rw [words, words, List.sum_cons, List.sum_cons, Nat.add_eq_zero_iff, Nat.add_eq_zero_iff, ih,
        word_eq_zero_iff, word_eq_zero_iff]
  | case2 c =>
      show e.word c 0 + 0 = 0 ↔ f.word c 0 + 0 = 0
      rw [Nat.add_zero, Nat.add_zero, word_eq_zero_iff, word_eq_zero_iff]
  | case3 => exact Iff.rfl

/-- The numbers of one order are, up to multiples of 65535, those of the other times 256. -/
theorem words_sum_other (text : Bytes) :
    (∃ k, 256 * (big.words text).sum = (little.words text).sum + 65535 * k) ∧
      ∃ k, 256 * (little.words text).sum = (big.words text).sum + 65535 * k := by
  induction text using words.induct with
  | case1 c d rest ih =>
      obtain ⟨⟨j, hj⟩, k, hk⟩ := ih
      rw [words, words, List.sum_cons, List.sum_cons]
      refine ⟨⟨j + c.toNat, ?_⟩, k + d.toNat, ?_⟩
      · show 256 * (256 * c.toNat + d.toNat + _) = c.toNat + 256 * d.toNat + _ + _
        omega
      · show 256 * (c.toNat + 256 * d.toNat + _) = 256 * c.toNat + d.toNat + _ + _
        omega
  | case2 c =>
      refine ⟨⟨c.toNat, ?_⟩, 0, ?_⟩
      · show 256 * (256 * c.toNat + 0 + 0) = c.toNat + 256 * 0 + 0 + 65535 * c.toNat
        omega
      · show 256 * (c.toNat + 256 * 0 + 0) = 256 * c.toNat + 0 + 0 + 65535 * 0
        omega
  | case3 => exact ⟨⟨0, rfl⟩, 0, rfl⟩

/-- Whether a sum is a multiple of 65535 does not depend on the order of the bytes. -/
theorem words_sum_mod (text : Bytes) :
    (e.words text).sum % 65535 = 0 ↔ (f.words text).sum % 65535 = 0 := by
  obtain ⟨⟨j, hj⟩, k, hk⟩ := words_sum_other text
  cases e with
  | little =>
      cases f with
      | little => exact Iff.rfl
      | big => omega
  | big =>
      cases f with
      | little => omega
      | big => exact Iff.rfl

end Endian

end NetLib
