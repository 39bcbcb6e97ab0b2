import UnixNet.Lib.InternetChecksum
import UnixNet.Lib.Memory

/-!
# The function `checksum` of `udpMessage.c`

`checksum` adds the 16-bit numbers of the host from `buf` on into an `unsigned long`, folds the sum
twice and returns the lower half of its complement. For an odd `len` it counts the last number as a
whole one, and reads the byte behind the buffer. `checksum_value` says what it computes from the
bytes that it reads, `stored_checksum_accepted` that a receiver accepts a buffer with its checksum,
and `checksum_of_text_iff` for which texts it computes the checksum of the protocols.
-/

namespace UnixNet.SockRaw

open NetLib

/-- The loop of `checksum`: `nWord` more numbers. -/
def addWords (e : Endian) (mem : Memory) : Nat → Nat → UInt64 → UInt64
  | _, 0, sum => sum
  | buf, nWord + 1, sum =>
      addWords e mem (buf + 2) nWord (sum + UInt64.ofNat (e.word (mem buf) (mem (buf + 1))))

/-- `checksum(buf, len)` -/
def checksum (e : Endian) (mem : Memory) (buf len : Nat) : UInt16 :=
  let nWord := if len % 2 = 1 then len / 2 + 1 else len / 2
  let sum := addWords e mem buf nWord 0
  let sum := (sum >>> 16) + (sum &&& 0xffff)
  let sum := sum + (sum >>> 16)
  (~~~sum).toUInt16

variable {e : Endian} {mem : Memory} {buf len : Nat}

/-! ## What is computed -/

/-- The loop adds the numbers, as long as the sum is one of 64 bits. -/
theorem add_words_value {n : Nat} {sum : UInt64} (h : sum.toNat + 65536 * n < 2 ^ 64) :
    (addWords e mem buf n sum).toNat = sum.toNat + (e.words (mem.bytes buf (2 * n))).sum := by
  induction n generalizing buf sum with
  | zero => rfl
  | succ n ih =>
      have hword := e.word_lt (mem buf) (mem (buf + 1))
      have hadd : (sum + UInt64.ofNat (e.word (mem buf) (mem (buf + 1)))).toNat =
          sum.toNat + e.word (mem buf) (mem (buf + 1)) := by
        rw [UInt64.toNat_add, UInt64.toNat_ofNat']
        omega
      rw [addWords, ih (by omega), hadd, Nat.add_assoc]
      rfl

/-- The number of bytes that are read. -/
theorem two_mul_words (len : Nat) :
    2 * (if len % 2 = 1 then len / 2 + 1 else len / 2) = len + len % 2 := by
  split
  · omega
  · omega

/-- The two folding steps and the complement. -/
theorem complement_value {sum : UInt64} (h : sum.toNat < 2 ^ 63) :
    let folded := (sum >>> 16) + (sum &&& 0xffff)
    (~~~(folded + (folded >>> 16))).toUInt16.toNat =
      65535 - fold (fold sum.toNat) % 65536 := by
  intro folded
  have hlow : (sum &&& 0xffff).toNat = sum.toNat % 65536 := by
    rw [UInt64.toNat_and]
    exact Nat.and_two_pow_sub_one_eq_mod sum.toNat 16
  have hfolded : folded.toNat = fold sum.toNat := by
    rw [UInt64.toNat_add, hlow, UInt64.toNat_shiftRight, fold]
    show (sum.toNat >>> 16 + sum.toNat % 65536) % 2 ^ 64 = _
    rw [Nat.shiftRight_eq_div_pow]
    omega
  -- the folded sum is far from 2 ^ 64, and the second folding step does not wrap
  have hbound : fold sum.toNat < 2 ^ 62 := by
    unfold fold
    omega
  have hagain : (folded + (folded >>> 16)).toNat = fold sum.toNat + fold sum.toNat / 65536 := by
    rw [UInt64.toNat_add, UInt64.toNat_shiftRight, hfolded]
    show (fold sum.toNat + fold sum.toNat >>> 16) % 2 ^ 64 = _
    rw [Nat.shiftRight_eq_div_pow]
    omega
  rw [UInt64.toNat_toUInt16, UInt64.toNat_not, hagain]
  generalize fold sum.toNat = s at *
  unfold fold
  show (2 ^ 64 - 1 - (s + s / 65536)) % 2 ^ 16 = _
  omega

/-- What `checksum` computes from the bytes that it reads. -/
theorem checksum_value (hlen : len < 2 ^ 31) :
    (checksum e mem buf len).toNat =
      65535 - fold (fold (e.words (mem.bytes buf (len + len % 2))).sum) % 65536 := by
  have hwords := two_mul_words len
  have hzero : (0 : UInt64).toNat = 0 := rfl
  have hroom : (0 : UInt64).toNat + 65536 * (if len % 2 = 1 then len / 2 + 1 else len / 2) <
      2 ^ 64 := by
    rw [hzero]
    omega
  have hsum : (addWords e mem buf (if len % 2 = 1 then len / 2 + 1 else len / 2) 0).toNat = _ :=
    add_words_value hroom
  rw [hwords, hzero, Nat.zero_add] at hsum
  have hbound := Endian.words_sum_le (e := e) (mem.bytes buf (len + len % 2))
  rw [Memory.length_bytes] at hbound
  rw [← hsum]
  exact complement_value (by rw [hsum]; omega)

/-- The checksum of the protocols is computed for a text of even length, if the sum fits into 16
bits after the two folding steps. -/
theorem checksum_eq_internet (hlen : len < 2 ^ 31) (heven : len % 2 = 0)
    (hfold : fold (fold (e.words (mem.bytes buf len)).sum) < 65536) :
    (checksum e mem buf len).toNat = internetChecksum e (mem.bytes buf len) := by
  rw [checksum_value hlen, heven, Nat.add_zero, eq_comm, internet_checksum_iff,
    Nat.mod_eq_of_lt hfold, fold_mod, fold_mod, fold_eq_zero, fold_eq_zero]
  exact ⟨rfl, Iff.rfl⟩

/-- Two folding steps are enough for up to 65537 numbers. -/
theorem fold_fold_words_lt {text : Bytes} (h : text.length ≤ 131074) (heven : text.length % 2 = 0) :
    fold (fold (e.words text).sum) < 65536 := by
  have hbound := Endian.words_sum_le (e := e) text
  exact fold_fold_lt (by omega)

/-- A buffer with its checksum in a place that was zero is accepted, whatever the orders of the
bytes are on the two hosts. -/
theorem stored_checksum_accepted (e receiver : Endian) (mem : Memory) (buf : Nat) {len offset : Nat}
    (heven : len % 2 = 0) (hlen : len ≤ 65534) (hoffset : offset % 2 = 0) (hin : offset + 2 ≤ len)
    (hfirst : mem (buf + offset) = 0) (hsecond : mem (buf + offset + 1) = 0) :
    Accepts receiver
      ((mem.put (buf + offset) (e.bytes (checksum e mem buf len).toNat)).bytes buf len) := by
  obtain ⟨last, rfl⟩ := Nat.exists_eq_add_of_le hin
  -- the buffer before and after the store differ in the two bytes at the offset
  have hbefore : mem.bytes buf (offset + 2 + last) =
      mem.bytes buf offset ++ [0, 0] ++ mem.bytes (buf + offset + 2) last := by
    rw [Memory.bytes_add, Memory.bytes_add, ← Nat.add_assoc]
    show mem.bytes buf offset ++ [mem (buf + offset), mem (buf + offset + 1)] ++ _ = _
    rw [hfirst, hsecond]
  have hlength : (mem.bytes buf (offset + 2 + last)).length = offset + 2 + last :=
    mem.length_bytes _ _
  have hfold : fold (fold (e.words (mem.bytes buf (offset + 2 + last))).sum) < 65536 :=
    fold_fold_words_lt (by omega) (by omega)
  have hafter := mem.bytes_put buf offset last
    (e.bytes (checksum e mem buf (offset + 2 + last)).toNat)
  rw [Endian.length_bytes] at hafter
  have hprefix : (mem.bytes buf offset).length % 2 = 0 := by
    rw [mem.length_bytes]
    exact hoffset
  rw [hafter, checksum_eq_internet (by omega) heven hfold, hbefore]
  exact accepts_other (accepts_checksum e hprefix _)

/-- The IP header of `udpMessage.c` for 14 bytes of data, behind the place of the Ethernet header,
before it has its checksum. -/
def ipHeaderMemory : Memory := fun address =>
  if address < 14 then 0
  else
    ([0x45, 0, 0, 42, 0, 0, 0, 0, 128, 17, 0, 0, 192, 168, 141, 128, 192, 168, 141, 1] : Bytes).getD
      (address - 14) 0

/-- A host of the other byte order accepts it with its checksum. -/
theorem stored_checksum_accepted_header :
    (checksum .little ipHeaderMemory 14 20).toNat ≠ 0 ∧
      Accepts .big ((ipHeaderMemory.put (14 + 10)
        (Endian.little.bytes (checksum .little ipHeaderMemory 14 20).toNat)).bytes 14 20) := by
  have heven : 20 % 2 = 0 := rfl
  have hoffset : 10 % 2 = 0 := rfl
  refine ⟨by decide +kernel, ?_⟩
  exact stored_checksum_accepted .little .big ipHeaderMemory 14 heven (by decide) hoffset
    (by decide) rfl rfl

/-! ## Texts of odd length, and long texts -/

/-- For texts of odd length the byte behind the text is a part of the sum. -/
theorem words_sum_behind {text : Bytes} (h : mem.Holds buf text) (hodd : text.length % 2 = 1) :
    (e.words (mem.bytes buf (text.length + text.length % 2))).sum =
      (e.words text).sum + e.word 0 (mem (buf + text.length)) := by
  rw [hodd, Memory.bytes_add, h.bytes_eq]
  exact Endian.words_sum_concat hodd _

/-- Up to 131073 bytes, the checksum of a text of odd length is right if and only if the byte behind
the text is zero. -/
theorem checksum_odd_iff {text : Bytes} (hlen : text.length ≤ 131073) (hodd : text.length % 2 = 1)
    (h : mem.Holds buf text) :
    (checksum e mem buf text.length).toNat = internetChecksum e text ↔
      mem (buf + text.length) = 0 := by
  have hsum := words_sum_behind (e := e) h hodd
  have hbound := Endian.words_sum_le (e := e)
    (mem.bytes buf (text.length + text.length % 2))
  rw [Memory.length_bytes, hsum] at hbound
  have hfold : fold (fold ((e.words text).sum + e.word 0 (mem (buf + text.length)))) < 65536 :=
    fold_fold_lt (by omega)
  have hlast := e.word_zero_lt (mem (buf + text.length))
  have hlast_zero := e.word_eq_zero_iff 0 (mem (buf + text.length))
  rw [checksum_value (by omega), hsum, eq_comm, internet_checksum_iff, Nat.mod_eq_of_lt hfold,
    fold_mod, fold_mod, fold_eq_zero, fold_eq_zero]
  rw [← true_and (mem (buf + text.length) = 0), ← eq_self (0 : UInt8), ← hlast_zero]
  omega

/-- If the value is the checksum of a text, the sum of what was read is congruent to that of the
text, or larger by one; the latter if it does not fit into 16 bits after the two folding steps. -/
theorem read_sum_of_eq {text : Bytes} (hlen : len < 2 ^ 31)
    (h : (checksum e mem buf len).toNat = internetChecksum e text) :
    let sum := (e.words (mem.bytes buf (len + len % 2))).sum
    fold (fold sum) < 65536 ∧ sum % 65535 = (e.words text).sum % 65535 ∨
      65536 ≤ fold (fold sum) ∧ sum % 65535 = ((e.words text).sum + 1) % 65535 := by
  intro sum
  have hbound := Endian.words_sum_le (e := e) (mem.bytes buf (len + len % 2))
  rw [Memory.length_bytes] at hbound
  have hfold : fold (fold sum) < 131072 := by
    have hsum : 2 * sum ≤ 65535 * (len + len % 2 + (len + len % 2) % 2) := hbound
    unfold fold
    omega
  have hmod : fold (fold sum) % 65535 = sum % 65535 := by
    rw [fold_mod, fold_mod]
  rw [checksum_value hlen, eq_comm, internet_checksum_iff] at h
  have hfolded : fold (fold sum) % 65536 % 65535 = (e.words text).sum % 65535 := h.1
  clear_value sum
  rcases Nat.lt_or_ge (fold (fold sum)) 65536 with hfit | hlarge
  · rw [Nat.mod_eq_of_lt hfit, hmod] at hfolded
    exact .inl ⟨hfit, hfolded⟩
  · refine .inr ⟨hlarge, ?_⟩
    have hsub : fold (fold sum) % 65536 = fold (fold sum) - 65536 := by omega
    rw [hsub] at hfolded
    omega

/-- A memory with a text and a byte behind it. -/
def behind (text : Bytes) (c : UInt8) : Memory :=
  Memory.put (fun _ => 0) 0 (text ++ [c])

theorem behind_holds (text : Bytes) (c : UInt8) : (behind text c).Holds 0 text := by
  intro i b hb
  refine Memory.put_holds _ 0 (text ++ [c]) i b ?_
  rw [List.getElem?_append_left (List.getElem?_eq_some_iff.mp hb).1]
  exact hb

theorem behind_last (text : Bytes) (c : UInt8) : behind text c (0 + text.length) = c := by
  refine Memory.put_holds _ 0 (text ++ [c]) text.length c ?_
  rw [List.getElem?_append_right (Nat.le_refl _), Nat.sub_self]
  rfl

/-- The value is the checksum of the text in every memory that holds the text, if and only if the
length is even and the sum fits into 16 bits after the two folding steps. -/
theorem checksum_of_text_iff (e : Endian) (text : Bytes) (hlen : text.length < 2 ^ 31) :
    (∀ (mem other : Memory) (buf : Nat), mem.Holds buf text → other.Holds buf text →
      checksum e mem buf text.length = checksum e other buf text.length ∧
        (checksum e mem buf text.length).toNat = internetChecksum e text) ↔
      text.length % 2 = 0 ∧ fold (fold (e.words text).sum) < 65536 := by
  constructor
  · intro h
    have hvalue : ∀ mem : Memory, mem.Holds 0 text →
        (checksum e mem 0 text.length).toNat = internetChecksum e text :=
      fun mem hmem => (h mem mem 0 hmem hmem).2
    have heven : text.length % 2 = 0 := by
      by_contra hnot
      have hodd : text.length % 2 = 1 := by omega
      -- a byte 2 behind the text changes the sum by 2 or by 512, and a carry by 1
      have hread := read_sum_of_eq hlen (hvalue _ (behind_holds text 2))
      rw [words_sum_behind (behind_holds text 2) hodd, behind_last] at hread
      have htwo : e.word 0 2 = 2 ∨ e.word 0 2 = 512 := by
        cases e with
        | little => exact .inr rfl
        | big => exact .inl rfl
      omega
    -- what was read is the text, so the value is right only if no carry was left
    have hread := read_sum_of_eq hlen (hvalue _ (behind_holds text 0))
    rw [heven, Nat.add_zero, (behind_holds text 0).bytes_eq] at hread
    exact ⟨heven, by omega⟩
  · rintro ⟨heven, hfold⟩ mem other buf hmem hother
    have hvalue : ∀ mem : Memory, mem.Holds buf text →
        (checksum e mem buf text.length).toNat = internetChecksum e text := by
      intro mem hmem
      rw [← hmem.bytes_eq] at hfold
      rw [checksum_eq_internet hlen heven hfold, hmem.bytes_eq]
    refine ⟨?_, hvalue mem hmem⟩
    rw [← UInt16.toNat_inj, hvalue mem hmem, hvalue other hother]

/-- It is not for a text of one byte. -/
theorem checksum_of_text_one :
    ¬ ∀ (mem other : Memory) (buf : Nat), mem.Holds buf [65] → other.Holds buf [65] →
      checksum .big mem buf 1 = checksum .big other buf 1 ∧
        (checksum .big mem buf 1).toNat = internetChecksum .big [65] := by
  intro h
  have heven := ((checksum_of_text_iff .big [65] (by decide)).mp h).1
  cases heven

/-- Two memories with the same text of one byte, for which `checksum` returns different values. -/
theorem checksum_reads_behind :
    (behind [65] 0).Holds 0 [65] ∧ (behind [65] 1).Holds 0 [65] ∧
      checksum .little (behind [65] 0) 0 1 ≠ checksum .little (behind [65] 1) 0 1 :=
  ⟨behind_holds [65] 0, behind_holds [65] 1, by decide⟩

end UnixNet.SockRaw
