import Mathlib.Algebra.Group.Int.Defs
import Mathlib.Algebra.Group.Nat.Defs
import Mathlib.Data.List.Basic
import Mathlib.Data.List.TakeWhile
import Mathlib.Tactic.Common

/-!
# Byte strings, C strings and decimal numerals

Byte strings are lists of bytes. A C string is the part of a buffer before its first NUL
(`cstr`), and `snprintf` writes a text into a buffer of fixed size the way C does: cut to the
capacity minus one, terminated, leaving the rest of the buffer alone. `decimal` is the
rendering of `%d` for naturals and `parseDecimal` reads it back.
-/

namespace NetLib

/-- A byte string. -/
abbrev Bytes := List UInt8

/-- The bytes of a list of ASCII characters. -/
def charBytes (cs : List Char) : Bytes :=
  cs.map fun c => UInt8.ofNat c.toNat

/-- The bytes of an ASCII text. -/
def ascii (s : String) : Bytes :=
  charBytes s.toList

/-- Carriage return and line feed. -/
def crlf : Bytes := [13, 10]

/-- The mark that ends a line. -/
def isNewline (c : UInt8) : Bool :=
  c == 10

/-! ## C strings and buffers -/

/-- The C string a buffer holds: everything before its first NUL. -/
def cstr (buf : Bytes) : Bytes :=
  buf.takeWhile (· ≠ 0)

/-- What `printf("%s", buf)` prints: the C string in the buffer, if it has an end. -/
def printedText (buf : Bytes) : Option Bytes :=
  if 0 ∈ buf then some (cstr buf) else none

/-- A buffer of `size` zero bytes, as `char buf[size] = ""` makes it. -/
def zeros (size : Nat) : Bytes :=
  List.replicate size 0

/-- Copy `src` over the start of `dst`; the bytes of `dst` behind it stay. -/
def overwrite (src dst : Bytes) : Bytes :=
  src ++ dst.drop src.length

/-- A byte that is not in a text is none of its bytes. -/
theorem decide_ne_of_not_mem {c : UInt8} {text : Bytes} (h : c ∉ text) :
    ∀ b ∈ text, decide (b ≠ c) = true := by
  intro b hb
  rw [decide_eq_true_eq]
  exact fun heq => h (heq ▸ hb)

/-- The part of a C string behind its first byte. -/
theorem cstr_drop_one {c : UInt8} {buf rest : Bytes} (h : cstr buf = c :: rest) :
    cstr (buf.drop 1) = rest := by
  cases buf with
  | nil => cases h
  | cons b buf =>
      rw [cstr, List.takeWhile_cons] at h
      split at h
      · exact (List.cons.inj h).2
      · cases h

/-- A buffer without NUL is a C string. -/
theorem cstr_eq_self {buf : Bytes} (h : 0 ∉ buf) : cstr buf = buf :=
  List.takeWhile_eq_self_iff.mpr (decide_ne_of_not_mem h)

/-- A text up to a NUL. -/
theorem cstr_append {text : Bytes} (h : 0 ∉ text) (rest : Bytes) :
    cstr (text ++ 0 :: rest) = text := by
  rw [cstr, List.takeWhile_append_of_pos (decide_ne_of_not_mem h)]
  exact List.append_nil text

/-- There is no NUL in a C string. -/
theorem zero_not_mem_cstr (buf : Bytes) : 0 ∉ cstr buf := by
  intro h
  have hne := List.mem_takeWhile_imp h
  rw [decide_eq_true_eq] at hne
  exact hne rfl

/-- Reading back a part of what was written. -/
theorem take_overwrite {src dst : Bytes} {k : Nat} (h : k ≤ src.length) :
    (overwrite src dst).take k = src.take k :=
  List.take_append_of_le_length h

/-- Overwriting within a buffer keeps its size. -/
theorem length_overwrite {src dst : Bytes} (h : src.length ≤ dst.length) :
    (overwrite src dst).length = dst.length := by
  simp only [overwrite, List.length_append, List.length_drop]
  omega

/-- `snprintf(buf, sizeof(buf), ...)` of an already formatted text: the returned length is that
of the whole text, the stored part is cut to the capacity and terminated. -/
def snprintf (buf text : Bytes) : Int × Bytes :=
  (text.length, overwrite (text.take (buf.length - 1) ++ [0]) buf)

/-- A text that fits is found at the start of the buffer. -/
theorem take_snprintf {buf text : Bytes} {k : Nat} (hk : k ≤ text.length)
    (hfit : text.length < buf.length) : (snprintf buf text).2.take k = text.take k := by
  have htake : text.take (buf.length - 1) = text := List.take_of_length_le (by omega)
  rw [snprintf, htake, take_overwrite (by simp; omega)]
  exact List.take_append_of_le_length hk

/-- `snprintf` keeps the size of a nonempty buffer. -/
theorem length_snprintf {buf text : Bytes} (h : 0 < buf.length) :
    (snprintf buf text).2.length = buf.length := by
  refine length_overwrite ?_
  simp only [List.length_append, List.length_take, List.length_singleton]
  omega

/-- The C string in the buffer, also with more behind it: as much of the text as there is room for.
-/
theorem cstr_snprintf_take {buf text : Bytes} (hnul : 0 ∉ text) (rest : Bytes) :
    cstr ((snprintf buf text).2 ++ rest) = text.take (buf.length - 1) := by
  rw [snprintf, overwrite, List.append_assoc, List.append_assoc]
  exact cstr_append (fun h => hnul (List.mem_of_mem_take h)) _

/-- A text that fits is the C string in the buffer. -/
theorem cstr_snprintf {buf text : Bytes} (hnul : 0 ∉ text) (hfit : text.length < buf.length) :
    cstr (snprintf buf text).2 = text := by
  have hcut : cstr ((snprintf buf text).2 ++ []) = _ := cstr_snprintf_take hnul []
  rwa [List.append_nil, List.take_of_length_le (by omega)] at hcut

/-- The length of a header line: its label, its value and the line end. -/
theorem length_line (label value : Bytes) :
    (label ++ value ++ crlf).length = label.length + value.length + 2 := by
  rw [List.length_append, List.length_append]
  rfl

/-- Right-justify in a field of the given width, as `%32s` and `%8ld` do. -/
def padLeft (width : Nat) (text : Bytes) : Bytes :=
  List.replicate (width - text.length) 32 ++ text

/-! ## Decimal numerals -/

/-- The decimal numeral of a natural number. -/
def decimal (n : Nat) : Bytes :=
  charBytes (Nat.toDigits 10 n)

/-- The decimal numeral of an integer, as `%d` prints it. -/
def decimalInt (z : Int) : Bytes :=
  if z < 0 then 45 :: decimal z.natAbs else decimal z.natAbs

/-- Whether a byte is an ASCII digit. -/
def isdigit (b : UInt8) : Bool :=
  48 ≤ b && b ≤ 57

/-- Read a nonempty string of digits. -/
def parseDecimal (s : Bytes) : Option Nat :=
  if s ≠ [] ∧ s.all isdigit then
    some (Nat.ofDigitChars 10 (s.map fun b => Char.ofNat b.toNat) 0)
  else none

/-- A digit character keeps its value through the conversion to a byte and back. -/
theorem digit_char_round_trip {c : Char} (h : c.isDigit) :
    isdigit (UInt8.ofNat c.toNat) = true ∧ Char.ofNat (UInt8.ofNat c.toNat).toNat = c := by
  have hval : 48 ≤ c.toNat ∧ c.toNat ≤ 57 := by
    simp only [Char.isDigit, Bool.and_eq_true, decide_eq_true_eq, ge_iff_le] at h
    exact h
  have hbyte : (UInt8.ofNat c.toNat).toNat = c.toNat := by
    rw [UInt8.toNat_ofNat']
    exact Nat.mod_eq_of_lt (by omega)
  constructor
  · simp only [isdigit, Bool.and_eq_true, decide_eq_true_eq, UInt8.le_iff_toNat_le, hbyte]
    exact hval
  · rw [hbyte, Char.ofNat_toNat]

/-- Every byte of a numeral is a digit. -/
theorem isdigit_of_mem_decimal {n : Nat} {b : UInt8} (h : b ∈ decimal n) : isdigit b = true := by
  obtain ⟨c, hc, rfl⟩ := List.mem_map.mp h
  exact (digit_char_round_trip (Nat.isDigit_of_mem_toDigits (by decide) (by decide) hc)).1

/-- A numeral has at least one digit. -/
theorem decimal_ne_nil (n : Nat) : decimal n ≠ [] := by
  simp [decimal, charBytes, Nat.toDigits_ne_nil]

/-- A number below `10 ^ 10` has at most ten digits. -/
theorem length_decimal_le {n : Nat} (h : n < 10 ^ 10) : (decimal n).length ≤ 10 := by
  rw [decimal, charBytes, List.length_map]
  exact (Nat.length_toDigits_le_iff (by decide) (by decide)).mpr h

/-- An `int` is printed in at most eleven bytes. -/
theorem length_decimalInt_le {z : Int} (h : z.natAbs < 10 ^ 10) : (decimalInt z).length ≤ 11 := by
  have hdigits := length_decimal_le h
  unfold decimalInt
  split
  · rw [List.length_cons]
    omega
  · omega

/-- Reading a numeral back gives the number. -/
theorem parse_decimal (n : Nat) : parseDecimal (decimal n) = some n := by
  have hall : (decimal n).all isdigit = true :=
    List.all_eq_true.mpr fun _ hb => isdigit_of_mem_decimal hb
  have hback : (decimal n).map (fun b => Char.ofNat b.toNat) = Nat.toDigits 10 n := by
    rw [decimal, charBytes, List.map_map]
    conv_rhs => rw [← List.map_id (Nat.toDigits 10 n)]
    refine List.map_congr_left fun c hc => ?_
    exact (digit_char_round_trip (Nat.isDigit_of_mem_toDigits (by decide) (by decide) hc)).2
  rw [parseDecimal, if_pos ⟨decimal_ne_nil n, hall⟩, hback, Nat.ofDigitChars_ten_toDigits]

end NetLib
