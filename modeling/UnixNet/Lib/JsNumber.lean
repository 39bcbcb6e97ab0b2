import Mathlib.Algebra.Field.Rat
import Mathlib.Data.List.DropRight
import UnixNet.Lib.Numeral

/-!
# Strings that stand for numbers in ECMAScript

`stringToNumber` is the conversion of a string to a number: the string stands for a number when it
is empty or blank, or a decimal literal with a sign, a fraction and an exponent, or a hexadecimal,
octal or binary literal. The number is the mathematical value of the literal. A signed integer
stands for itself (`string_to_number_int`), and in no string that stands for a number a sign follows
a digit (`no_sign_of_number`); both also hold of the bytes of the string in UTF-8.
-/

namespace NetLib

/-- The value of a string that is not NaN. -/
inductive JsNumber where
  | finite (q : ℚ)
  | infinite (negative : Bool)
  deriving DecidableEq

/-- WhiteSpace and LineTerminator. -/
def isStrWhiteSpace (c : Char) : Bool :=
  isBlank Char.toNat c || (0x2000 ≤ c.toNat && c.toNat ≤ 0x200a) ||
    [0xa0, 0x1680, 0x2028, 0x2029, 0x202f, 0x205f, 0x3000, 0xfeff].contains c.toNat

/-- The string without the white space at both ends. -/
def trimString (s : List Char) : List Char :=
  (s.dropWhile isStrWhiteSpace).rdropWhile isStrWhiteSpace

/-- The value of a digit in a radix up to 16. -/
def radixDigit (radix : Nat) (c : Char) : Option Nat :=
  let n :=
    if isDigit Char.toNat c then c.toNat - 48
    else if 97 ≤ c.toNat ∧ c.toNat ≤ 102 then c.toNat - 87
    else if 65 ≤ c.toNat ∧ c.toNat ≤ 70 then c.toNat - 55
    else radix
  if n < radix then some n else none

/-- The radix that a letter behind a zero stands for. -/
def radixOf (c : Char) : Option Nat :=
  if c = 'x' ∨ c = 'X' then some 16
  else if c = 'o' ∨ c = 'O' then some 8
  else if c = 'b' ∨ c = 'B' then some 2
  else none

/-- NonDecimalIntegerLiteral -/
def nonDecimal : List Char → Option JsNumber
  | '0' :: x :: ds =>
      (radixOf x).bind fun radix =>
        if ds ≠ [] ∧ ds.all (fun c => (radixDigit radix c).isSome) = true then
          some (.finite (ds.foldl (fun n c => radix * n + (radixDigit radix c).getD 0) 0 : Nat))
        else none
  | _ => none

/-- ExponentPart, which may be absent. -/
def exponentPart : List Char → Option Int
  | [] => some 0
  | c :: s =>
      if c = 'e' ∨ c = 'E' then
        let (sign, ds) := splitSign Char.toNat s
        if ds ≠ [] ∧ ds.all (isDigit Char.toNat) = true then
          some (sign.apply (digitsValue Char.toNat ds))
        else none
      else none

/-- The digits behind a decimal point, which may be absent, and what is left. -/
def fractionPart : List Char → List Char × List Char
  | '.' :: s => (s.takeWhile (isDigit Char.toNat), s.dropWhile (isDigit Char.toNat))
  | s => ([], s)

/-- StrUnsignedDecimalLiteral other than `Infinity`. -/
def unsignedDecimal (s : List Char) : Option ℚ :=
  let int := s.takeWhile (isDigit Char.toNat)
  let (frac, rest) := fractionPart (s.dropWhile (isDigit Char.toNat))
  if int = [] ∧ frac = [] then none
  else (exponentPart rest).map fun (e : Int) =>
    (digitsValue Char.toNat (int ++ frac) : ℚ) * (10 : ℚ) ^ (e - frac.length)

/-- StrDecimalLiteral -/
def strDecimal (s : List Char) : Option JsNumber :=
  let (sign, u) := splitSign Char.toNat s
  if u = "Infinity".toList then some (.infinite (sign = .minus))
  else (unsignedDecimal u).map fun q => .finite (if sign = .minus then -q else q)

/-- The number that a string stands for; `none` is NaN. -/
def stringToNumber (s : List Char) : Option JsNumber :=
  if trimString s = [] then some (.finite 0)
  else (nonDecimal (trimString s)).or (strDecimal (trimString s))

/-- A string in UTF-8. -/
def utf8 (s : List Char) : Bytes :=
  s.flatMap String.utf8EncodeChar

variable {s t : List Char} {v : Int} {c : Char} {x : JsNumber}

/-! ## Signs in numbers -/

/-- White space is neither a digit nor a sign. -/
theorem white_space_not_number (h : isStrWhiteSpace c = true) :
    isDigit Char.toNat c = false ∧ isSign Char.toNat c = false := by
  simp only [isStrWhiteSpace, isBlank, List.contains_cons, List.contains_nil, Bool.or_eq_true,
    Bool.and_eq_true, decide_eq_true_eq, beq_iff_eq, Bool.or_false] at h
  simp only [isDigit, isSign, Bool.and_eq_false_iff, Bool.or_eq_false_iff, decide_eq_false_iff_not]
  omega

/-- A sign, or none, has no sign behind a digit, and does not end in a digit. -/
theorem Sign.Spelled.no_sign {sign : Sign} {sg : List Char}
    (h : sign.Spelled Char.toNat sg) :
    NoSignAfterDigit Char.toNat sg ∧ ∀ a ∈ sg.getLast?, isDigit Char.toNat a = false := by
  have hone : ∀ {n : Nat}, n < 48 → (∃ a : Char, sg = [a] ∧ a.toNat = n) →
      NoSignAfterDigit Char.toNat sg ∧ ∀ a ∈ sg.getLast?, isDigit Char.toNat a = false := by
    rintro n hn ⟨a, rfl, ha⟩
    refine ⟨.singleton a, fun b hb => ?_⟩
    obtain rfl : a = b := Option.some.inj hb
    simp only [isDigit, ha, Bool.and_eq_false_iff, decide_eq_false_iff_not]
    omega
  cases sign with
  | absent =>
      obtain rfl : sg = [] := h
      exact ⟨.nil, fun a ha => by cases ha⟩
  | plus => exact hone (by decide) h
  | minus => exact hone (by decide) h

/-- Digits are no signs. -/
theorem digits_signless (h : ∀ a ∈ s, isDigit Char.toNat a = true) :
    ∀ a ∈ s, isSign Char.toNat a = false :=
  fun a ha => (not_sign_of_digit (h a ha)).1

/-- There is no sign in a hexadecimal, octal or binary literal. -/
theorem non_decimal_signless (h : nonDecimal s = some x) :
    ∀ a ∈ s, isSign Char.toNat a = false := by
  unfold nonDecimal at h
  split at h
  · next letter ds =>
      obtain ⟨radix, hradix, h⟩ := Option.bind_eq_some_iff.mp h
      obtain ⟨⟨-, hds⟩, -⟩ := Option.ite_none_right_eq_some.mp h
      have hletter : isSign Char.toNat letter = false := by
        unfold radixOf at hradix
        split at hradix
        · next hx => rcases hx with rfl | rfl <;> rfl
        · split at hradix
          · next hx => rcases hx with rfl | rfl <;> rfl
          · split at hradix
            · next hx => rcases hx with rfl | rfl <;> rfl
            · cases hradix
      have hdigits : ∀ a ∈ ds, isSign Char.toNat a = false := by
        intro a ha
        have hsome := List.all_eq_true.mp hds a ha
        by_contra hsign
        simp only [isSign, Bool.not_eq_false, Bool.or_eq_true, decide_eq_true_eq] at hsign
        have hnot : isDigit Char.toNat a = false := by
          simp only [isDigit, Bool.and_eq_false_iff, decide_eq_false_iff_not]
          omega
        have hlower : ¬ (97 ≤ a.toNat ∧ a.toNat ≤ 102) := by omega
        have hupper : ¬ (65 ≤ a.toNat ∧ a.toNat ≤ 70) := by omega
        simp [radixDigit, hnot, hlower, hupper] at hsome
      exact List.forall_mem_cons.mpr ⟨rfl, List.forall_mem_cons.mpr ⟨hletter, hdigits⟩⟩
  · cases h

/-- An exponent part does not begin with a sign, and the sign in it is behind the letter. -/
theorem exponent_no_sign {e : Int} (h : exponentPart s = some e) :
    NoSignAfterDigit Char.toNat s ∧ ∀ a ∈ s.head?, isSign Char.toNat a = false := by
  cases s with
  | nil => exact ⟨.nil, fun a ha => by cases ha⟩
  | cons c s =>
      simp only [exponentPart] at h
      obtain ⟨hc, h⟩ := Option.ite_none_right_eq_some.mp h
      obtain ⟨⟨-, hds⟩, -⟩ := Option.ite_none_right_eq_some.mp h
      have hletter : isDigit Char.toNat c = false ∧ isSign Char.toNat c = false := by
        rcases hc with rfl | rfl <;> exact ⟨rfl, rfl⟩
      obtain ⟨sg, hsign, hs⟩ := split_sign_spelled Char.toNat s
      have hdigits := digits_signless fun a ha => List.all_eq_true.mp hds a ha
      have htail : NoSignAfterDigit Char.toNat s := by
        rw [hs]
        exact hsign.no_sign.1.append (.of_signless hdigits) (.inl hsign.no_sign.2)
      refine ⟨?_, fun a ha => ?_⟩
      · refine NoSignAfterDigit.append (s := [c]) (.singleton c) htail (.inl fun a ha => ?_)
        obtain rfl : c = a := Option.some.inj ha
        exact hletter.1
      · obtain rfl : c = a := Option.some.inj ha
        exact hletter.2

/-- What a fraction part is made of. -/
theorem fraction_signless (s : List Char) :
    ∃ front, s = front ++ (fractionPart s).2 ∧ ∀ a ∈ front, isSign Char.toNat a = false := by
  unfold fractionPart
  split
  · next s =>
      refine ⟨'.' :: s.takeWhile (isDigit Char.toNat), ?_, ?_⟩
      · rw [List.cons_append, List.takeWhile_append_dropWhile]
      · refine List.forall_mem_cons.mpr ⟨rfl, digits_signless fun a ha => ?_⟩
        exact List.mem_takeWhile_imp ha
  · exact ⟨[], rfl, fun a ha => absurd ha List.not_mem_nil⟩

/-- In a decimal literal a sign is the first character or behind the letter of the exponent. -/
theorem unsigned_no_sign {q : ℚ} (h : unsignedDecimal s = some q) :
    NoSignAfterDigit Char.toNat s := by
  obtain ⟨front, hfront, hsignless⟩ := fraction_signless (s.dropWhile (isDigit Char.toNat))
  have hs := List.takeWhile_append_dropWhile (p := isDigit Char.toNat) (l := s)
  unfold unsignedDecimal at h
  simp only at h
  split at h
  · cases h
  · obtain ⟨e, he, -⟩ := Option.map_eq_some_iff.mp h
    obtain ⟨hrest, hhead⟩ := exponent_no_sign he
    rw [← hs, hfront]
    have hint : ∀ a ∈ s.takeWhile (isDigit Char.toNat), isSign Char.toNat a = false :=
      digits_signless fun a ha => List.mem_takeWhile_imp ha
    rw [← List.append_assoc]
    refine NoSignAfterDigit.append (.of_signless ?_) hrest (.inr hhead)
    exact List.forall_mem_append.mpr ⟨hint, hsignless⟩

/-- In a string that stands for a number no sign follows a digit. -/
theorem no_sign_of_number (h : stringToNumber s = some x) : NoSignAfterDigit Char.toNat s := by
  have hlead := List.takeWhile_append_dropWhile (p := isStrWhiteSpace) (l := s)
  have htrail : trimString s ++ (s.dropWhile isStrWhiteSpace).rtakeWhile isStrWhiteSpace =
      s.dropWhile isStrWhiteSpace := List.rdropWhile_append_rtakeWhile
  have hblank : ∀ {l : List Char}, (∀ a ∈ l, isStrWhiteSpace a = true) →
      ∀ a ∈ l, isSign Char.toNat a = false :=
    fun hl a ha => (white_space_not_number (hl a ha)).2
  have htrim : NoSignAfterDigit Char.toNat (trimString s) := by
    unfold stringToNumber at h
    split at h
    · next hempty =>
        rw [hempty]
        exact .nil
    · rcases Option.or_eq_some_iff.mp h with hnon | ⟨-, hdecimal⟩
      · exact .of_signless (non_decimal_signless hnon)
      · obtain ⟨sg, hsign, hsplit⟩ := split_sign_spelled Char.toNat (trimString s)
        unfold strDecimal at hdecimal
        simp only at hdecimal
        rw [hsplit]
        refine hsign.no_sign.1.append ?_ (.inl hsign.no_sign.2)
        split at hdecimal
        · next hinf =>
            have hletters : "Infinity".toList.all (fun a => !isSign Char.toNat a) = true := by
              decide
            rw [hinf]
            refine .of_signless fun a ha => ?_
            simpa using List.all_eq_true.mp hletters a ha
        · obtain ⟨q, hq, -⟩ := Option.map_eq_some_iff.mp hdecimal
          exact unsigned_no_sign hq
  rw [← hlead, ← htrail]
  refine NoSignAfterDigit.append (.of_signless (hblank fun a ha => List.mem_takeWhile_imp ha))
    (NoSignAfterDigit.append htrim (.of_signless (hblank fun a ha => List.mem_rtakeWhile_imp ha))
      (.inr fun a ha => ?_)) (.inl fun a ha => ?_)
  · exact hblank (fun b hb => List.mem_rtakeWhile_imp hb) a (List.mem_of_mem_head? ha)
  · exact (white_space_not_number (List.mem_takeWhile_imp (List.mem_of_mem_getLast? ha))).1

/-! ## Integers -/

/-- No digit announces a radix. -/
theorem radix_of_digit (h : isDigit Char.toNat c = true) : radixOf c = none := by
  have hne : ∀ d : Char, isDigit Char.toNat d = false → c ≠ d := by
    rintro d hd rfl
    rw [h] at hd
    cases hd
  have hnot : ∀ d e : Char, isDigit Char.toNat d = false → isDigit Char.toNat e = false →
      ¬ (c = d ∨ c = e) := fun d e hd he => not_or.mpr ⟨hne d hd, hne e he⟩
  rw [radixOf, if_neg (hnot 'x' 'X' rfl rfl), if_neg (hnot 'o' 'O' rfl rfl),
    if_neg (hnot 'b' 'B' rfl rfl)]

/-- A signed decimal integer is no literal in another radix. -/
theorem non_decimal_int {sign : Sign} {sg ds : List Char} (hsign : sign.Spelled Char.toNat sg)
    (hdigits : ∀ a ∈ ds, isDigit Char.toNat a = true) : nonDecimal (sg ++ ds) = none := by
  unfold nonDecimal
  split
  · next letter rest heq =>
      have hsg : sg = [] := by
        cases sign with
        | absent => exact hsign
        | plus | minus =>
            obtain ⟨a, rfl, ha⟩ := hsign
            obtain rfl : a = '0' := (List.cons.inj heq).1
            cases ha
      rw [hsg, List.nil_append] at heq
      have hletter := hdigits letter (by rw [heq]; simp)
      rw [radix_of_digit hletter, Option.bind_none]
  · rfl

/-- Digits without a fraction and an exponent. -/
theorem unsigned_int {ds : List Char} (hne : ds ≠ [])
    (hdigits : ∀ a ∈ ds, isDigit Char.toNat a = true) :
    unsignedDecimal ds = some (digitsValue Char.toNat ds : ℚ) := by
  have hspan : (ds ++ []).takeWhile (isDigit Char.toNat) = ds ∧
      (ds ++ []).dropWhile (isDigit Char.toNat) = [] :=
    span_digits hdigits fun a ha => by cases ha
  rw [List.append_nil] at hspan
  unfold unsignedDecimal
  rw [hspan.1, hspan.2]
  simp [fractionPart, exponentPart, hne]

/-- White space does not belong to a signed integer. -/
theorem trim_int {ws sg ds : List Char} {sign : Sign}
    (hblank : ∀ a ∈ ws, isBlank Char.toNat a = true) (hsign : sign.Spelled Char.toNat sg)
    (hne : ds ≠ []) (hdigits : ∀ a ∈ ds, isDigit Char.toNat a = true) :
    trimString (ws ++ (sg ++ ds)) = sg ++ ds := by
  have hnot : ∀ a, isDigit Char.toNat a = true ∨ isSign Char.toNat a = true →
      ¬ isStrWhiteSpace a = true := by
    intro a ha hspace
    obtain ⟨hdigit, hsig⟩ := white_space_not_number hspace
    rw [hdigit, hsig] at ha
    simp at ha
  have hws : ∀ a ∈ ws, isStrWhiteSpace a = true := by
    intro a ha
    rw [isStrWhiteSpace, hblank a ha]
    rfl
  -- a numeral begins and ends with a symbol that is no white space
  have hhead : ∀ a ∈ (sg ++ ds).head?, ¬ isStrWhiteSpace a = true := by
    intro a ha
    refine hnot a ?_
    cases sign with
    | absent =>
        obtain rfl : sg = [] := hsign
        exact .inl (hdigits a (List.mem_of_mem_head? ha))
    | plus | minus =>
        obtain ⟨b, rfl, hb⟩ := hsign
        obtain rfl : b = a := Option.some.inj ha
        exact .inr (by simp [isSign, hb])
  have hdrop : (ws ++ (sg ++ ds)).dropWhile isStrWhiteSpace = sg ++ ds := by
    rw [List.dropWhile_append_of_pos hws]
    cases htext : sg ++ ds with
    | nil => rfl
    | cons a text =>
        rw [htext] at hhead
        exact List.dropWhile_cons_of_neg (hhead a rfl)
  obtain ⟨front, x, rfl⟩ := (List.eq_nil_or_concat ds).resolve_left hne
  have hx := hdigits x (by simp)
  rw [trimString, hdrop, List.concat_eq_append, ← List.append_assoc]
  exact List.rdropWhile_concat_neg _ _ _ (hnot x (.inl hx))

/-- A signed decimal integer stands for itself. -/
theorem string_to_number_int (h : IntText Char.toNat s v) :
    stringToNumber s = some (.finite v) := by
  obtain ⟨ws, sg, ds, sign, hblank, hsign, hne, hdigits⟩ := h
  have hnonempty : sg ++ ds ≠ [] := by simp [hne]
  have hhead : ∀ a ∈ ds.head?, isSign Char.toNat a = false :=
    fun a ha => (not_sign_of_digit (hdigits a (List.mem_of_mem_head? ha))).1
  have hinf : ds ≠ "Infinity".toList := by
    rintro rfl
    exact absurd (hdigits 'I' (by decide)) (by decide)
  rw [stringToNumber, trim_int hblank hsign hne hdigits, if_neg hnonempty,
    non_decimal_int hsign hdigits, Option.none_or, strDecimal, split_sign_append hsign hhead]
  simp only [if_neg hinf, unsigned_int hne hdigits, Option.map_some]
  cases sign <;> simp [Sign.apply]

/-! ## UTF-8 -/

/-- A character is one byte with its code, or several, and none of them is ASCII. -/
theorem utf8_char (c : Char) :
    (∃ b : UInt8, String.utf8EncodeChar c = [b] ∧ b.toNat = c.toNat) ∨
      128 ≤ c.toNat ∧ ∀ b ∈ String.utf8EncodeChar c, 128 ≤ b.toNat := by
  have hval : c.val.toNat = c.toNat := rfl
  unfold String.utf8EncodeChar
  simp only [hval]
  split
  · next hascii =>
      refine .inl ⟨_, rfl, ?_⟩
      rw [UInt8.toNat_ofNat']
      exact Nat.mod_eq_of_lt (by omega)
  · refine .inr ⟨by omega, fun b hb => ?_⟩
    split at hb
    · simp only [List.mem_cons, List.not_mem_nil, or_false] at hb
      rcases hb with rfl | rfl <;> (rw [UInt8.toNat_ofNat']; omega)
    · split at hb
      · simp only [List.mem_cons, List.not_mem_nil, or_false] at hb
        rcases hb with rfl | rfl | rfl <;> (rw [UInt8.toNat_ofNat']; omega)
      · simp only [List.mem_cons, List.not_mem_nil, or_false] at hb
        rcases hb with rfl | rfl | rfl | rfl <;> (rw [UInt8.toNat_ofNat']; omega)

/-- The bytes of an ASCII string are its codes. -/
theorem utf8_codes (h : ∀ c ∈ s, c.toNat < 128) :
    (utf8 s).map UInt8.toNat = s.map Char.toNat := by
  induction s with
  | nil => rfl
  | cons c s ih =>
      obtain ⟨hc, hs⟩ := List.forall_mem_cons.mp h
      show (String.utf8EncodeChar c ++ utf8 s).map UInt8.toNat = c.toNat :: s.map Char.toNat
      rw [List.map_append, ih hs]
      rcases utf8_char c with ⟨b, hb, hcode⟩ | ⟨hhigh, -⟩
      · rw [hb, List.map_singleton, hcode, List.singleton_append]
      · omega

/-- A string whose bytes are ASCII is ASCII. -/
theorem ascii_of_utf8 (h : ∀ b ∈ utf8 s, b.toNat < 128) : ∀ c ∈ s, c.toNat < 128 := by
  intro c hc
  have hbytes : ∀ b ∈ String.utf8EncodeChar c, b.toNat < 128 :=
    fun b hb => h b (List.mem_flatMap.mpr ⟨c, hc, hb⟩)
  rcases utf8_char c with ⟨b, hb, hcode⟩ | ⟨-, hhigh⟩
  · rw [← hcode]
    exact hbytes b (by rw [hb]; exact List.mem_cons_self)
  · obtain ⟨b, hb⟩ := List.exists_mem_of_ne_nil _ (String.utf8EncodeChar_ne_nil (c := c))
    exact absurd (hbytes b hb) (by have := hhigh b hb; omega)

/-- The bytes of a string are a numeral if its characters are. -/
theorem int_text_utf8 : IntText UInt8.toNat (utf8 s) v ↔ IntText Char.toNat s v := by
  constructor
  · intro h
    have hascii := ascii_of_utf8 fun b hb => (h.range b hb).2
    exact h.of_codes (utf8_codes hascii).symm
  · intro h
    exact h.of_codes (utf8_codes fun c hc => (h.range c hc).2)

/-- A byte is a digit or a sign if it is the code of one. -/
theorem marks_of_code {c : Char} {b : UInt8} (h : b.toNat = c.toNat) :
    isDigit UInt8.toNat b = isDigit Char.toNat c ∧ isSign UInt8.toNat b = isSign Char.toNat c := by
  simp only [isDigit, isSign, h, and_self]

/-- The bytes of other characters are neither. -/
theorem no_marks_of_high {b : UInt8} (h : 128 ≤ b.toNat) :
    isDigit UInt8.toNat b = false ∧ isSign UInt8.toNat b = false := by
  simp only [isDigit, isSign, Bool.and_eq_false_iff, Bool.or_eq_false_iff,
    decide_eq_false_iff_not]
  omega

/-- A string without a sign behind a digit has no such bytes. -/
theorem no_sign_utf8 (h : NoSignAfterDigit Char.toNat s) :
    NoSignAfterDigit UInt8.toNat (utf8 s) := by
  induction s with
  | nil => exact .nil
  | cons c s ih =>
      have htail := ih h.tail
      show NoSignAfterDigit UInt8.toNat (String.utf8EncodeChar c ++ utf8 s)
      rcases utf8_char c with ⟨b, hb, hcode⟩ | ⟨-, hhigh⟩
      · rw [hb]
        refine NoSignAfterDigit.append (.singleton b) htail ?_
        by_cases hdigit : isDigit Char.toNat c = true
        · -- the next character is no sign, and so is its first byte
          refine .inr fun d hd => ?_
          cases s with
          | nil => cases hd
          | cons next s =>
              have hsign := h.rel hdigit
              have hd : d ∈ (String.utf8EncodeChar next ++ utf8 s).head? := hd
              rcases utf8_char next with ⟨b', hb', hcode'⟩ | ⟨-, hhigh⟩
              · rw [hb'] at hd
                obtain rfl : b' = d := Option.some.inj hd
                rw [(marks_of_code hcode').2, hsign]
              · rw [List.head?_append_of_ne_nil _ String.utf8EncodeChar_ne_nil] at hd
                exact (no_marks_of_high (hhigh d (List.mem_of_mem_head? hd))).2
        · refine .inl fun d hd => ?_
          obtain rfl : b = d := Option.some.inj hd
          rw [(marks_of_code hcode).1]
          exact Bool.eq_false_iff.mpr hdigit
      · have hsignless : ∀ b ∈ String.utf8EncodeChar c, isSign UInt8.toNat b = false :=
          fun b hb => (no_marks_of_high (hhigh b hb)).2
        refine NoSignAfterDigit.append (.of_signless hsignless) htail (.inl fun b hb => ?_)
        exact (no_marks_of_high (hhigh b (List.mem_of_mem_getLast? hb))).1

end NetLib
