import UnixNet.Lib.JsNumber

/-!
# The CGI calculators

`compute` of `ajax-asyn.js` joins two strings by an operator and sends them off unless one of them
is not a number; `test_cgi.c` and `post-cgi.c` scan what arrives with `sscanf(text, "%d%c%d")`. What
the page takes for a number need not be one to `%d`: a blank field, a fraction, an exponent, white
space behind the digits, a number that is no `int`. Read `calculator_agrees_iff` first. Behind it is
`scan_int_joined`: in a number no sign follows a digit, so the scan comes to the operator only
behind a first field that it has read as a whole.

What C leaves undefined has no result (`none`): converting or computing a number that is no `int`,
and storing behind the end of an array.
-/

namespace UnixNet.Cgi

open NetLib

/-- The two buttons. -/
inductive Operator where
  | add
  | sub
  deriving DecidableEq

/-- The character that `compute` puts between the strings. -/
def Operator.symbol : Operator → Char
  | .add => '+'
  | .sub => '-'

/-- Its byte. -/
def Operator.byte : Operator → UInt8
  | .add => 43
  | .sub => 45

/-- What it means. -/
def Operator.eval {R : Type*} [Add R] [Sub R] : Operator → R → R → R
  | .add, x, y => x + y
  | .sub, x, y => x - y

/-! ## The page -/

/-- `isNaN(data)` -/
def isNaN (data : List Char) : Bool :=
  (stringToNumber data).isNone

/-- `compute(arg)`: what is sent, behind the `?` of the URL or as the body; `none` is the alert. -/
def compute (op : Operator) (data1 data2 : List Char) : Option (List Char) :=
  if isNaN data1 || isNaN data2 then none else some (data1 ++ op.symbol :: data2)

/-! ## The programs -/

/-- A number that an `int` can hold. -/
abbrev IsInt (z : Int) : Prop :=
  -2 ^ 31 ≤ z ∧ z < 2 ^ 31

/-- The variables that `sscanf` stores to. -/
structure Scanned where
  data1 : Int
  ch : UInt8
  data2 : Int

/-- `sscanf(text, "%d%c%d", &data1, &ch, &data2)`, where the variables are 0 before. -/
def sscanf (text : Bytes) : Option Scanned :=
  match scanInt UInt8.toNat text with
  | none => some ⟨0, 0, 0⟩
  | some (data1, rest) =>
      if ¬ IsInt data1 then none
      else
        match rest with
        | [] => some ⟨data1, 0, 0⟩
        | ch :: rest =>
            match scanInt UInt8.toNat rest with
            | none => some ⟨data1, ch, 0⟩
            | some (data2, _) => if IsInt data2 then some ⟨data1, ch, data2⟩ else none

/-- `printf("%d\n", ...)` of the result of an operation on `int`. -/
def printInt (z : Int) : Option Bytes :=
  if IsInt z then some (decimalInt z ++ [10]) else none

/-- The branches on the operator. -/
def Scanned.calculate (x : Scanned) : Option Bytes :=
  if x.ch = 43 then printInt (x.data1 + x.data2)
  else if x.ch = 45 then printInt (x.data1 - x.data2)
  else some []

/-- The first line of the answer and the empty line behind it. -/
def header : Bytes :=
  ascii "Content-Type:text/html\n\n"

/-- Both programs from `sscanf` on: all that is printed. -/
def answer (text : Bytes) : Option Bytes :=
  (sscanf text).bind fun x => x.calculate.map (header ++ ·)

/-- `test_cgi.c`: the text is in the environment. -/
def testCgi (queryString : Bytes) : Option Bytes :=
  answer queryString

/-- `atoi` -/
def atoi (s : Bytes) : Option Int :=
  match scanInt UInt8.toNat s with
  | none => some 0
  | some (n, _) => if IsInt n then some n else none

/-- Everything up to the first newline, which is included. -/
def throughNewline (s : Bytes) : Bytes :=
  s.takeWhile (· ≠ 10) ++ (s.dropWhile (· ≠ 10)).take 1

/-- The bytes that `fgets(data, n, stdin)` stores in front of the NUL. -/
def fgets (n : Int) (stdin : Bytes) : Bytes :=
  throughNewline (stdin.take (n - 1).toNat)

/-- `post-cgi.c`: the text is on the standard input, and is read into `char data[512]`. -/
def postCgi (contentLength stdin : Bytes) : Option Bytes :=
  (atoi contentLength).bind fun len =>
    if IsInt (len + 1) ∧ (fgets (len + 1) stdin).length + 1 ≤ 512 then
      answer (cstr (fgets (len + 1) stdin))
    else none

/-! ## What is asked of them -/

/-- The output is the sum or difference of the numbers that two strings stand for. -/
def Agrees (op : Operator) (data1 data2 : List Char) (output : Option Bytes) : Prop :=
  ∃ (q1 q2 : ℚ) (z : Int), stringToNumber data1 = some (.finite q1) ∧
    stringToNumber data2 = some (.finite q2) ∧ (z : ℚ) = op.eval q1 q2 ∧
    output = some (header ++ (decimalInt z ++ [10]))

/-- What `%d` makes of a text: the number at its front, or the 0 that was in the variable. -/
def leadingInt (text : Bytes) : Int :=
  (scanInt UInt8.toNat text).elim 0 Prod.fst

/-- The first string is white space, a sign and digits, and nothing else; what `%d` makes of the
text of the second is the number it stands for; and these numbers and the result are `int`s. -/
def Readable (op : Operator) (data1 data2 : List Char) (text2 : Bytes) : Prop :=
  ∃ v : Int, IntText Char.toNat data1 v ∧
    stringToNumber data2 = some (.finite (leadingInt text2)) ∧
    IsInt v ∧ IsInt (leadingInt text2) ∧ IsInt (op.eval v (leadingInt text2))

/-- What is left of a text after `fgets`, as a C string. -/
def lineText (text : Bytes) : Bytes :=
  cstr (throughNewline text)

variable {op : Operator} {s t rest text : Bytes} {v : Int} {data1 data2 : List Char}

/-! ## The scan -/

/-- The operator is a sign. -/
theorem Operator.byte_sign (op : Operator) :
    isSign UInt8.toNat op.byte = true ∧ isDigit UInt8.toNat op.byte = false := by
  cases op <;> exact ⟨rfl, rfl⟩

/-- The text that is sent, in bytes. -/
theorem utf8_joined (op : Operator) (data1 data2 : List Char) :
    utf8 (data1 ++ op.symbol :: data2) = utf8 data1 ++ op.byte :: utf8 data2 := by
  rw [utf8, List.flatMap_append, List.flatMap_cons]
  cases op <;> rfl

/-- The scan of a numeral, the operator and some text. -/
theorem sscanf_joined (h : IntText UInt8.toNat s v) (op : Operator) (t : Bytes) :
    sscanf (s ++ op.byte :: t) =
      if IsInt v ∧ IsInt (leadingInt t) then some ⟨v, op.byte, leadingInt t⟩ else none := by
  have hscan := scan_int_append h op.byte_sign.2 t
  unfold sscanf leadingInt
  simp only [hscan]
  by_cases hv : IsInt v
  · rw [if_neg (not_not.mpr hv)]
    cases hrest : scanInt UInt8.toNat t with
    | none => exact (if_pos ⟨hv, by decide⟩).symm
    | some p => exact if_congr (and_iff_right hv).symm rfl rfl
  · rw [if_pos hv, if_neg fun hboth => hv hboth.1]

/-- The branch on the operator. -/
theorem calculate_operator (v w : Int) (op : Operator) :
    (Scanned.mk v op.byte w).calculate = printInt (op.eval v w) := by
  cases op <;> rfl

/-- What comes behind the first number that was scanned, when something is printed. -/
theorem sign_of_answer {line : Bytes} (h : answer text = some (header ++ line))
    (hline : line ≠ []) :
    ∃ v c rest, scanInt UInt8.toNat text = some (v, c :: rest) ∧ isSign UInt8.toNat c = true := by
  obtain ⟨x, hx, hprint⟩ := Option.bind_eq_some_iff.mp h
  obtain ⟨out, hout, heq⟩ := Option.map_eq_some_iff.mp hprint
  obtain rfl : out = line := List.append_cancel_left heq
  have hsign : isSign UInt8.toNat x.ch = true := by
    unfold Scanned.calculate at hout
    split at hout
    · next hch => rw [hch]; rfl
    · split at hout
      · next hch => rw [hch]; rfl
      · exact absurd (Option.some.inj hout).symm hline
  unfold sscanf at hx
  split at hx
  · obtain rfl := Option.some.inj hx
    cases hsign
  · next v rest hscan =>
      split at hx
      · cases hx
      · split at hx
        · obtain rfl := Option.some.inj hx
          cases hsign
        · next ch rest =>
            refine ⟨v, ch, rest, hscan, ?_⟩
            split at hx
            · obtain rfl := Option.some.inj hx
              exact hsign
            · obtain ⟨-, hx⟩ := Option.ite_none_right_eq_some.mp hx
              obtain rfl := Option.some.inj hx
              exact hsign

/-- Of a text in which no sign follows a digit nothing is printed. -/
theorem answer_silent (hs : NoSignAfterDigit UInt8.toNat s) (z : Int) :
    answer s ≠ some (header ++ (decimalInt z ++ [10])) := by
  intro h
  obtain ⟨v, c, rest, hscan, hc⟩ := sign_of_answer h (by simp)
  obtain ⟨read, heq, hread, -⟩ := scan_int_iff.mp hscan
  obtain ⟨front, x, rfl, hx⟩ := hread.last
  exact hs.absurd heq hx hc

/-- When a number is printed of two texts, in which no sign follows a digit, with the operator
between them: the first is a numeral, and all numbers are `int`s. -/
theorem answer_joined (hs : NoSignAfterDigit UInt8.toNat s) (ht : NoSignAfterDigit UInt8.toNat t)
    (z : Int) : answer (s ++ op.byte :: t) = some (header ++ (decimalInt z ++ [10])) ↔
      ∃ v, IntText UInt8.toNat s v ∧ (IsInt v ∧ IsInt (leadingInt t)) ∧
        IsInt (op.eval v (leadingInt t)) ∧ op.eval v (leadingInt t) = z := by
  have hvalue : ∀ v, IntText UInt8.toNat s v →
      (answer (s ++ op.byte :: t) = some (header ++ (decimalInt z ++ [10])) ↔
        (IsInt v ∧ IsInt (leadingInt t)) ∧ IsInt (op.eval v (leadingInt t)) ∧
          op.eval v (leadingInt t) = z) := by
    intro v hv
    rw [answer, sscanf_joined hv]
    by_cases hints : IsInt v ∧ IsInt (leadingInt t)
    · rw [if_pos hints, Option.bind_some, calculate_operator, printInt]
      by_cases hresult : IsInt (op.eval v (leadingInt t))
      · rw [if_pos hresult, Option.map_some, Option.some.injEq, List.append_cancel_left_eq,
          List.append_cancel_right_eq]
        exact ⟨fun heq => ⟨hints, hresult, decimalInt_inj heq⟩, fun heq => by rw [heq.2.2]⟩
      · rw [if_neg hresult]
        exact iff_of_false (by simp) fun heq => hresult heq.2.1
    · rw [if_neg hints]
      exact iff_of_false (by simp) fun heq => hints heq.1
  constructor
  · intro h
    obtain ⟨v, c, rest, hscan, hc⟩ := sign_of_answer h (by simp)
    obtain ⟨hv, -⟩ := scan_int_joined hs ht op.byte_sign.1 hc hscan
    exact ⟨v, hv, (hvalue v hv).mp h⟩
  · rintro ⟨v, hv, hints⟩
    exact (hvalue v hv).mpr hints

/-- When the output is the sum or difference, for any text behind the operator. -/
theorem agrees_joined (h1 : NoSignAfterDigit Char.toNat data1)
    (ht : NoSignAfterDigit UInt8.toNat t) :
    Agrees op data1 data2 (answer (utf8 data1 ++ op.byte :: t)) ↔ Readable op data1 data2 t := by
  have hs := no_sign_utf8 h1
  constructor
  · rintro ⟨q1, q2, z, hq1, hq2, hz, hanswer⟩
    obtain ⟨v, hv, ⟨hint, hint2⟩, hresult, rfl⟩ := (answer_joined hs ht z).mp hanswer
    have hv := int_text_utf8.mp hv
    rw [string_to_number_int hv] at hq1
    obtain rfl := JsNumber.finite.inj (Option.some.inj hq1)
    refine ⟨v, hv, ?_, hint, hint2, hresult⟩
    -- the program computes with the first number, so the second is the one that it has read
    have hq : q2 = (leadingInt t : ℚ) := by
      cases op
      · have hz : ((v + leadingInt t : Int) : ℚ) = v + q2 := hz
        rw [Int.cast_add] at hz
        exact (add_left_cancel hz).symm
      · have hz : ((v - leadingInt t : Int) : ℚ) = v - q2 := hz
        rw [Int.cast_sub] at hz
        exact (sub_right_injective hz).symm
    rw [hq2, hq]
  · rintro ⟨v, hv, hq2, hint, hint2, hresult⟩
    refine ⟨v, leadingInt t, op.eval v (leadingInt t), string_to_number_int hv, hq2, ?_, ?_⟩
    · cases op <;> simp [Operator.eval]
    · exact (answer_joined hs ht _).mpr
        ⟨v, int_text_utf8.mpr hv, ⟨hint, hint2⟩, hresult, rfl⟩

/-! ## What the second program gets -/

/-- `fgets` and the C string leave the beginning of a text. -/
theorem line_text_front (s : Bytes) : lineText s <+: s := by
  have hline : throughNewline s <+: s := by
    conv_rhs => rw [← List.takeWhile_append_dropWhile (p := (· ≠ 10)) (l := s)]
    exact (List.prefix_append_right_inj _).mpr (List.take_prefix 1 _)
  exact (List.takeWhile_prefix _).trans hline

/-- A text without newline and NUL is left as it is. -/
theorem line_text_append (hnewline : (10 : UInt8) ∉ s) (hnul : (0 : UInt8) ∉ s) (t : Bytes) :
    lineText (s ++ t) = s ++ lineText t := by
  have hkeep : ∀ a ∈ s, decide (a ≠ 10) = true := decide_ne_of_not_mem hnewline
  have hstring : ∀ a ∈ s, decide (a ≠ 0) = true := decide_ne_of_not_mem hnul
  rw [lineText, throughNewline, List.takeWhile_append_of_pos hkeep,
    List.dropWhile_append_of_pos hkeep, List.append_assoc, cstr,
    List.takeWhile_append_of_pos hstring]
  rfl

/-- Behind a newline or a NUL nothing is left. -/
theorem line_text_cut (h : (10 : UInt8) ∈ s ∨ (0 : UInt8) ∈ s) (t : Bytes) :
    lineText (s ++ t) <+: s := by
  by_cases hnewline : (10 : UInt8) ∈ s
  · have hdrop : s.dropWhile (· ≠ 10) ≠ [] := by
      intro hnil
      have := List.dropWhile_eq_nil_iff.mp hnil 10 hnewline
      simp at this
    have htake : (s.takeWhile (· ≠ 10)).length ≠ s.length := by
      intro hlength
      have hsum := congrArg List.length (List.takeWhile_append_dropWhile (p := (· ≠ 10)) (l := s))
      rw [List.length_append, hlength] at hsum
      exact hdrop (List.length_eq_zero_iff.mp (by omega))
    have hempty : (s.dropWhile (· ≠ 10)).isEmpty = false := by simpa using hdrop
    have hline : lineText (s ++ t) = lineText s := by
      obtain ⟨c, rest, hc⟩ := List.exists_cons_of_ne_nil hdrop
      rw [lineText, throughNewline, List.takeWhile_append, if_neg htake, List.dropWhile_append,
        hempty, if_neg (by simp), hc, lineText, throughNewline, hc]
      rfl
    rw [hline]
    exact line_text_front s
  · -- without a newline in it, the text is cut at the NUL
    have hnul := h.resolve_left hnewline
    have hkeep : ∀ a ∈ s, decide (a ≠ 10) = true := decide_ne_of_not_mem hnewline
    have htake : (s.takeWhile (· ≠ 0)).length ≠ s.length := by
      intro hlength
      have hall := List.takeWhile_eq_self_iff.mp ((List.takeWhile_prefix _).eq_of_length hlength)
      have := hall 0 hnul
      simp at this
    rw [lineText, throughNewline, List.takeWhile_append_of_pos hkeep, List.append_assoc, cstr,
      List.takeWhile_append, if_neg htake]
    exact List.takeWhile_prefix _

/-- In the beginning of a text no sign follows a digit if in the text none does. -/
theorem no_sign_front (hs : NoSignAfterDigit UInt8.toNat s) (h : t <+: s) :
    NoSignAfterDigit UInt8.toNat t := by
  obtain ⟨rest, rfl⟩ := h
  exact hs.left_of_append

/-- `atoi` of the length of a text. -/
theorem atoi_length (text : Bytes) : atoi (decimal text.length) =
    if IsInt text.length then some (text.length : Int) else none := by
  have hscan := scan_int_whole.mpr (int_text_decimalInt text.length)
  rw [decimalInt, if_neg (by omega), Int.natAbs_natCast] at hscan
  rw [atoi, hscan]

/-- With room for the whole text and the NUL, `fgets` reads through the first newline. -/
theorem fgets_length (text : Bytes) : fgets (text.length + 1) text = throughNewline text := by
  rw [fgets, Int.add_sub_cancel, Int.toNat_natCast, List.take_length]

/-- The second program with the length of its text: it reads the text through the first newline, if
the length is an `int` with room for one more and the array is long enough. -/
theorem post_cgi_eq (text : Bytes) : postCgi (decimal text.length) text =
    if text.length + 1 < 2 ^ 31 ∧ (throughNewline text).length ≤ 511 then answer (lineText text)
    else none := by
  rw [postCgi, atoi_length]
  by_cases hint : IsInt text.length
  · rw [if_pos hint, Option.bind_some, fgets_length]
    refine if_congr ?_ rfl rfl
    constructor
    · rintro ⟨⟨-, hlength⟩, hroom⟩
      exact ⟨by omega, by omega⟩
    · rintro ⟨hlength, hroom⟩
      exact ⟨⟨by omega, by omega⟩, by omega⟩
  · rw [if_neg hint, Option.bind_none, if_neg]
    rintro ⟨hlength, -⟩
    exact hint ⟨by omega, by omega⟩

/-- When the output is the sum or difference, for what `fgets` leaves of the text. -/
theorem agrees_line (h1 : NoSignAfterDigit Char.toNat data1)
    (ht : NoSignAfterDigit UInt8.toNat t) :
    Agrees op data1 data2 (answer (lineText (utf8 data1 ++ op.byte :: t))) ↔
      Readable op data1 data2 (lineText t) ∧ (10 : UInt8) ∉ utf8 data1 := by
  have hop : (10 : UInt8) ∉ [op.byte] ∧ (0 : UInt8) ∉ [op.byte] := by
    cases op <;> decide
  have hjoined : (10 : UInt8) ∉ utf8 data1 → (0 : UInt8) ∉ utf8 data1 →
      lineText (utf8 data1 ++ op.byte :: t) = utf8 data1 ++ op.byte :: lineText t := by
    intro hnewline hnul
    rw [line_text_append hnewline hnul, ← List.singleton_append, line_text_append hop.1 hop.2]
    rfl
  have hline := no_sign_front ht (line_text_front t)
  constructor
  · intro h
    by_cases hcut : (10 : UInt8) ∈ utf8 data1 ∨ (0 : UInt8) ∈ utf8 data1
    · obtain ⟨-, -, z, -, -, -, hanswer⟩ := h
      have hsilent := no_sign_front (no_sign_utf8 h1) (line_text_cut hcut (op.byte :: t))
      exact absurd hanswer (answer_silent hsilent z)
    · obtain ⟨hnewline, hnul⟩ := not_or.mp hcut
      rw [hjoined hnewline hnul] at h
      exact ⟨(agrees_joined h1 hline).mp h, hnewline⟩
  · rintro ⟨hreadable, hnewline⟩
    have hnul : (0 : UInt8) ∉ utf8 data1 := by
      obtain ⟨v, hv, -⟩ := hreadable
      intro hmem
      have hcode : 9 ≤ (0 : UInt8).toNat := ((int_text_utf8.mpr hv).range 0 hmem).1
      exact absurd hcode (by decide)
    rw [hjoined hnewline hnul]
    exact (agrees_joined h1 hline).mpr hreadable

/-- When the two programs agree with the page. For all strings that `compute` lets through and both
operators, `test_cgi` prints the sum or difference of the numbers if and only if the first string is
white space, a sign and digits, what `%d` reads of the second is the number it stands for (or 0, if
it reads nothing), and these numbers and the result are `int`s. The same holds of `post_cgi` for
what is left of the second string by `fgets`, if there is no newline in the first string, the array
is long enough and the length is below the largest `int`; otherwise it does not print it. -/
theorem calculator_agrees_iff {op : Operator} {data1 data2 text : List Char}
    (h : compute op data1 data2 = some text) :
    (Agrees op data1 data2 (testCgi (utf8 text)) ↔ Readable op data1 data2 (utf8 data2)) ∧
    (Agrees op data1 data2 (postCgi (decimal (utf8 text).length) (utf8 text)) ↔
      Readable op data1 data2 (lineText (utf8 data2)) ∧ (10 : UInt8) ∉ utf8 data1 ∧
        (utf8 text).length + 1 < 2 ^ 31 ∧ (throughNewline (utf8 text)).length ≤ 511) := by
  obtain ⟨hnumbers, rfl⟩ := Option.ite_none_left_eq_some.mp h |>.imp_right Option.some.inj
  rw [Bool.or_eq_true, not_or, isNaN, isNaN, Option.isNone_iff_eq_none,
    Option.isNone_iff_eq_none] at hnumbers
  obtain ⟨n1, hn1⟩ := Option.ne_none_iff_exists'.mp hnumbers.1
  obtain ⟨n2, hn2⟩ := Option.ne_none_iff_exists'.mp hnumbers.2
  have h1 := no_sign_of_number hn1
  have h2 := no_sign_utf8 (no_sign_of_number hn2)
  rw [utf8_joined]
  refine ⟨agrees_joined h1 h2, ?_⟩
  rw [post_cgi_eq]
  split
  · next hfits =>
      rw [agrees_line h1 h2, ← and_assoc, and_iff_left hfits]
  · next hfits =>
      refine iff_of_false ?_ fun hall => hfits hall.2.2
      rintro ⟨q1, q2, z, -, -, -, hnone⟩
      cases hnone

/-- With white space in front of the first number, a sign and a fraction in the second, both
programs print 42 for `12 - -30.0`. -/
theorem calculator_agrees_fraction :
    Agrees .sub " 12".toList "-30.0".toList (testCgi (utf8 " 12--30.0".toList)) ∧
      Agrees .sub " 12".toList "-30.0".toList
        (postCgi (decimal (utf8 " 12--30.0".toList).length) (utf8 " 12--30.0".toList)) := by
  have hcompute : compute .sub " 12".toList "-30.0".toList = some " 12--30.0".toList := by
    decide +kernel
  have hnumeral : IntText Char.toNat " 12".toList 12 := scan_int_whole.mp (by decide +kernel)
  have hnumber : stringToNumber "-30.0".toList = some (.finite (-30 : Int)) := by decide +kernel
  have hget : leadingInt (utf8 "-30.0".toList) = -30 := by decide +kernel
  have hpost : leadingInt (lineText (utf8 "-30.0".toList)) = -30 := by decide +kernel
  obtain ⟨hagrees, hagreesPost⟩ := calculator_agrees_iff hcompute
  refine ⟨hagrees.mpr ⟨12, hnumeral, ?_⟩, hagreesPost.mpr ⟨⟨12, hnumeral, ?_⟩, by decide +kernel⟩⟩
  · rw [hget]
    exact ⟨hnumber, by decide, by decide, by decide⟩
  · rw [hpost]
    exact ⟨hnumber, by decide, by decide, by decide⟩

/-- The page lets an empty field through, and of `+5` the programs print no number. -/
theorem calculator_empty_field :
    ¬ ∀ (op : Operator) (data1 data2 text : List Char), compute op data1 data2 = some text →
      Agrees op data1 data2 (testCgi (utf8 text)) ∧
      Agrees op data1 data2 (postCgi (decimal (utf8 text).length) (utf8 text)) := by
  intro hall
  have hcompute : compute .add [] "5".toList = some "+5".toList := by decide +kernel
  have houtput : testCgi (utf8 "+5".toList) = some header := by decide +kernel
  obtain ⟨q1, q2, z, -, -, -, hprinted⟩ := (hall .add [] "5".toList "+5".toList hcompute).1
  rw [houtput] at hprinted
  have hlength := congrArg List.length (Option.some.inj hprinted)
  rw [List.length_append, List.length_append, List.length_singleton] at hlength
  omega

end UnixNet.Cgi
