import Mathlib.Data.List.Chain
import Mathlib.Tactic.Common
import UnixNet.Lib.Text

/-!
# Signed decimal numerals

What `%d` of `scanf` and `atoi` read at the beginning of a text: white space, a sign and digits. A
text is a list of symbols of any type with their character codes, so that bytes and characters have
the same numerals (`IntText.of_codes`). `scan_int_iff` says what `scanInt` accepts; the section on
joined texts is about two texts with a sign between them, in which the sign cannot be told from one
in the texts unless these have no sign behind a digit.
-/

namespace NetLib

/-- The sign of a numeral. -/
inductive Sign where
  | absent
  | plus
  | minus
  deriving DecidableEq

/-- The number with a sign and an absolute value. -/
def Sign.apply : Sign → Nat → Int
  | .minus, n => -n
  | _, n => n

variable {α β : Type*} (code : α → Nat)

/-- `isdigit` -/
def isDigit (a : α) : Bool :=
  48 ≤ code a && code a ≤ 57

/-- Plus or minus. -/
def isSign (a : α) : Bool :=
  code a = 43 || code a = 45

/-- `isspace` in the C locale. -/
def isBlank (a : α) : Bool :=
  code a = 32 || (9 ≤ code a && code a ≤ 13)

/-- The number that digits stand for. -/
def digitsValue (ds : List α) : Nat :=
  ds.foldl (fun n a => 10 * n + (code a - 48)) 0

/-- Take a sign off the front. -/
def splitSign : List α → Sign × List α
  | [] => (.absent, [])
  | a :: s =>
      if code a = 43 then (.plus, s) else if code a = 45 then (.minus, s) else (.absent, a :: s)

/-- What `%d` reads at the front of a text, and what is left; `none` if there are no digits. The
number may be too large for an `int`. -/
def scanInt (s : List α) : Option (Int × List α) :=
  let (sign, t) := splitSign code (s.dropWhile (isBlank code))
  let ds := t.takeWhile (isDigit code)
  if ds.isEmpty then none
  else some (sign.apply (digitsValue code ds), t.dropWhile (isDigit code))

/-- The symbols a sign is written with. -/
def Sign.Spelled : Sign → List α → Prop
  | .absent, s => s = []
  | .plus, s => ∃ a, s = [a] ∧ code a = 43
  | .minus, s => ∃ a, s = [a] ∧ code a = 45

/-- A text that is white space, a sign and digits, and the number it stands for. -/
inductive IntText : List α → Int → Prop where
  | intro (ws sg ds : List α) (sign : Sign) (hblank : ∀ a ∈ ws, isBlank code a = true)
      (hsign : sign.Spelled code sg) (hne : ds ≠ []) (hdigits : ∀ a ∈ ds, isDigit code a = true) :
      IntText (ws ++ (sg ++ ds)) (sign.apply (digitsValue code ds))

/-- No sign stands behind a digit. -/
def NoSignAfterDigit (s : List α) : Prop :=
  s.IsChain fun a b => isDigit code a = true → isSign code b = false

variable {code} {s t rest : List α} {v : Int} {a c : α}

/-! ## Reading -/

/-- A digit is neither a sign nor white space. -/
theorem not_sign_of_digit (h : isDigit code a = true) :
    isSign code a = false ∧ isBlank code a = false := by
  simp only [isDigit, Bool.and_eq_true, decide_eq_true_eq] at h
  simp only [isSign, isBlank, Bool.or_eq_false_iff, Bool.and_eq_false_iff, decide_eq_false_iff_not]
  omega

/-- A sign is not white space. -/
theorem not_blank_of_sign (h : isSign code a = true) : isBlank code a = false := by
  simp only [isSign, Bool.or_eq_true, decide_eq_true_eq] at h
  simp only [isBlank, Bool.or_eq_false_iff, Bool.and_eq_false_iff, decide_eq_false_iff_not]
  omega

/-- Digits with something else behind them. -/
theorem span_digits {ds : List α} (hdigits : ∀ a ∈ ds, isDigit code a = true)
    (hrest : ∀ a ∈ rest.head?, isDigit code a = false) :
    (ds ++ rest).takeWhile (isDigit code) = ds ∧ (ds ++ rest).dropWhile (isDigit code) = rest := by
  have hstop : rest.takeWhile (isDigit code) = [] ∧ rest.dropWhile (isDigit code) = rest := by
    cases rest with
    | nil => exact ⟨rfl, rfl⟩
    | cons a rest =>
        have ha := hrest a rfl
        exact ⟨List.takeWhile_cons_of_neg (by simp [ha]), List.dropWhile_cons_of_neg (by simp [ha])⟩
  rw [List.takeWhile_append_of_pos hdigits, List.dropWhile_append_of_pos hdigits, hstop.1, hstop.2,
    List.append_nil]
  exact ⟨rfl, rfl⟩

/-- A sign, or none, in front of a text that does not begin with one. -/
theorem split_sign_append {sign : Sign} {sg : List α} (hsign : sign.Spelled code sg)
    (ht : ∀ a ∈ t.head?, isSign code a = false) : splitSign code (sg ++ t) = (sign, t) := by
  cases sign with
  | absent =>
      obtain rfl : sg = [] := hsign
      cases t with
      | nil => rfl
      | cons a t =>
          have ha := ht a rfl
          simp only [isSign, Bool.or_eq_false_iff, decide_eq_false_iff_not] at ha
          rw [List.nil_append, splitSign, if_neg ha.1, if_neg ha.2]
  | plus =>
      obtain ⟨a, rfl, ha⟩ := hsign
      rw [List.singleton_append, splitSign, if_pos ha]
  | minus =>
      obtain ⟨a, rfl, ha⟩ := hsign
      rw [List.singleton_append, splitSign, if_neg (by omega), if_pos ha]

/-- What is taken off is the spelling of the sign. -/
theorem split_sign_spelled (code : α → Nat) (s : List α) :
    ∃ sg, (splitSign code s).1.Spelled code sg ∧ s = sg ++ (splitSign code s).2 := by
  cases s with
  | nil => exact ⟨[], rfl, rfl⟩
  | cons a s =>
      by_cases hplus : code a = 43
      · rw [splitSign, if_pos hplus]
        exact ⟨[a], ⟨a, rfl, hplus⟩, rfl⟩
      · by_cases hminus : code a = 45
        · rw [splitSign, if_neg hplus, if_pos hminus]
          exact ⟨[a], ⟨a, rfl, hminus⟩, rfl⟩
        · rw [splitSign, if_neg hplus, if_neg hminus]
          exact ⟨[], rfl, rfl⟩

/-- The white space in front of a sign and digits. -/
theorem drop_blank {ws : List α} (hblank : ∀ a ∈ ws, isBlank code a = true)
    (ht : ∀ a ∈ t.head?, isBlank code a = false) : (ws ++ t).dropWhile (isBlank code) = t := by
  rw [List.dropWhile_append_of_pos hblank]
  cases t with
  | nil => rfl
  | cons a t => exact List.dropWhile_cons_of_neg (by simp [ht a rfl])

/-- The first symbol of a sign and digits is one of these. -/
theorem head_sign_digits {sign : Sign} {sg ds : List α} (hsign : sign.Spelled code sg)
    (hne : ds ≠ []) (hdigits : ∀ a ∈ ds, isDigit code a = true) (rest : List α) :
    ∀ a ∈ (sg ++ (ds ++ rest)).head?, isBlank code a = false := by
  intro a ha
  cases sign with
  | absent =>
      obtain rfl : sg = [] := hsign
      obtain ⟨d, ds, rfl⟩ := List.exists_cons_of_ne_nil hne
      obtain rfl : d = a := Option.some.inj ha
      exact (not_sign_of_digit (hdigits d List.mem_cons_self)).2
  | plus =>
      obtain ⟨p, rfl, hp⟩ := hsign
      obtain rfl : p = a := Option.some.inj ha
      exact not_blank_of_sign (by simp [isSign, hp])
  | minus =>
      obtain ⟨p, rfl, hp⟩ := hsign
      obtain rfl : p = a := Option.some.inj ha
      exact not_blank_of_sign (by simp [isSign, hp])

/-- `%d` reads exactly the numerals that are not followed by a digit. -/
theorem scan_int_iff : scanInt code s = some (v, rest) ↔
    ∃ read, s = read ++ rest ∧ IntText code read v ∧ ∀ a ∈ rest.head?, isDigit code a = false := by
  constructor
  · intro h
    obtain ⟨sg, hsign, hsplit⟩ := split_sign_spelled code (s.dropWhile (isBlank code))
    have hs := List.takeWhile_append_dropWhile (p := isBlank code) (l := s)
    have ht := List.takeWhile_append_dropWhile (p := isDigit code)
      (l := (splitSign code (s.dropWhile (isBlank code))).2)
    unfold scanInt at h
    simp only at h
    split at h
    · cases h
    · next hne =>
        obtain ⟨rfl, rfl⟩ := Prod.mk.inj (Option.some.inj h)
        refine ⟨_, ?_, .intro (s.takeWhile (isBlank code)) sg _ _
          (fun _ ha => List.mem_takeWhile_imp ha) hsign (by simpa using hne)
          (fun _ ha => List.mem_takeWhile_imp ha), ?_⟩
        · rw [List.append_assoc, List.append_assoc, ht, ← hsplit, hs]
        · intro a ha
          have := List.head?_dropWhile_not (isDigit code)
            (splitSign code (s.dropWhile (isBlank code))).2
          rw [show _ = some a from ha] at this
          simpa using this
  · rintro ⟨read, rfl, hread, hrest⟩
    obtain ⟨ws, sg, ds, sign, hblank, hsign, hne, hdigits⟩ := hread
    -- the digits begin with no sign, so the sign is read as it was spelled
    have hhead : ∀ a ∈ (ds ++ rest).head?, isSign code a = false := by
      intro a ha
      obtain ⟨d, ds, rfl⟩ := List.exists_cons_of_ne_nil hne
      obtain rfl : d = a := Option.some.inj ha
      exact (not_sign_of_digit (hdigits d List.mem_cons_self)).1
    obtain ⟨htake, hdrop⟩ := span_digits hdigits hrest
    have hempty : ds.isEmpty = false := by simpa using hne
    unfold scanInt
    rw [List.append_assoc, List.append_assoc,
      drop_blank hblank (head_sign_digits hsign hne hdigits rest), split_sign_append hsign hhead]
    simp only [htake, hdrop, hempty, Bool.false_eq_true, if_false]

/-! ## Joined texts -/

/-- The last symbol of a numeral is a digit. -/
theorem IntText.last (h : IntText code s v) :
    ∃ front x, s = front ++ [x] ∧ isDigit code x = true := by
  obtain ⟨ws, sg, ds, sign, -, -, hne, hdigits⟩ := h
  obtain ⟨front, x, rfl⟩ := (List.eq_nil_or_concat ds).resolve_left hne
  refine ⟨ws ++ (sg ++ front), x, ?_, hdigits x ?_⟩
  · rw [List.concat_eq_append, List.append_assoc, List.append_assoc]
  · rw [List.concat_eq_append]
    exact List.mem_append_right _ List.mem_cons_self

/-- The codes in a numeral. -/
theorem IntText.range (h : IntText code s v) : ∀ a ∈ s, 9 ≤ code a ∧ code a < 128 := by
  obtain ⟨ws, sg, ds, sign, hblank, hsign, -, hdigits⟩ := h
  refine List.forall_mem_append.mpr ⟨fun a ha => ?_, List.forall_mem_append.mpr
    ⟨fun a ha => ?_, fun a ha => ?_⟩⟩
  · have := hblank a ha
    simp only [isBlank, Bool.or_eq_true, Bool.and_eq_true, decide_eq_true_eq] at this
    omega
  · cases sign with
    | absent =>
        obtain rfl : sg = [] := hsign
        cases ha
    | plus | minus =>
        obtain ⟨b, rfl, hb⟩ := hsign
        obtain rfl := List.mem_singleton.mp ha
        omega
  · have := hdigits a ha
    simp only [isDigit, Bool.and_eq_true, decide_eq_true_eq] at this
    omega

/-- A text that `%d` reads as a whole is a numeral. -/
theorem scan_int_whole : scanInt code s = some (v, []) ↔ IntText code s v := by
  rw [scan_int_iff]
  constructor
  · rintro ⟨read, rfl, hread, -⟩
    rwa [List.append_nil]
  · intro h
    exact ⟨s, (List.append_nil s).symm, h, fun a ha => by cases ha⟩

/-- A numeral with a symbol behind it that is no digit. -/
theorem scan_int_append (h : IntText code s v) (hc : isDigit code c = false) (t : List α) :
    scanInt code (s ++ c :: t) = some (v, c :: t) := by
  refine scan_int_iff.mpr ⟨s, rfl, h, fun a ha => ?_⟩
  obtain rfl : c = a := Option.some.inj ha
  exact hc

/-- A sign behind a digit shows that a text has no `NoSignAfterDigit`. -/
theorem NoSignAfterDigit.absurd {front : List α} {x : α} (h : NoSignAfterDigit code s)
    (hs : s = front ++ [x] ++ c :: rest) (hx : isDigit code x = true)
    (hc : isSign code c = true) : False := by
  rw [NoSignAfterDigit, hs, List.append_assoc, List.singleton_append,
    List.isChain_append_cons_cons] at h
  have := h.2.1 hx
  rw [hc] at this
  cases this

/-- Two texts without a sign behind a digit, joined by a sign. If `%d` stops at a sign, then it has
read the first text and nothing else: it is at a digit when it stops. -/
theorem scan_int_joined {op : α} (hs : NoSignAfterDigit code s) (ht : NoSignAfterDigit code t)
    (hop : isSign code op = true) (hc : isSign code c = true)
    (h : scanInt code (s ++ op :: t) = some (v, c :: rest)) :
    IntText code s v ∧ c = op ∧ rest = t := by
  obtain ⟨read, heq, hread, -⟩ := scan_int_iff.mp h
  obtain ⟨front, x, rfl, hx⟩ := hread.last
  rcases List.append_eq_append_iff.mp heq with ⟨a, hread', hrest⟩ | ⟨b, hs', hrest⟩
  · cases a with
    | nil =>
        rw [List.append_nil] at hread'
        obtain ⟨rfl, rfl⟩ := List.cons.inj hrest
        exact ⟨hread' ▸ hread, rfl, rfl⟩
    | cons a more =>
        -- the sign is read, so the digit before the stop is in the second text
        obtain ⟨rfl, ht'⟩ := List.cons.inj hrest
        rcases List.eq_nil_or_concat more with rfl | ⟨more, y, rfl⟩
        · obtain ⟨-, rfl⟩ := List.append_inj' hread' rfl |>.imp_right List.singleton_inj.mp
          rw [(not_sign_of_digit hx).1] at hop
          cases hop
        · rw [List.concat_eq_append, ← List.cons_append, ← List.append_assoc] at hread'
          obtain ⟨-, hxy⟩ := List.append_inj' hread' rfl
          obtain rfl := List.singleton_inj.mp hxy
          rw [List.concat_eq_append] at ht'
          exact (ht.absurd ht' hx hc).elim
  · cases b with
    | nil =>
        rw [List.append_nil] at hs'
        obtain ⟨rfl, rfl⟩ := List.cons.inj hrest
        exact ⟨hs' ▸ hread, rfl, rfl⟩
    | cons b more =>
        obtain ⟨rfl, -⟩ := List.cons.inj hrest
        exact (hs.absurd hs' hx hc).elim

/-- A text without signs. -/
theorem NoSignAfterDigit.of_signless (h : ∀ a ∈ s, isSign code a = false) :
    NoSignAfterDigit code s := by
  unfold NoSignAfterDigit
  induction s with
  | nil => exact .nil
  | cons a s ih =>
      cases s with
      | nil => exact .singleton a
      | cons b s =>
          exact .cons_cons (fun _ => h b (by simp)) (ih fun c hc => h c (List.mem_cons_of_mem a hc))

/-- One text behind another: the first does not end in a digit, or the second does not begin with a
sign. -/
theorem NoSignAfterDigit.append (hs : NoSignAfterDigit code s) (ht : NoSignAfterDigit code t)
    (hjoin : (∀ a ∈ s.getLast?, isDigit code a = false) ∨ ∀ b ∈ t.head?, isSign code b = false) :
    NoSignAfterDigit code (s ++ t) := by
  refine List.isChain_append.mpr ⟨hs, ht, fun a ha b hb hdigit => ?_⟩
  rcases hjoin with hlast | hhead
  · rw [hlast a ha] at hdigit
    cases hdigit
  · exact hhead b hb

/-! ## The same codes -/

variable {codeOf : β → Nat} {u : List β}

/-- The number that digits stand for is a matter of their codes. -/
theorem digits_value_codes (s : List α) : digitsValue code s = digitsValue id (s.map code) := by
  rw [digitsValue, digitsValue, List.foldl_map]
  rfl

/-- Symbols with the same codes spell the same sign. -/
theorem Sign.Spelled.of_codes {sign : Sign} (h : sign.Spelled code s)
    (heq : u.map codeOf = s.map code) : sign.Spelled codeOf u := by
  have hone : ∀ {n : Nat}, (∃ a, s = [a] ∧ code a = n) → ∃ b, u = [b] ∧ codeOf b = n := by
    rintro n ⟨a, rfl, ha⟩
    obtain ⟨b, rfl, hb⟩ := List.map_eq_singleton_iff.mp heq
    exact ⟨b, rfl, hb.trans ha⟩
  cases sign with
  | absent =>
      obtain rfl : s = [] := h
      exact List.map_eq_nil_iff.mp heq
  | plus => exact hone h
  | minus => exact hone h

/-- A predicate on codes holds of symbols with the same codes. -/
theorem forall_of_codes {p : Nat → Bool} (h : ∀ a ∈ s, p (code a) = true)
    (heq : u.map codeOf = s.map code) : ∀ b ∈ u, p (codeOf b) = true := by
  intro b hb
  have hmem : codeOf b ∈ s.map code := heq ▸ List.mem_map_of_mem hb
  obtain ⟨a, ha, hab⟩ := List.mem_map.mp hmem
  exact hab ▸ h a ha

/-- Symbols with the codes of a numeral are that numeral. -/
theorem IntText.of_codes (h : IntText code s v) (heq : u.map codeOf = s.map code) :
    IntText codeOf u v := by
  obtain ⟨ws, sg, ds, sign, hblank, hsign, hne, hdigits⟩ := h
  rw [List.map_append, List.map_append] at heq
  obtain ⟨ws', tail, rfl, hws, heq⟩ := List.map_eq_append_iff.mp heq
  obtain ⟨sg', ds', rfl, hsg, hds⟩ := List.map_eq_append_iff.mp heq
  rw [digits_value_codes, ← hds, ← digits_value_codes]
  refine .intro ws' sg' ds' sign (forall_of_codes (p := isBlank id) hblank hws)
    (hsign.of_codes hsg) ?_ (forall_of_codes (p := isDigit id) hdigits hds)
  rintro rfl
  exact hne (List.map_eq_nil_iff.mp hds.symm)

/-! ## Numerals that were printed -/

/-- The value of a decimal numeral. -/
theorem digits_value_decimal (n : Nat) : digitsValue UInt8.toNat (decimal n) = n := by
  have hvalue : Nat.ofDigitChars 10 (Nat.toDigits 10 n) 0 = n := Nat.ofDigitChars_ten_toDigits
  rw [Nat.ofDigitChars_eq_foldl] at hvalue
  conv_rhs => rw [← hvalue]
  rw [digitsValue, decimal, charBytes, List.foldl_map]
  refine List.foldl_ext _ _ _ fun m c hc => ?_
  -- a digit is a byte
  have hdigit := Nat.isDigit_of_mem_toDigits (by decide) (by decide) hc
  simp only [Char.isDigit, Bool.and_eq_true, decide_eq_true_eq, ge_iff_le] at hdigit
  have hval : 48 ≤ c.toNat ∧ c.toNat ≤ 57 := hdigit
  have hbyte : (UInt8.ofNat c.toNat).toNat = c.toNat := by
    rw [UInt8.toNat_ofNat']
    exact Nat.mod_eq_of_lt (by omega)
  rw [hbyte]
  rfl

/-- `%d` reads back what it has printed. -/
theorem int_text_decimalInt (z : Int) : IntText UInt8.toNat (decimalInt z) z := by
  have hdigits : ∀ b ∈ decimal z.natAbs, isDigit UInt8.toNat b = true := by
    intro b hb
    have := isdigit_of_mem_decimal hb
    simpa [isdigit, isDigit, UInt8.le_iff_toNat_le] using this
  have hnumeral : ∀ (sign : Sign) (sg : Bytes), sign.Spelled UInt8.toNat sg →
      IntText UInt8.toNat (sg ++ decimal z.natAbs) (sign.apply z.natAbs) := by
    intro sign sg hsign
    have := IntText.intro [] sg _ sign (by simp) hsign (decimal_ne_nil z.natAbs) hdigits
    rwa [digits_value_decimal] at this
  unfold decimalInt
  split
  · next hneg =>
      have hminus := hnumeral .minus [45] ⟨45, rfl, rfl⟩
      have hvalue : -((z.natAbs : Nat) : Int) = z := by omega
      rwa [Sign.apply, hvalue] at hminus
  · next hpos =>
      have hplain := hnumeral .absent [] rfl
      have hvalue : ((z.natAbs : Nat) : Int) = z := by omega
      rwa [Sign.apply, hvalue] at hplain
      simp

/-- An integer is printed in one way only. -/
theorem decimalInt_inj {z w : Int} (h : decimalInt z = decimalInt w) : z = w := by
  have hz := scan_int_whole.mpr (int_text_decimalInt z)
  rw [h, scan_int_whole.mpr (int_text_decimalInt w)] at hz
  exact (Prod.mk.inj (Option.some.inj hz)).1.symm

end NetLib
