import UnixNet.Lib.Text
import UnixNet.Lib.Wildcard

/-!
# Host names and patterns

`hostcheck.c` compares the name of a host with a name from a certificate, which may have a star in
its first label. Strings are given by their bytes before the NUL, and a pointer into a string by its
offset. `cert_hostcheck_iff` says which names match: those that are equal but for the case of ASCII
letters, and those that a pattern with a star stands for.
-/

namespace UnixNet.HttpsClient

open NetLib

/-- `Curl_raw_toupper` -/
def rawToupper (c : UInt8) : UInt8 :=
  if 97 ≤ c ∧ c ≤ 122 then c - 32 else c

/-- `Curl_raw_equal` -/
def rawEqual : Bytes → Bytes → Bool
  | a :: first, b :: second =>
      if rawToupper a ≠ rawToupper b then rawToupper a == rawToupper b else rawEqual first second
  | first, second => rawToupper (first.headD 0) == rawToupper (second.headD 0)

/-- `Curl_raw_nequal` -/
def rawNequal : Bytes → Bytes → Nat → Bool
  | _, _, 0 => true
  | a :: first, b :: second, max + 1 =>
      if rawToupper a ≠ rawToupper b then rawToupper a == rawToupper b
      else rawNequal first second max
  | first, second, _ + 1 => rawToupper (first.headD 0) == rawToupper (second.headD 0)

/-- `strchr` -/
def strchr (s : Bytes) (c : UInt8) : Option Nat :=
  s.idxOf? c

/-- The end of `hostmatch`, when the wildcard is enabled. -/
def matchLabels (hostname pattern : Bytes) (wildcard labelEnd : Nat) : Bool :=
  match strchr hostname 46 with
  | none => false
  | some hostEnd =>
      if !rawEqual (pattern.drop labelEnd) (hostname.drop hostEnd) then false
      else if hostEnd < labelEnd then false
      else
        let suffixlen := labelEnd - (wildcard + 1)
        rawNequal pattern hostname wildcard &&
          rawNequal (pattern.drop (wildcard + 1)) (hostname.drop (hostEnd - suffixlen)) suffixlen

/-- `hostmatch` -/
def hostmatch (hostname pattern : Bytes) : Bool :=
  match strchr pattern 42 with
  | none => rawEqual pattern hostname
  | some wildcard =>
      match strchr pattern 46 with
      | none => rawEqual pattern hostname
      | some labelEnd =>
          if strchr (pattern.drop (labelEnd + 1)) 46 = none ∨ wildcard > labelEnd ∨
              rawNequal pattern (ascii "xn--") 4 = true then
            rawEqual pattern hostname
          else matchLabels hostname pattern wildcard labelEnd

/-- `Curl_cert_hostcheck`. A pointer that is NULL has no string. -/
def certHostcheck (matchPattern hostname : Option Bytes) : Bool :=
  match matchPattern, hostname with
  | some pattern, some hostname =>
      if pattern = [] ∨ hostname = [] then false
      else if rawEqual hostname pattern then true
      else hostmatch hostname pattern
  | _, _ => false

/-! ## Comparing without regard to case -/

/-- The marks that have a meaning: NUL, star and dot. -/
def IsMark (c : UInt8) : Prop :=
  c = 0 ∨ c = 42 ∨ c = 46

/-- A mark is no letter. -/
theorem raw_toupper_mark {mark : UInt8} (h : IsMark mark) : rawToupper mark = mark := by
  rcases h with rfl | rfl | rfl <;> rfl

/-- Only a mark becomes a mark. -/
theorem raw_toupper_eq_iff {c mark : UInt8} (hmark : IsMark mark) :
    rawToupper c = mark ↔ c = mark := by
  refine ⟨fun h => ?_, fun h => by rw [h, raw_toupper_mark hmark]⟩
  unfold rawToupper at h
  split at h
  · next hletter =>
      -- an upper case letter is no mark
      have hle : (32 : UInt8) ≤ c := UInt8.le_trans (by decide) hletter.1
      have hlow := UInt8.le_iff_toNat_le.mp hletter.1
      have hnat := congrArg UInt8.toNat h
      rw [UInt8.toNat_sub_of_le _ _ hle] at hnat
      rcases hmark with rfl | rfl | rfl <;> · simp at hnat hlow; omega
  · exact h

variable {a b : Bytes}

/-- A string has a mark where its upper case has it. -/
theorem mem_map_toupper_iff {mark : UInt8} (hmark : IsMark mark) (s : Bytes) :
    mark ∈ s.map rawToupper ↔ mark ∈ s := by
  simp only [List.mem_map, raw_toupper_eq_iff hmark, exists_eq_right]

/-- A character of a string is not NUL. -/
theorem toupper_ne_zero {c : UInt8} {s : Bytes} (h : 0 ∉ c :: s) : rawToupper c ≠ 0 := by
  rw [Ne, raw_toupper_eq_iff (.inl rfl)]
  exact fun hc => h (hc ▸ List.mem_cons_self)

/-- `Curl_raw_equal` compares the strings in upper case. -/
theorem raw_equal_iff (ha : 0 ∉ a) (hb : 0 ∉ b) :
    rawEqual a b = true ↔ a.map rawToupper = b.map rawToupper := by
  induction a generalizing b with
  | nil =>
      cases b with
      | nil => exact ⟨fun _ => rfl, fun _ => rfl⟩
      | cons y ys =>
          have hy := toupper_ne_zero hb
          simpa [rawEqual, raw_toupper_mark (.inl rfl : IsMark 0)] using hy.symm
  | cons x xs ih =>
      cases b with
      | nil =>
          have hx := toupper_ne_zero ha
          simpa [rawEqual, raw_toupper_mark (.inl rfl : IsMark 0)] using hx
      | cons y ys =>
          have hrest := ih (fun h => ha (List.mem_cons_of_mem _ h))
            (fun h => hb (List.mem_cons_of_mem _ h))
          by_cases hxy : rawToupper x = rawToupper y
          · simp [rawEqual, hxy, hrest]
          · simp [rawEqual, hxy]

/-- `Curl_raw_nequal` compares the beginnings of the strings in upper case. -/
theorem raw_nequal_iff (ha : 0 ∉ a) (hb : 0 ∉ b) (max : Nat) :
    rawNequal a b max = true ↔ (a.take max).map rawToupper = (b.take max).map rawToupper := by
  induction a generalizing b max with
  | nil =>
      cases max with
      | zero => exact ⟨fun _ => by simp, fun _ => by unfold rawNequal; rfl⟩
      | succ max =>
          cases b with
          | nil => exact ⟨fun _ => rfl, fun _ => rfl⟩
          | cons y ys =>
              have hy := toupper_ne_zero hb
              simpa [rawNequal, raw_toupper_mark (.inl rfl : IsMark 0)] using hy.symm
  | cons x xs ih =>
      cases max with
      | zero => exact ⟨fun _ => by simp, fun _ => by unfold rawNequal; rfl⟩
      | succ max =>
          cases b with
          | nil =>
              have hx := toupper_ne_zero ha
              simpa [rawNequal, raw_toupper_mark (.inl rfl : IsMark 0)] using hx
          | cons y ys =>
              have hrest := ih (fun h => ha (List.mem_cons_of_mem _ h))
                (fun h => hb (List.mem_cons_of_mem _ h)) max
              by_cases hxy : rawToupper x = rawToupper y
              · simp [rawNequal, hxy, hrest]
              · simp [rawNequal, hxy]

/-! ## Finding the marks -/

/-- `strchr` finds the first place of a character. -/
theorem strchr_append {c : UInt8} (h : c ∉ a) (b : Bytes) :
    strchr (a ++ c :: b) c = some a.length := by
  induction a with
  | nil => simp [strchr, List.idxOf?_cons]
  | cons x xs ih =>
      have hne : (x == c) = false := beq_eq_false_iff_ne.mpr fun hx => h (hx ▸ List.mem_cons_self)
      have hrest := ih fun hmem => h (List.mem_cons_of_mem _ hmem)
      rw [strchr] at hrest ⊢
      rw [List.cons_append, List.idxOf?_cons, hne, hrest]
      rfl

theorem strchr_eq_none_iff {c : UInt8} (s : Bytes) : strchr s c = none ↔ c ∉ s :=
  List.idxOf?_eq_none_iff

/-! ## Patterns with a star -/

/-- In upper case, a pattern in which `hostmatch` enables the wildcard, with the parts around the
star. -/
def Wildcard (pattern pre suf rest : Bytes) : Prop :=
  StarPattern 42 46 (ascii "XN--") pattern pre suf rest

variable {pattern hostname pre suf rest : Bytes}

/-- A pattern begins with `xn--`, in any case. -/
theorem raw_nequal_xn_iff (hp : 0 ∉ pattern) :
    rawNequal pattern (ascii "xn--") 4 = true ↔ ascii "XN--" <+: pattern.map rawToupper := by
  have hxn : (ascii "xn--").map rawToupper = ascii "XN--" := by decide
  have hlen : (ascii "XN--").length = 4 := rfl
  rw [raw_nequal_iff hp (by decide), List.prefix_iff_eq_take, eq_comm, hlen, List.map_take,
    List.map_take, hxn]
  rfl

/-- The parts of a pattern in upper case. -/
theorem wildcard_map (hp : 0 ∉ pattern) (heq : pattern = pre ++ 42 :: (suf ++ 46 :: rest))
    (hstar : 42 ∉ pre) (hdot : 46 ∉ pre ++ 42 :: suf) (htwo : 46 ∈ rest)
    (hfree : rawNequal pattern (ascii "xn--") 4 ≠ true) :
    Wildcard (pattern.map rawToupper) (pre.map rawToupper) (suf.map rawToupper)
      (rest.map rawToupper) where
  eq := by
    rw [heq]
    simp only [List.map_append, List.map_cons]
    rfl
  star_notMem := by rwa [mem_map_toupper_iff (.inr (.inl rfl))]
  dot_notMem := by
    have hmap := mem_map_toupper_iff (.inr (.inr rfl) : IsMark 46) (pre ++ 42 :: suf)
    rw [List.map_append, List.map_cons] at hmap
    exact fun hmem => hdot (hmap.mp hmem)
  two_dots := by rwa [mem_map_toupper_iff (.inr (.inr rfl))]
  free := fun h => hfree ((raw_nequal_xn_iff hp).mpr h)

/-- Where the wildcard is enabled, it is in the first label, before two dots. -/
theorem not_wildcard_of_disabled {after label more : Bytes} (hp : 0 ∉ pattern)
    (hfirst : pattern = pre ++ 42 :: after) (hstar : 42 ∉ pre)
    (hlabel : pattern = label ++ 46 :: more) (hdot : 46 ∉ label)
    (hdisabled : 46 ∉ more ∨ pre.length > label.length ∨
      rawNequal pattern (ascii "xn--") 4 = true) {pre' suf' rest' : Bytes} :
    ¬ Wildcard (pattern.map rawToupper) pre' suf' rest' := by
  intro h
  have hmark42 : IsMark 42 := .inr (.inl rfl)
  have hmark46 : IsMark 46 := .inr (.inr rfl)
  have hstarEq : pattern.map rawToupper = pre.map rawToupper ++ 42 :: after.map rawToupper := by
    rw [hfirst, List.map_append, List.map_cons]
    rfl
  have hdotEq : pattern.map rawToupper = label.map rawToupper ++ 46 :: more.map rawToupper := by
    rw [hlabel, List.map_append, List.map_cons]
    rfl
  obtain ⟨hpre, -⟩ := first_unique (by rwa [mem_map_toupper_iff hmark42]) h.star_notMem
    (hstarEq.symm.trans h.eq)
  have hsplit : pattern.map rawToupper = (pre' ++ 42 :: suf') ++ 46 :: rest' := by
    rw [h.eq, List.append_assoc, List.cons_append]
  obtain ⟨hlab, hmore⟩ := first_unique (by rwa [mem_map_toupper_iff hmark46]) h.dot_notMem
    (hdotEq.symm.trans hsplit)
  rcases hdisabled with hone | hbehind | hreserved
  · have htwo := h.two_dots
    rw [← hmore, mem_map_toupper_iff hmark46] at htwo
    exact hone htwo
  · have hprelen := congrArg List.length hpre
    have hlablen := congrArg List.length hlab
    simp only [List.length_map, List.length_append, List.length_cons] at hprelen hlablen
    omega
  · exact h.free ((raw_nequal_xn_iff hp).mp hreserved)

/-- `hostmatch` compares the labels if the wildcard is enabled, and the whole names otherwise. -/
theorem hostmatch_cases (hp : 0 ∉ pattern) (hostname : Bytes) :
    (hostmatch hostname pattern = rawEqual pattern hostname ∧
      ∀ pre suf rest, ¬ Wildcard (pattern.map rawToupper) pre suf rest) ∨
    ∃ pre suf rest, pattern = pre ++ 42 :: (suf ++ 46 :: rest) ∧
      Wildcard (pattern.map rawToupper) (pre.map rawToupper) (suf.map rawToupper)
        (rest.map rawToupper) ∧
      hostmatch hostname pattern =
        matchLabels hostname pattern pre.length (pre.length + 1 + suf.length) := by
  by_cases hstar : 42 ∈ pattern
  case neg =>
    refine .inl ⟨by rw [hostmatch, (strchr_eq_none_iff pattern).mpr hstar],
      fun pre suf rest h => ?_⟩
    rw [← mem_map_toupper_iff (.inr (.inl rfl)), h.eq] at hstar
    exact hstar (by simp)
  by_cases hdot : 46 ∈ pattern
  case neg =>
    refine .inl ⟨?_, fun pre suf rest h => ?_⟩
    · rw [hostmatch, (strchr_eq_none_iff pattern).mpr hdot]
      split <;> rfl
    · rw [← mem_map_toupper_iff (.inr (.inr rfl)), h.eq] at hdot
      exact hdot (by simp)
  obtain ⟨pre, after, hfirst, hpre⟩ := List.eq_append_cons_of_mem hstar
  obtain ⟨label, more, hlabel, hlab⟩ := List.eq_append_cons_of_mem hdot
  have hwild : strchr pattern 42 = some pre.length := by rw [hfirst, strchr_append hpre]
  have hend : strchr pattern 46 = some label.length := by rw [hlabel, strchr_append hlab]
  have hdrop : pattern.drop (label.length + 1) = more := by
    rw [hlabel, ← List.drop_drop, List.drop_left, List.drop_one, List.tail_cons]
  by_cases hdisabled : strchr (pattern.drop (label.length + 1)) 46 = none ∨
      pre.length > label.length ∨ rawNequal pattern (ascii "xn--") 4 = true
  · refine .inl ⟨by simp only [hostmatch, hwild, hend, if_pos hdisabled], fun _ _ _ => ?_⟩
    rw [hdrop, strchr_eq_none_iff] at hdisabled
    exact not_wildcard_of_disabled hp hfirst hpre hlabel hlab hdisabled
  · have hmatch : hostmatch hostname pattern =
        matchLabels hostname pattern pre.length label.length := by
      simp only [hostmatch, hwild, hend, if_neg hdisabled]
    rw [hdrop, strchr_eq_none_iff, not_or, not_or, not_not, Nat.not_lt] at hdisabled
    obtain ⟨htwo, hle, hfree⟩ := hdisabled
    -- the star comes before the first dot, so it is in the first label
    obtain ⟨suf, rfl⟩ : ∃ suf, label = pre ++ 42 :: suf := by
      rcases List.append_eq_append_iff.mp (hfirst.symm.trans hlabel) with
        ⟨gap, hgap, htail⟩ | ⟨gap, hgap, -⟩
      · cases gap with
        | nil => exact absurd (List.cons.inj htail).1 (by decide)
        | cons c gap => exact ⟨gap, by rw [hgap, (List.cons.inj htail).1]⟩
      · have hsame : gap = [] := by
          have := congrArg List.length hgap
          rw [List.length_append] at this
          exact List.eq_nil_of_length_eq_zero (by omega)
        rw [hsame, List.append_nil] at hgap
        have heads := hfirst.symm.trans hlabel
        rw [hgap, List.append_cancel_left_eq] at heads
        exact absurd (List.cons.inj heads).1 (by decide)
    have heq : pattern = pre ++ 42 :: (suf ++ 46 :: more) := by
      rw [hlabel, List.append_assoc, List.cons_append]
    refine .inr ⟨pre, suf, more, heq, wildcard_map hp heq hpre hlab htwo hfree, ?_⟩
    rw [hmatch, List.length_append, List.length_cons, Nat.add_assoc, Nat.add_comm 1]

/-- A part of a string has no NUL if the string has none. -/
theorem zero_notMem_drop {s : Bytes} (h : 0 ∉ s) (k : Nat) : 0 ∉ s.drop k :=
  fun hmem => h (List.mem_of_mem_drop hmem)

/-- The three comparisons at the end of `hostmatch`, where the first label of the host name is long
enough. -/
theorem labels_equal_iff {label more : Bytes} (hp : 0 ∉ pattern) (hh : 0 ∉ hostname)
    (heq : pattern = pre ++ 42 :: (suf ++ 46 :: rest)) (hname : hostname = label ++ 46 :: more)
    (hlen : pre.length + 1 + suf.length ≤ label.length) :
    (rawEqual (pattern.drop (pre.length + 1 + suf.length)) (hostname.drop label.length) = true ↔
        rest.map rawToupper = more.map rawToupper) ∧
      (rawNequal pattern hostname pre.length = true ↔
        pre.map rawToupper = (label.take pre.length).map rawToupper) ∧
      (rawNequal (pattern.drop (pre.length + 1)) (hostname.drop (label.length - suf.length))
          suf.length = true ↔
        suf.map rawToupper = (label.drop (label.length - suf.length)).map rawToupper) := by
  have hbehind : pattern.drop (pre.length + 1) = suf ++ 46 :: rest := by
    rw [heq, ← List.drop_drop, List.drop_left, List.drop_one, List.tail_cons]
  have htail : pattern.drop (pre.length + 1 + suf.length) = 46 :: rest := by
    rw [← List.drop_drop, hbehind, List.drop_left]
  have hmore : hostname.drop label.length = 46 :: more := by
    rw [hname, List.drop_left]
  refine ⟨?_, ?_, ?_⟩
  · rw [raw_equal_iff (zero_notMem_drop hp _) (zero_notMem_drop hh _), htail, hmore,
      List.map_cons, List.map_cons, List.cons.injEq, and_iff_right rfl]
  · rw [raw_nequal_iff hp hh, heq, List.take_left, hname,
      List.take_append_of_le_length (by omega)]
  · have hdrop : hostname.drop (label.length - suf.length) =
        label.drop (label.length - suf.length) ++ 46 :: more := by
      rw [hname, List.drop_append_of_le_length (Nat.sub_le _ _)]
    have hsame : (label.drop (label.length - suf.length)).length = suf.length := by
      rw [List.length_drop]
      omega
    rw [raw_nequal_iff (zero_notMem_drop hp _) (zero_notMem_drop hh _), hbehind, hdrop,
      List.take_left, List.take_left' hsame]

/-- The end of `hostmatch` compares the labels behind the first one, and the beginning and the end
of the first one. -/
theorem match_labels_iff (hp : 0 ∉ pattern) (hh : 0 ∉ hostname)
    (heq : pattern = pre ++ 42 :: (suf ++ 46 :: rest))
    (hwild : Wildcard (pattern.map rawToupper) (pre.map rawToupper) (suf.map rawToupper)
      (rest.map rawToupper)) :
    matchLabels hostname pattern pre.length (pre.length + 1 + suf.length) = true ↔
      StarMatch 42 46 (ascii "XN--") (pattern.map rawToupper) (hostname.map rawToupper) := by
  by_cases hdot : 46 ∈ hostname
  case neg =>
    rw [matchLabels, (strchr_eq_none_iff hostname).mpr hdot]
    refine ⟨nofun, fun h => ?_⟩
    obtain ⟨_, label, domain, _, _, _, hname, _⟩ := h.domain
    rw [← mem_map_toupper_iff (.inr (.inr rfl)), hname] at hdot
    exact absurd (by simp) hdot
  obtain ⟨label, more, hname, hlabel⟩ := List.eq_append_cons_of_mem hdot
  have hend : strchr hostname 46 = some label.length := by rw [hname, strchr_append hlabel]
  have hupper : hostname.map rawToupper = label.map rawToupper ++ 46 :: more.map rawToupper := by
    rw [hname, List.map_append, List.map_cons]
    rfl
  have hsuffix : pre.length + 1 + suf.length - (pre.length + 1) = suf.length :=
    Nat.add_sub_cancel_left _ _
  rw [star_match_iff hwild hupper (by rwa [mem_map_toupper_iff (.inr (.inr rfl))])]
  simp only [matchLabels, hend, hsuffix, List.length_map, ← List.map_take, ← List.map_drop]
  by_cases hlen : pre.length + 1 + suf.length ≤ label.length
  · obtain ⟨hrest, hpre, hsuf⟩ := labels_equal_iff hp hh heq hname hlen
    rw [if_neg (Nat.not_lt.mpr hlen), ← hrest, ← hpre, ← hsuf]
    cases rawEqual (pattern.drop (pre.length + 1 + suf.length)) (hostname.drop label.length)
    · simp
    · simp [hlen]
  · rw [if_pos (Nat.lt_of_not_le hlen)]
    simp [hlen]

/-- A name that is equal to the pattern, or matches it label by label. -/
theorem name_match_iff (hp : 0 ∉ pattern) (hh : 0 ∉ hostname) :
    rawEqual hostname pattern = true ∨ hostmatch hostname pattern = true ↔
      pattern.map rawToupper = hostname.map rawToupper ∨
        StarMatch 42 46 (ascii "XN--") (pattern.map rawToupper) (hostname.map rawToupper) := by
  rw [raw_equal_iff hh hp, eq_comm]
  rcases hostmatch_cases hp hostname with ⟨hplain, hnone⟩ | ⟨pre, suf, rest, heq, hwild, hlabels⟩
  · have hnot : ¬ StarMatch 42 46 (ascii "XN--") (pattern.map rawToupper)
        (hostname.map rawToupper) := fun ⟨pre, suf, rest, _, h, _⟩ => hnone pre suf rest h
    rw [hplain, raw_equal_iff hp hh, or_self, or_iff_left hnot]
  · rw [hlabels, match_labels_iff hp hh heq hwild]

/-- The tests for empty strings keep out nothing but an empty pattern. -/
theorem cert_hostcheck_eq_true (hp : 0 ∉ pattern) (hh : 0 ∉ hostname) :
    certHostcheck (some pattern) (some hostname) = true ↔
      pattern ≠ [] ∧ (rawEqual hostname pattern = true ∨ hostmatch hostname pattern = true) := by
  have hempty : hostname = [] → ¬ (pattern ≠ [] ∧
      (rawEqual hostname pattern = true ∨ hostmatch hostname pattern = true)) := by
    rw [name_match_iff hp hh]
    rintro rfl ⟨hne, hsame | hstar⟩
    · exact hne (List.map_eq_nil_iff.mp hsame)
    · obtain ⟨_, label, domain, _, _, _, hname, _⟩ := hstar.domain
      exact absurd hname (by simp)
  rw [certHostcheck]
  by_cases hp0 : pattern = []
  · rw [if_pos (.inl hp0)]
    exact ⟨nofun, fun h => absurd hp0 h.1⟩
  by_cases hh0 : hostname = []
  · rw [if_pos (.inr hh0)]
    exact ⟨nofun, fun h => absurd h (hempty hh0)⟩
  rw [if_neg (not_or.mpr ⟨hp0, hh0⟩), and_iff_right hp0]
  cases rawEqual hostname pattern
  · simp
  · simp

/-- Which names `Curl_cert_hostcheck` lets pass: a nonempty pattern matches the names that are equal
to it, and if the wildcard is enabled those for which it stands, without regard to the case of ASCII
letters. -/
theorem cert_hostcheck_iff (hp : 0 ∉ pattern) (hh : 0 ∉ hostname) :
    certHostcheck (some pattern) (some hostname) = true ↔
      pattern ≠ [] ∧ (pattern.map rawToupper = hostname.map rawToupper ∨
        StarMatch 42 46 (ascii "XN--") (pattern.map rawToupper) (hostname.map rawToupper)) := by
  rw [cert_hostcheck_eq_true hp hh, name_match_iff hp hh]

/-- A name with a star matches a host in the domain. -/
theorem cert_hostcheck_foo :
    certHostcheck (some (ascii "*.host.com")) (some (ascii "Foo.Host.com")) = true ∧
      StarMatch 42 46 (ascii "XN--") ((ascii "*.host.com").map rawToupper)
        ((ascii "Foo.Host.com").map rawToupper) := by
  have hmatch : certHostcheck (some (ascii "*.host.com")) (some (ascii "Foo.Host.com")) = true := by
    decide
  exact ⟨hmatch, ((cert_hostcheck_iff (by decide) (by decide)).mp hmatch).2.resolve_left
    (by decide)⟩

end UnixNet.HttpsClient
