import UnixNet.Lib.Execution
import UnixNet.Lib.Memory
import UnixNet.Pub.Codec

/-!
# `strdecode` on memory

`http_request` decodes a path in place: `strdecode(path, path)` writes to the array that it reads.
`strdecodeRound` is one round of its loop on a memory, with every byte that is read or written. Of a
text at `source` that is decoded to `target`, the bytes written so far are the decoding of the bytes
passed so far (`Passed`), which are no fewer; so what is still to be read is as it was, whether the
target is the source or apart from it (`decode_in_place`).
-/

namespace UnixNet.Pub

open NetLib

/-- The variables of `strdecode`: its two pointers, the memory, and what was done to it. -/
structure Decoding where
  mem : Memory
  target : Nat
  source : Nat
  accesses : List Access

/-- Read a byte. -/
def Decoding.load (s : Decoding) (address : Nat) : Decoding :=
  { s with accesses := s.accesses ++ [.read address (s.mem address)] }

/-- `*to = c` -/
def Decoding.store (s : Decoding) (c : UInt8) : Decoding :=
  { s with
    mem := Function.update s.mem s.target c
    accesses := s.accesses ++ [.write s.target c] }

/-- `++to, from += step` -/
def Decoding.advance (s : Decoding) (step : Nat) : Decoding :=
  { s with target := s.target + 1, source := s.source + step }

/-- `from[0] == '%' && isxdigit(from[1]) && isxdigit(from[2])` -/
def Decoding.testEscape (s : Decoding) : Bool × Decoding :=
  let s := s.load s.source
  if s.mem s.source = 37 then
    let s := s.load (s.source + 1)
    if isxdigit (s.mem (s.source + 1)) then
      let s := s.load (s.source + 2)
      (isxdigit (s.mem (s.source + 2)), s)
    else (false, s)
  else (false, s)

/-- One round of the loop of `strdecode(to, from)`, with its test `*from != '\0'`. -/
def strdecodeRound (s : Decoding) : Bool × Decoding :=
  let s := s.load s.source
  if s.mem s.source = 0 then (false, s)
  else
    let (escape, s) := s.testEscape
    if escape then
      let hi := s.mem (s.source + 1)
      let s := s.load (s.source + 1)
      let lo := s.mem (s.source + 2)
      let s := s.load (s.source + 2)
      (true, (s.store (UInt8.ofNat (hexit hi * 16 + hexit lo))).advance 3)
    else
      let c := s.mem s.source
      let s := s.load s.source
      (true, (s.store c).advance 1)

/-- `strdecode(to, from)` on a memory. There is no result when the loop goes on for `fuel`
rounds. -/
def strdecodeAt (fuel target source : Nat) (mem : Memory) : Option Decoding :=
  (whileLoop strdecodeRound fuel ⟨mem, target, source, []⟩).map fun s => s.store 0

@[simp] theorem Decoding.load_mem (s : Decoding) (address : Nat) :
    (s.load address).mem = s.mem := rfl

@[simp] theorem Decoding.load_source (s : Decoding) (address : Nat) :
    (s.load address).source = s.source := rfl

/-! ## One round -/

/-- Between two states only bytes at most `n` behind the pointer were read. -/
structure Looks (n : Nat) (s next : Decoding) : Prop where
  mem : next.mem = s.mem
  target : next.target = s.target
  source : next.source = s.source
  accesses : ∃ reads, next.accesses = s.accesses ++ reads ∧
    ∀ access ∈ reads, ∃ i ≤ n, access = .read (s.source + i) (s.mem (s.source + i))

theorem Looks.refl (n : Nat) (s : Decoding) : Looks n s s :=
  ⟨rfl, rfl, rfl, [], (List.append_nil _).symm, by simp⟩

theorem Looks.load {n i : Nat} {s next : Decoding} (h : Looks n s next) (hi : i ≤ n) :
    Looks n s (next.load (next.source + i)) := by
  obtain ⟨hmem, htarget, hsource, reads, haccesses, hreads⟩ := h
  refine ⟨hmem, htarget, hsource, reads ++ [.read (s.source + i) (s.mem (s.source + i))], ?_, ?_⟩
  · rw [Decoding.load, haccesses, hmem, hsource, List.append_assoc]
  · exact List.forall_mem_append.mpr ⟨hreads, List.forall_mem_singleton.mpr ⟨i, hi, rfl⟩⟩

variable {s : Decoding} {rest : Bytes}

/-- The bytes that the test is about. -/
theorem test_escape_iff (s : Decoding) :
    s.testEscape.1 = true ↔
      s.mem s.source = 37 ∧ isxdigit (s.mem (s.source + 1)) = true ∧
        isxdigit (s.mem (s.source + 2)) = true := by
  unfold Decoding.testEscape
  by_cases hpercent : s.mem s.source = 37
  · by_cases hdigit : isxdigit (s.mem (s.source + 1)) = true
    · simp [hpercent, hdigit]
    · simp [hpercent, hdigit]
  · simp [hpercent]

/-- The test looks at the second of them, and at the third one if the second is a digit. -/
theorem Looks.testEscape {n : Nat} {next : Decoding} (h : Looks n s next) (hone : 1 ≤ n)
    (htwo : isxdigit (next.mem (next.source + 1)) = true → 2 ≤ n) :
    Looks n s next.testEscape.2 := by
  have hfirst := h.load (i := 0) (Nat.zero_le n)
  unfold Decoding.testEscape
  by_cases hpercent : next.mem next.source = 37
  · have hsecond := hfirst.load hone
    by_cases hdigit : isxdigit (next.mem (next.source + 1)) = true
    · simpa [hpercent, hdigit] using hsecond.load (htwo hdigit)
    · simpa [hpercent, hdigit] using hsecond
  · simpa [hpercent] using hfirst

/-- The first bytes of a terminated text make an escape if it starts with one: the terminator is no
digit. -/
theorem escape_bytes_iff {mem : Memory} {p : Nat} (htext : mem.Holds p (rest ++ [0]))
    (hne : rest ≠ []) :
    mem p = 37 ∧ isxdigit (mem (p + 1)) = true ∧ isxdigit (mem (p + 2)) = true ↔
      StartsEscape rest := by
  constructor
  · intro h
    obtain ⟨hpercent, hhi, hlo⟩ := h
    cases rest with
    | nil => exact absurd rfl hne
    | cons c tail =>
        obtain rfl : c = 37 := (htext 0 c rfl).symm.trans hpercent
        cases tail with
        | nil =>
            rw [show mem (p + 1) = 0 from htext 1 0 rfl] at hhi
            cases hhi
        | cons hi tail =>
            rw [show mem (p + 1) = hi from htext 1 hi rfl] at hhi
            cases tail with
            | nil =>
                rw [show mem (p + 2) = 0 from htext 2 0 rfl] at hlo
                cases hlo
            | cons lo after =>
                rw [show mem (p + 2) = lo from htext 2 lo rfl] at hlo
                exact ⟨hi, lo, after, rfl, hhi, hlo⟩
  · intro h
    obtain ⟨hi, lo, after, rfl, hhi, hlo⟩ := h
    rw [show mem p = 37 from htext 0 37 rfl, show mem (p + 1) = hi from htext 1 hi rfl,
      show mem (p + 2) = lo from htext 2 lo rfl]
    exact ⟨rfl, hhi, hlo⟩

/-- The test for an escape reads no further than the terminator. -/
theorem test_escape_spec {next : Decoding} (hlooks : Looks rest.length s next)
    (htext : s.mem.Holds s.source (rest ++ [0])) (hne : rest ≠ []) :
    (next.testEscape.1 = true ↔ StartsEscape rest) ∧ Looks rest.length s next.testEscape.2 := by
  refine ⟨?_, hlooks.testEscape (List.length_pos_iff.mpr hne) fun hdigit => ?_⟩
  · rw [test_escape_iff, hlooks.mem, hlooks.source]
    exact escape_bytes_iff htext hne
  · rw [hlooks.mem, hlooks.source] at hdigit
    cases rest with
    | nil => exact absurd rfl hne
    | cons c tail =>
        cases tail with
        | nil =>
            rw [show s.mem (s.source + 1) = 0 from htext 1 0 rfl] at hdigit
            cases hdigit
        | cons hi tail => simp

/-- At the terminator the loop ends. -/
theorem strdecode_round_end (htext : s.mem.Holds s.source [0]) :
    (strdecodeRound s).1 = false ∧ Looks 0 s (strdecodeRound s).2 := by
  have hzero : s.mem s.source = 0 := htext 0 0 rfl
  have hround : strdecodeRound s = (false, s.load s.source) := by
    simp [strdecodeRound, hzero]
  rw [hround]
  exact ⟨rfl, (Looks.refl 0 s).load (Nat.le_refl 0)⟩

/-- A round that does not end the loop, in terms of the test for an escape. -/
theorem strdecode_round_eq (h : s.mem s.source ≠ 0) :
    strdecodeRound s =
      let (escape, s) := (s.load s.source).testEscape
      if escape then
        (true, ((((s.load (s.source + 1)).load (s.source + 2)).store (UInt8.ofNat
          (hexit (s.mem (s.source + 1)) * 16 + hexit (s.mem (s.source + 2))))).advance 3))
      else (true, ((s.load s.source).store (s.mem s.source)).advance 1) := by
  simp [strdecodeRound, h]

/-- A round at an escape writes its byte. -/
theorem strdecode_round_escape {hi lo : UInt8}
    (htext : s.mem.Holds s.source (37 :: hi :: lo :: rest ++ [0]))
    (hhi : isxdigit hi = true) (hlo : isxdigit lo = true) :
    ∃ mid, Looks (37 :: hi :: lo :: rest).length s mid ∧ strdecodeRound s =
      (true, (mid.store (UInt8.ofNat (hexit hi * 16 + hexit lo))).advance 3) := by
  have hfirst : s.mem s.source = 37 := htext 0 37 rfl
  have hloaded : Looks (37 :: hi :: lo :: rest).length s (s.load s.source) :=
    (Looks.refl _ s).load (i := 0) (Nat.zero_le _)
  obtain ⟨htest, hlooks⟩ := test_escape_spec hloaded htext (List.cons_ne_nil _ _)
  have hescape : (s.load s.source).testEscape.1 = true := htest.mpr ⟨hi, lo, rest, rfl, hhi, hlo⟩
  rw [strdecode_round_eq (by rw [hfirst]; decide)]
  generalize (s.load s.source).testEscape = tested at hescape hlooks
  obtain ⟨escape, next⟩ := tested
  obtain rfl : escape = true := hescape
  have hsecond : next.mem (next.source + 1) = hi := by
    rw [hlooks.mem, hlooks.source]
    exact htext 1 hi rfl
  have hthird : next.mem (next.source + 2) = lo := by
    rw [hlooks.mem, hlooks.source]
    exact htext 2 lo rfl
  refine ⟨(next.load (next.source + 1)).load (next.source + 2),
    (hlooks.load (by simp)).load (i := 2) (by simp), ?_⟩
  show (true, Decoding.advance (Decoding.store _ (UInt8.ofNat
    (hexit (next.mem (next.source + 1)) * 16 + hexit (next.mem (next.source + 2))))) 3) = _
  rw [hsecond, hthird]

/-- A round at any other byte copies it. -/
theorem strdecode_round_copy {c : UInt8} (htext : s.mem.Holds s.source (c :: rest ++ [0]))
    (hc : c ≠ 0) (hcopy : ¬ StartsEscape (c :: rest)) :
    ∃ mid, Looks (c :: rest).length s mid ∧
      strdecodeRound s = (true, (mid.store c).advance 1) := by
  have hfirst : s.mem s.source = c := htext 0 c rfl
  have hloaded : Looks (c :: rest).length s (s.load s.source) :=
    (Looks.refl _ s).load (i := 0) (Nat.zero_le _)
  obtain ⟨htest, hlooks⟩ := test_escape_spec hloaded htext (List.cons_ne_nil _ _)
  have hescape : (s.load s.source).testEscape.1 = false := by
    rw [← Bool.not_eq_true, htest]
    exact hcopy
  rw [strdecode_round_eq (by rw [hfirst]; exact hc)]
  generalize (s.load s.source).testEscape = tested at hescape hlooks
  obtain ⟨escape, next⟩ := tested
  obtain rfl : escape = false := hescape
  refine ⟨next.load next.source, hlooks.load (i := 0) (Nat.zero_le _), ?_⟩
  show (true, ((next.load next.source).store (next.mem next.source)).advance 1) = _
  rw [hlooks.mem, hlooks.source, hfirst]

/-! ## The whole text -/

/-- The target is the source itself, or apart from it, with room for `n` bytes and a terminator. -/
def SameOrApart (dst src n : Nat) : Prop :=
  dst = src ∨ dst + n < src ∨ src + n < dst

/-- Decoding the text at `src` to `dst`: in the state `s` the bytes `done` have been passed and
`rest` is still to be read; `out` has been written, and nothing else. -/
structure Passed (mem : Memory) (dst src : Nat) (done rest out : Bytes) (s : Decoding) : Prop where
  decoded : strdecode (done ++ rest) = out ++ strdecode rest
  shorter : out.length ≤ done.length
  target : s.target = dst + out.length
  source : s.source = src + done.length
  written : s.mem = mem.put dst out
  reads : ReadsFrom mem src (src + (done ++ rest).length) s.accesses
  writes : WritesTo dst (dst + (done ++ rest).length) s.accesses

variable {mem : Memory} {dst src : Nat} {done out : Bytes}

/-- What is still to be read is as it was. -/
theorem Passed.unread (h : Passed mem dst src done rest out s)
    (hapart : SameOrApart dst src (done ++ rest).length)
    {i : Nat} (hi : i ≤ rest.length) : s.mem (s.source + i) = mem (s.source + i) := by
  have hshorter := h.shorter
  have hsource := h.source
  rw [h.written]
  refine Memory.put_of_outside ?_
  rw [List.length_append] at hapart
  rcases hapart with heq | hbefore | hbehind
  · exact .inr (by omega)
  · exact .inr (by omega)
  · exact .inl (by omega)

/-- The text that is still to be read. -/
theorem Passed.holds (h : Passed mem dst src done rest out s)
    (hapart : SameOrApart dst src (done ++ rest).length)
    (htext : mem.Holds src (done ++ rest ++ [0])) : s.mem.Holds s.source (rest ++ [0]) := by
  intro i c hc
  have hi : i ≤ rest.length := by
    have := (List.getElem?_eq_some_iff.mp hc).1
    rw [List.length_append, List.length_singleton] at this
    omega
  rw [h.unread hapart hi, h.source]
  rw [List.append_assoc] at htext
  exact htext.append_right i c hc

/-- What a round looks at is within the text and its terminator. -/
theorem Passed.looks {n : Nat} {mid : Decoding} (h : Passed mem dst src done rest out s)
    (hapart : SameOrApart dst src (done ++ rest).length) (hlooks : Looks n s mid)
    (hn : n ≤ rest.length) : Passed mem dst src done rest out mid := by
  obtain ⟨hmem, htarget, hsource, reads, haccesses, hreads⟩ := hlooks
  refine ⟨h.decoded, h.shorter, htarget.trans h.target, hsource.trans h.source,
    hmem.trans h.written, ?_, ?_⟩
  · rw [haccesses]
    refine h.reads.append fun a c hread => ?_
    obtain ⟨i, hi, heq⟩ := hreads _ hread
    obtain ⟨rfl, rfl⟩ := Access.read.inj heq
    have hfrom := h.source
    rw [List.length_append]
    exact ⟨by omega, by omega, (h.unread hapart (by omega)).symm⟩
  · rw [haccesses]
    refine h.writes.append fun a c hwrite => ?_
    obtain ⟨i, -, heq⟩ := hreads _ hwrite
    cases heq

/-- A byte is written for the bytes `passed`. -/
theorem Passed.store {passed : Bytes} {c : UInt8}
    (h : Passed mem dst src done (passed ++ rest) out s) (hpassed : passed ≠ [])
    (hdecoded : strdecode (passed ++ rest) = c :: strdecode rest) :
    Passed mem dst src (done ++ passed) rest (out ++ [c])
      ((s.store c).advance passed.length) := by
  obtain ⟨hout, hshorter, htarget, hsource, hwritten, hreads, hwrites⟩ := h
  have hlength := List.length_pos_iff.mpr hpassed
  have hall : done ++ passed ++ rest = done ++ (passed ++ rest) := List.append_assoc ..
  refine ⟨?_, ?_, ?_, ?_, ?_, ?_, ?_⟩
  · rw [hall, hout, hdecoded, List.append_assoc, List.singleton_append]
  · rw [List.length_append, List.length_append, List.length_singleton]
    omega
  · show s.target + 1 = _
    rw [htarget, List.length_append, List.length_singleton, Nat.add_assoc]
  · show s.source + passed.length = _
    rw [hsource, List.length_append, Nat.add_assoc]
  · show Function.update s.mem s.target c = _
    rw [hwritten, htarget, Memory.put_update]
  · rw [hall]
    exact hreads.append (.of_write mem src _ _ c)
  · rw [hall]
    refine hwrites.append (.of_write ?_ c)
    rw [htarget, List.length_append, List.length_append]
    omega

/-- Decoding `text`: some of it has been passed. -/
def DecodingText (mem : Memory) (dst src : Nat) (text : Bytes) (s : Decoding) : Prop :=
  ∃ done rest out, done ++ rest = text ∧ Passed mem dst src done rest out s

variable {text : Bytes}

/-- Before the first round nothing has been passed. -/
theorem decoding_text_start (mem : Memory) (dst src : Nat) (text : Bytes) :
    DecodingText mem dst src text ⟨mem, dst, src, []⟩ :=
  ⟨[], text, [], rfl, rfl, Nat.le_refl 0, rfl, rfl, (Memory.put_nil mem dst).symm,
    fun a c hread => by simp at hread, fun a c hwrite => by simp at hwrite⟩

/-- The pointer that is written to never overtakes the one that is read from. -/
theorem DecodingText.target_le (h : DecodingText mem dst src text s) :
    s.target - dst ≤ s.source - src := by
  obtain ⟨done, rest, out, -, hpassed⟩ := h
  have htarget := hpassed.target
  have hsource := hpassed.source
  have hshorter := hpassed.shorter
  omega

/-- A round that passes `front` and writes `c` goes on with the text behind it. -/
theorem DecodingText.advance {front tail : Bytes} {c : UInt8} {mid : Decoding}
    (h : Passed mem dst src done (front ++ tail) out s)
    (hapart : SameOrApart dst src (done ++ (front ++ tail)).length) (hfront : front ≠ [])
    (hdecoded : strdecode (front ++ tail) = c :: strdecode tail)
    (hlooks : Looks (front ++ tail).length s mid)
    (hround : strdecodeRound s = (true, (mid.store c).advance front.length)) :
    (strdecodeRound s).1 = true ∧
      DecodingText mem dst src (done ++ (front ++ tail)) (strdecodeRound s).2 ∧
      src + (done ++ (front ++ tail)).length - (strdecodeRound s).2.source <
        src + (done ++ (front ++ tail)).length - s.source := by
  have hsource := h.source
  have hmid := h.looks hapart hlooks (Nat.le_refl _)
  have hnext := hmid.store hfront hdecoded
  have hpos := List.length_pos_iff.mpr hfront
  rw [hround]
  refine ⟨rfl, ⟨done ++ front, tail, out ++ [c], List.append_assoc .., hnext⟩, ?_⟩
  rw [hnext.source]
  simp only [List.length_append]
  omega

section Rounds

variable (htext : mem.Holds src (text ++ [0])) (hnul : (0 : UInt8) ∉ text)
  (hapart : SameOrApart dst src text.length)

include htext hnul hapart

/-- A round goes on with the text, or it finds all of it passed. -/
theorem DecodingText.round (h : DecodingText mem dst src text s) :
    ((strdecodeRound s).1 = true ∧ DecodingText mem dst src text (strdecodeRound s).2 ∧
        src + text.length - (strdecodeRound s).2.source < src + text.length - s.source) ∨
      ((strdecodeRound s).1 = false ∧
        Passed mem dst src text [] (strdecode text) (strdecodeRound s).2) := by
  obtain ⟨done, rest, out, rfl, hpassed⟩ := h
  have hholds := hpassed.holds hapart htext
  cases rest with
  | nil =>
      obtain ⟨hexit, hlooks⟩ := strdecode_round_end hholds
      have hend := hpassed.looks hapart hlooks (Nat.le_refl 0)
      have hout : out = strdecode (done ++ []) := by
        rw [hpassed.decoded]
        exact (List.append_nil out).symm
      rw [← hout, List.append_nil]
      exact .inr ⟨hexit, hend⟩
  | cons c tail =>
      by_cases hescape : StartsEscape (c :: tail)
      · obtain ⟨hi, lo, after, heq, hhi, hlo⟩ := hescape
        obtain ⟨rfl, rfl⟩ := List.cons.inj heq
        obtain ⟨mid, hlooks, hround⟩ := strdecode_round_escape hholds hhi hlo
        have hfront : [37, hi, lo] ≠ [] := List.cons_ne_nil _ _
        exact .inl (DecodingText.advance hpassed hapart hfront (strdecode_escape hhi hlo after)
          hlooks hround)
      · have hc : c ≠ 0 := fun hzero =>
          hnul (hzero ▸ List.mem_append_right _ List.mem_cons_self)
        obtain ⟨mid, hlooks, hround⟩ := strdecode_round_copy hholds hc hescape
        have hfront : [c] ≠ [] := List.cons_ne_nil _ _
        exact .inl (DecodingText.advance hpassed hapart hfront (strdecode_copy hescape) hlooks
          hround)

/-- The loop comes to its end. -/
theorem strdecode_at_isSome : ∃ fuel, (strdecodeAt fuel dst src mem).isSome = true := by
  have hterminates : Terminates strdecodeRound ⟨mem, dst, src, []⟩ := by
    refine Terminates.of_measure (DecodingText mem dst src text)
      (fun s => src + text.length - s.source) ?_ (decoding_text_start mem dst src text)
    intro s hs hgoes
    rcases hs.round htext hnul hapart with ⟨-, hnext, hless⟩ | ⟨hexit, -⟩
    · exact ⟨hnext, hless⟩
    · rw [hexit] at hgoes
      cases hgoes
  obtain ⟨fuel, final, hrun⟩ := hterminates
  exact ⟨fuel, by rw [strdecodeAt, hrun]; rfl⟩

/-- The target then holds the decoding of the text, and nothing else has changed. -/
theorem strdecode_at_spec {fuel : Nat} {final : Decoding}
    (h : strdecodeAt fuel dst src mem = some final) :
    final.mem = mem.put dst (strdecode text ++ [0]) ∧
      ReadsFrom mem src (src + text.length) final.accesses ∧
      WritesTo dst (dst + text.length) final.accesses := by
  obtain ⟨ended, hrun, rfl⟩ := Option.map_eq_some_iff.mp h
  have hround : ∀ s, DecodingText mem dst src text s → (strdecodeRound s).1 = true →
      DecodingText mem dst src text (strdecodeRound s).2 := by
    intro s hs hgoes
    rcases hs.round htext hnul hapart with ⟨-, hnext, -⟩ | ⟨hexit, -⟩
    · exact hnext
    · rw [hexit] at hgoes
      cases hgoes
  obtain ⟨last, hlast, hexit, rfl⟩ :=
    while_loop_invariant _ hround (decoding_text_start mem dst src text) hrun
  rcases hlast.round htext hnul hapart with ⟨hgoes, -⟩ | ⟨-, hpassed⟩
  · rw [hexit] at hgoes
    cases hgoes
  · have hlength := length_strdecode_le text
    have hreads := hpassed.reads
    have hwrites := hpassed.writes
    rw [List.append_nil] at hreads hwrites
    refine ⟨?_, hreads.append (.of_write mem src _ _ 0), hwrites.append (.of_write ?_ 0)⟩
    · show Function.update (strdecodeRound last).2.mem (strdecodeRound last).2.target 0 = _
      rw [hpassed.written, hpassed.target, Memory.put_update]
    · rw [hpassed.target]
      omega

end Rounds

/-- Decoding in place is decoding into a fresh buffer. For every text in a memory and every buffer
apart from it: both come to an end, and the array that was decoded in place then holds the same
bytes as the buffer, which are the decoding of the text and its terminator and no more than there
were. The pointer that is written to is never ahead of the one that is read from, every byte is read
as it was before the call, and nothing behind the terminator is read or written. -/
theorem decode_in_place (mem : Memory) (p q : Nat) (text : Bytes) (hnul : (0 : UInt8) ∉ text)
    (htext : mem.Holds p (text ++ [0])) (hapart : q + text.length < p ∨ p + text.length < q) :
    (∃ fuel, (strdecodeAt fuel p p mem).isSome = true) ∧
    (∃ fuel, (strdecodeAt fuel q p mem).isSome = true) ∧
    (∀ fuel fuelFresh inPlace fresh, strdecodeAt fuel p p mem = some inPlace →
      strdecodeAt fuelFresh q p mem = some fresh →
      (∀ i ≤ (strdecode text).length, inPlace.mem (p + i) = fresh.mem (q + i)) ∧
        fresh.mem.Holds q (strdecode text ++ [0]) ∧ (strdecode text).length ≤ text.length ∧
        ReadsFrom mem p (p + text.length) inPlace.accesses ∧
        WritesTo p (p + text.length) inPlace.accesses) ∧
    (∀ s, Relation.ReflTransGen (fun s next => strdecodeRound s = (true, next)) ⟨mem, p, p, []⟩ s →
      s.target - p ≤ s.source - p) := by
  have hsame : SameOrApart p p text.length := .inl rfl
  have hfresh : SameOrApart q p text.length := .inr hapart
  refine ⟨strdecode_at_isSome htext hnul hsame, strdecode_at_isSome htext hnul hfresh, ?_, ?_⟩
  · intro fuel fuelFresh inPlace fresh hinPlace hdecoded
    obtain ⟨hmem, hreads, hwrites⟩ := strdecode_at_spec htext hnul hsame hinPlace
    obtain ⟨hmemFresh, -, -⟩ := strdecode_at_spec htext hnul hfresh hdecoded
    refine ⟨fun i hi => ?_, ?_, length_strdecode_le text, hreads, hwrites⟩
    · rw [hmem, hmemFresh]
      have hholds := mem.put_holds p (strdecode text ++ [0])
      refine hholds.eq_at (mem.put_holds q (strdecode text ++ [0])) ?_
      rw [List.length_append, List.length_singleton]
      omega
    · rw [hmemFresh]
      exact mem.put_holds q (strdecode text ++ [0])
  · intro s hreached
    refine DecodingText.target_le (reachable_invariant (DecodingText mem p p text)
      (decoding_text_start mem p p text) ?_ hreached)
    intro s next hs hround
    rcases hs.round htext hnul hsame with ⟨-, hnext, -⟩ | ⟨hexit, -⟩
    · rwa [hround] at hnext
    · rw [hround] at hexit
      cases hexit

/-- A memory with the text `%41%` at address 0. -/
def escapeMemory : Memory :=
  Memory.put (fun _ => 0) 0 (ascii "%41%" ++ [0])

/-- The text `%41%` is decoded in place, and to a buffer behind it. -/
theorem decode_in_place_escape :
    (∃ fuel, (strdecodeAt fuel 0 0 escapeMemory).isSome = true) ∧
      ∃ fuel, (strdecodeAt fuel 8 0 escapeMemory).isSome = true := by
  have h := decode_in_place escapeMemory 0 8 (ascii "%41%") (by decide)
    (Memory.put_holds _ 0 (ascii "%41%" ++ [0])) (.inr (by decide))
  exact ⟨h.1, h.2.1⟩

end UnixNet.Pub
