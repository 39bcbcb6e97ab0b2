import UnixNet.EpollWeb.Closing

/-!
# The tokens of a request line

The loop body takes the method and the file name out of the line with two calls of `strtok`, and
uses both without a test. `requestTokens` has a value when both tokens are there, which is when a
blank stands between two words (`request_tokens_iff`).
-/

namespace UnixNet.EpollWeb

open NetLib UnixNet.Pub UnixNet.Wrap

/-- A blank stands between two words: neither the bytes before it nor those after it are all
blanks. -/
def TwoWords (s : Bytes) : Prop :=
  ∃ before after, s = before ++ 32 :: after ∧ (∃ c ∈ before, c ≠ 32) ∧ ∃ c ∈ after, c ≠ 32

/-! ## `strtok` -/

theorem strtok_blank (s : Bytes) : strtok (32 :: s) = strtok s := by
  simp [strtok]

/-- A token starts at the first byte that is no blank. -/
theorem strtok_word {c : UInt8} (hc : c ≠ 32) (s : Bytes) :
    strtok (c :: s) = some (c :: s.takeWhile (· ≠ 32), (s.dropWhile (· ≠ 32)).drop 1) := by
  simp [strtok, hc]

/-- There is a token unless all bytes are blanks. -/
theorem strtok_isSome_iff (s : Bytes) : (strtok s).isSome = true ↔ ∃ c ∈ s, c ≠ 32 := by
  induction s with
  | nil => simp [strtok]
  | cons c s ih =>
      by_cases hc : c = 32
      · subst hc
        rw [strtok_blank, ih]
        simp
      · simp [strtok_word hc, hc]

/-- What is left behind a token comes after a blank, and the token before that. -/
theorem strtok_rest {s token rest : Bytes} (h : strtok s = some (token, rest)) (hrest : rest ≠ []) :
    ∃ before, s = before ++ 32 :: rest ∧ ∃ c ∈ before, c ≠ 32 := by
  induction s with
  | nil => cases h
  | cons c s ih =>
      by_cases hc : c = 32
      · subst hc
        rw [strtok_blank] at h
        obtain ⟨before, rfl, d, hd, hne⟩ := ih h
        exact ⟨32 :: before, rfl, d, List.mem_cons_of_mem _ hd, hne⟩
      · rw [strtok_word hc, Option.some.injEq, Prod.mk.injEq] at h
        obtain ⟨-, hafter⟩ := h
        cases hdrop : s.dropWhile (· ≠ 32) with
        | nil =>
            rw [hdrop] at hafter
            exact absurd hafter.symm hrest
        | cons d tail =>
            have hd : d = 32 := by
              have hhead := List.head_dropWhile_not (p := (· ≠ (32 : UInt8))) (l := s)
                (by rw [hdrop]; exact List.cons_ne_nil d tail)
              simpa only [hdrop, List.head_cons, decide_eq_false_iff_not, not_not] using hhead
            rw [hdrop, List.drop_one, List.tail_cons] at hafter
            subst hd hafter
            refine ⟨c :: s.takeWhile (· ≠ 32), ?_, c, List.mem_cons_self, hc⟩
            rw [List.cons_append, ← hdrop, List.takeWhile_append_dropWhile]

/-- Whatever follows a blank behind a word is still there after the first token. -/
theorem strtok_keeps {before : Bytes} (after : Bytes) (h : ∃ c ∈ before, c ≠ 32) :
    ∃ token rest, strtok (before ++ 32 :: after) = some (token, rest) ∧ after <:+ rest := by
  induction before with
  | nil => simp at h
  | cons c before ih =>
      by_cases hc : c = 32
      · subst hc
        rw [List.cons_append, strtok_blank]
        exact ih (by simpa using h)
      · refine ⟨_, _, strtok_word hc (before ++ 32 :: after), ?_⟩
        rw [List.dropWhile_append]
        cases hdrop : before.dropWhile (· ≠ 32) with
        | nil => simp
        | cons d tail =>
            simp only [List.isEmpty_cons, Bool.false_eq_true, if_false, List.cons_append,
              List.drop_one, List.tail_cons]
            exact (List.suffix_cons 32 after).trans (List.suffix_append tail _)

/-- Both tokens are there exactly when a blank stands between two words. -/
theorem request_tokens_iff (s : Bytes) : (requestTokens s).isSome = true ↔ TwoWords s := by
  constructor
  · intro h
    unfold requestTokens at h
    cases hfirst : strtok s with
    | none => simp [hfirst] at h
    | some first =>
        obtain ⟨token, rest⟩ := first
        simp only [hfirst, Option.isSome_map] at h
        obtain ⟨d, hd, hne⟩ := (strtok_isSome_iff rest).mp h
        obtain ⟨before, hs, hbefore⟩ := strtok_rest hfirst (List.ne_nil_of_mem hd)
        exact ⟨before, rest, hs, hbefore, d, hd, hne⟩
  · rintro ⟨before, after, rfl, hbefore, c, hc, hne⟩
    obtain ⟨token, rest, hfirst, hsuffix⟩ := strtok_keeps after hbefore
    have hsecond := (strtok_isSome_iff rest).mpr ⟨c, hsuffix.subset hc, hne⟩
    simpa only [requestTokens, hfirst, Option.isSome_map] using hsecond

/-! ## The line that `Readline` left in the buffer -/

/-- Both tokens of a line are there exactly when in its C string a blank stands between two words.
For every stream of bytes and all ways in which `Readline` ends with a positive return value: the
two calls of `strtok` return a token each, and so the loop body passes none that is missing to
`printf`, `strcmp` or `SendData`, if and only if in the first line of the stream, up to its first
NUL, a blank stands between two words. -/
theorem tokens_present_iff (env : Env) (r : Reader) (hret : 0 < (readline 1500 r).1.ret) :
    ((requestTokens (cstr (readline 1500 r).1.stored)).isSome = true ∧
        handleLine env (readline 1500 r).1 ≠ .crash) ↔
      TwoWords (requestLine r.avail) := by
  have hline : cstr (readline 1500 r).1.stored = requestLine r.avail := by
    rw [readline_line, requestLine]
  have hparse : handleLine env (readline 1500 r).1 = parseRequest env (requestLine r.avail) := by
    rw [handleLine, if_neg (by omega), if_neg (by omega), hline]
  rw [hparse, hline, ← request_tokens_iff, parse_request_eq]
  cases requestTokens (requestLine r.avail) <;> simp

/-- A client's socket with one chunk in it. -/
def lineReader (chunk : Chunk UInt8 100) : Reader :=
  ⟨.initial, ⟨[.data chunk], .fail .eagain⟩⟩

/-- A line with a method and a file name. -/
def shortLine : Chunk UInt8 100 :=
  ⟨ascii "GET /t \n", by decide, by decide⟩

/-- Both tokens of a line with a method and a file name are there. -/
theorem tokens_present_short :
    (requestTokens (cstr (readline 1500 (lineReader shortLine)).1.stored)).isSome = true ∧
      handleLine pipeEnv (readline 1500 (lineReader shortLine)).1 ≠ .crash :=
  (tokens_present_iff pipeEnv (lineReader shortLine) (by decide)).mpr
    ⟨ascii "GET", ascii "/t \n", by decide, ⟨71, by decide, by decide⟩, ⟨47, by decide, by decide⟩⟩

/-- An empty line has no token. -/
theorem tokens_missing :
    ¬ ∀ (env : Env) (r : Reader), 0 < (readline 1500 r).1.ret →
      (requestTokens (cstr (readline 1500 r).1.stored)).isSome = true ∧
        handleLine env (readline 1500 r).1 ≠ .crash := by
  intro h
  exact absurd (h pipeEnv (lineReader ⟨[10], by decide, by decide⟩) (by decide)).1 (by decide)

end UnixNet.EpollWeb
