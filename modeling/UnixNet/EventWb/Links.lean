import UnixNet.Browser
import UnixNet.EventWb.Framing

/-!
# Following the links of a directory page

`send_dir` writes the name of an entry into its link as it is, and `http_request` decodes the
path of every request. So a link leads to its entry if the decoder leaves the name alone, which it
does if and only if no escape is in it (`link_survives_iff`).
-/

namespace UnixNet.EventWb

open NetLib UnixNet.Pub UnixNet.Bufferevent

/-- What `send_dir` writes into the link to an entry. -/
def linkText (dent : DirEnt) : Bytes :=
  if dent.dType = dtDir then dent.dName ++ [47] else dent.dName

/-- A link text that is sent back behind a directory is decoded to that of the entry, and opens the
entry: in a path that starts with a slash and is not cut short by a NUL. -/
structure LeadsBack (env : Env) (dir text : Bytes) (dent : DirEnt) : Prop where
  decoded : strdecode (dir ++ 47 :: text) = strdecode dir ++ 47 :: linkText dent
  opened : (dir ++ [47]).head? = some 47 → 0 ∉ strdecode dir →
    ∃ file, (httpRequest env (dir ++ 47 :: text)).head? = some (.stat file) ∧
      steps 47 46 file = steps 47 46 (strdecode dir) ++ steps 47 46 dent.dName

/-- The line of an entry has the link text in it. -/
theorem entry_line_link {env : Env} {i : Nat} {dent : DirEnt} {line : Bytes}
    (h : entryLine env i dent = some line) :
    ∃ rest, line = ascii "<li><a href=" ++ 39 :: (linkText dent ++ 39 :: rest) := by
  unfold entryLine at h
  unfold linkText
  split at h
  · next hdir =>
      obtain rfl := Option.some.inj h
      rw [if_pos hdir]
      exact ⟨62 :: (padLeft 32 dent.dName ++ (ascii "</a>   " ++
        (padLeft 8 (decimalInt (entrySize env i dent.dName)) ++ ascii "</li>"))), by
          simp [dirLine, ascii, charBytes]⟩
  · next hdir =>
      split at h
      · obtain rfl := Option.some.inj h
        rw [if_neg hdir]
        exact ⟨62 :: (padLeft 32 dent.dName ++ (ascii "</a>     " ++
          (padLeft 8 (decimalInt (entrySize env i dent.dName)) ++ ascii "</li>"))), by
            simp [fileLine, ascii, charBytes]⟩
      · cases h

/-- What a browser reads in the line of an entry: the link text up to its first quote. -/
theorem href_of_entry_line {env : Env} {i : Nat} {dent : DirEnt} {line : Bytes}
    (h : entryLine env i dent = some line) :
    hrefOf 39 line = (linkText dent).takeWhile (· ≠ 39) := by
  obtain ⟨rest, rfl⟩ := entry_line_link h
  exact href_of_eq (by decide) (linkText dent) rest

/-- The decoder leaves a link text alone if no escape is in the name. -/
theorem strdecode_link_text_iff (dent : DirEnt) :
    strdecode (linkText dent) = linkText dent ↔ ¬ HasEscape dent.dName := by
  rw [← strdecode_eq_self_iff]
  unfold linkText
  split
  · rw [strdecode_append_slash]
    exact List.append_left_inj [47]
  · rfl

/-- The name of an entry and the link text have the same quotes. -/
theorem quote_mem_link_text_iff (dent : DirEnt) :
    (39 : UInt8) ∈ linkText dent ↔ 39 ∈ dent.dName := by
  unfold linkText
  split
  · simp
  · rfl

/-- A link text goes through the same steps as the name. -/
theorem steps_link_text (dent : DirEnt) :
    steps 47 46 (linkText dent) = steps 47 46 dent.dName := by
  unfold linkText
  split
  · rw [steps_append]
    simp [steps, moving, segmentKind]
  · rfl

/-- `http_request` looks up the decoded path, up to redundant slashes and dot segments. -/
theorem str_path_steps {path rest : Bytes} (h : cstr (strdecode path) = 47 :: rest) :
    steps 47 46 (strPath path) = steps 47 46 (47 :: rest) := by
  simp only [strPath, h]
  split
  · next hroot =>
      rcases hroot with hroot | hroot
      · rw [hroot]
        decide
      · rw [hroot]
        decide
  · rw [cstr_drop_one h, steps_sep_cons]

/-- Link texts have no NUL. -/
theorem nul_not_mem_link_text (dent : DirEnt) : (0 : UInt8) ∉ linkText dent := by
  unfold linkText
  split
  · simpa using dent.noNul
  · exact dent.noNul

/-- A link text that is decoded to that of the entry opens the entry. -/
theorem LeadsBack.of_decoded {env : Env} {dir text : Bytes} {dent : DirEnt}
    (h : strdecode (dir ++ 47 :: text) = strdecode dir ++ 47 :: linkText dent) :
    LeadsBack env dir text dent := by
  refine ⟨h, fun hroot hnul => ⟨_, http_request_head env _, ?_⟩⟩
  have hcstr : cstr (strdecode (dir ++ 47 :: text)) = strdecode dir ++ 47 :: linkText dent := by
    rw [h]
    refine cstr_eq_self ?_
    simp only [List.mem_append, List.mem_cons, not_or]
    exact ⟨hnul, by decide, nul_not_mem_link_text dent⟩
  -- the decoded path starts with a slash, since the path does
  have hstart : ∃ rest, strdecode dir ++ 47 :: linkText dent = 47 :: rest := by
    cases dir with
    | nil => exact ⟨_, rfl⟩
    | cons c dir =>
        obtain rfl : c = 47 := Option.some.inj hroot
        rw [strdecode_cons (by decide)]
        exact ⟨_, rfl⟩
  obtain ⟨rest, hrest⟩ := hstart
  rw [str_path_steps (hcstr.trans hrest), ← hrest, steps_append, steps_link_text]

/-- A text leads back exactly if it is decoded to the link text. -/
theorem leads_back_iff {env : Env} {dir text : Bytes} {dent : DirEnt} :
    LeadsBack env dir text dent ↔ strdecode text = linkText dent := by
  constructor
  · intro h
    have hdecoded := h.decoded
    rw [strdecode_append_slash, List.append_right_inj] at hdecoded
    exact (List.cons.inj hdecoded).2
  · intro h
    refine .of_decoded ?_
    rw [strdecode_append_slash, h]

/-- A link leads back to its entry exactly if no escape is in the name of the entry. For every
entry that has a line, behind every directory path: the text that `send_dir` puts into the link is
decoded to the name again, followed by a slash for a directory, if and only if the name has no `%`
in front of two hexadecimal digits. The text that is read in the line ends at the first quote, so
it is decoded to the name if and only if moreover no quote is in the name. -/
theorem link_survives_iff {env : Env} {i : Nat} {dent : DirEnt} {line : Bytes}
    (h : entryLine env i dent = some line) (dir : Bytes) :
    (LeadsBack env dir (linkText dent) dent ↔ ¬ HasEscape dent.dName) ∧
      (LeadsBack env dir (hrefOf 39 line) dent ↔ ¬ HasEscape dent.dName ∧ 39 ∉ dent.dName) := by
  refine ⟨leads_back_iff.trans (strdecode_link_text_iff dent), leads_back_iff.trans ?_⟩
  rw [href_of_entry_line h, ← strdecode_link_text_iff, ← quote_mem_link_text_iff]
  constructor
  · intro hdecoded
    -- a text that is cut at a quote is shorter, and stays so
    have hwhole : (linkText dent).takeWhile (· ≠ 39) = linkText dent := by
      have hle := length_strdecode_le ((linkText dent).takeWhile (· ≠ 39))
      rw [hdecoded] at hle
      exact (List.takeWhile_prefix _).eq_of_length_le hle
    rw [hwhole] at hdecoded
    exact ⟨hdecoded, (take_while_quote_iff 39 _).mp hwhole⟩
  · intro ⟨hdecoded, hquote⟩
    rw [(take_while_quote_iff 39 _).mpr hquote, hdecoded]

/-- The link to a directory `a` leads back to it. -/
theorem link_survives_plain :
    let dent : DirEnt := ⟨ascii "a", dtDir, by decide, by decide⟩
    LeadsBack eventRoot [] (linkText dent) dent :=
  (link_survives_iff (i := 0) rfl []).1.mpr ((strdecode_eq_self_iff _).mp rfl)

/-- The name `a%41` is decoded to `aA`. -/
theorem link_decoded_away :
    ¬ ∀ (env : Env) (i : Nat) (dent : DirEnt) (line dir : Bytes),
      entryLine env i dent = some line → LeadsBack env dir (linkText dent) dent := by
  intro h
  have hback := h eventRoot 0 ⟨ascii "a%41", dtReg, by decide, by decide⟩ _ [] rfl
  exact absurd hback.decoded (by decide)

end UnixNet.EventWb
