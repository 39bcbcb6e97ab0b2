import UnixNet.Log.Lifecycle

/-!
# Opening the log fails halfway

`msgLogOpen` opens the file for messages and then the one for warnings. When one of them is open and
the other one is not, it returns -1 and leaves the open one as it is; `open_all_or_nothing_iff` says
when that happens.
-/

namespace UnixNet.Log

open NetLib

/-- If -1 is returned, both pointers are null, and the streams that are open are those that were
open before. -/
def AllOrNothing (s : Logger) (result : Int × Logger) : Prop :=
  result.1 = -1 → result.2.msgfile = none ∧ result.2.wanfile = none ∧
    openFiles result.2.calls = openFiles s.calls

variable {s : Logger} {ident mpre mdate wpre wdate : Bytes} {sys : Sys}

/-- A failing `fopen` opens nothing. -/
theorem open_files_failed (s : Logger) (name : Bytes) :
    openFiles (s.call (.fopen name none)).calls = openFiles s.calls :=
  open_files_concat _ _

/-- The result when a pointer that is not null is left behind. -/
theorem not_all_or_nothing {result : Int × Logger} (hret : result.1 = -1)
    (hopen : result.2.msgfile ≠ none ∨ result.2.wanfile ≠ none) : ¬ AllOrNothing s result := by
  intro h
  obtain ⟨hmsg, hwan, -⟩ := h hret
  rcases hopen with hne | hne
  · exact hne hmsg
  · exact hne hwan

/-- The message file cannot be opened: the function returns at once. -/
theorem msg_log_open_msg_failed (hmsg : s.msgfile = none) (hwan : s.wanfile = none)
    (hmpre : mpre ≠ []) (hfails : sys.msgOpens = false) :
    AllOrNothing s (s.msgLogOpen ident mpre mdate wpre wdate sys) := by
  have hresult : s.msgLogOpen ident mpre mdate wpre wdate sys =
      (-1, { s.call (.fopen (openfilename sys mpre mdate) none) with msgfile := none }) := by
    simp [Logger.msgLogOpen, Logger.openFile, Logger.fopen, hmsg, hmpre, hfails]
  rw [hresult]
  exact fun _ => ⟨rfl, hwan, open_files_failed s _⟩

/-- `msgLogOpen` from the `if` for the warning file on. -/
def Logger.openRest (s : Logger) (ident wpre wdate : Bytes) (sys : Sys) : Int × Logger :=
  let (goes, wanfile, s) :=
    s.openFile s.wanfile (openfilename sys wpre wdate) (wpre ≠ []) sys.wanOpens
  let s := { s with wanfile := wanfile }
  if goes then s.ready ident sys else (-1, s)

/-- Both files are open in the end. -/
theorem open_rest_both (hmsg : s.msgfile ≠ none) (hwan : s.wanfile = none) (hwpre : wpre ≠ [])
    (hopens : sys.wanOpens = true) : (s.openRest ident wpre wdate sys).1 = 0 := by
  obtain ⟨f, hf⟩ := Option.ne_none_iff_exists'.mp hmsg
  simp [Logger.openRest, Logger.openFile, Logger.fopen, Logger.call, Logger.ready, hf, hwan, hwpre,
    hopens]

/-- The warning file is open in the end, the message file is not. -/
theorem open_rest_wan (ident wdate : Bytes) (hmsg : s.msgfile = none) (hwan : s.wanfile = none)
    (hwpre : wpre ≠ []) (hopens : sys.wanOpens = true) :
    (s.openRest ident wpre wdate sys).1 = -1 ∧
      (s.openRest ident wpre wdate sys).2.wanfile ≠ none := by
  simp [Logger.openRest, Logger.openFile, Logger.fopen, Logger.call, Logger.ready, hmsg, hwan,
    hwpre, hopens]

/-- The warning file is not opened. -/
theorem open_rest_none (ident wdate : Bytes) (hwan : s.wanfile = none)
    (hnot : ¬ (wpre ≠ [] ∧ sys.wanOpens = true)) :
    (s.openRest ident wpre wdate sys).1 = -1 ∧
      (s.openRest ident wpre wdate sys).2.msgfile = s.msgfile ∧
        (s.openRest ident wpre wdate sys).2.wanfile = none ∧
          openFiles (s.openRest ident wpre wdate sys).2.calls = openFiles s.calls := by
  by_cases hwpre : wpre = []
  · have hready : s.ready ident sys = (-1, s) := by
      cases hmsg : s.msgfile with
      | none => simp [Logger.ready, hmsg]
      | some f => simp [Logger.ready, hmsg, hwan]
    have hresult : s.openRest ident wpre wdate sys = (-1, s) := by
      have hsame : { s with wanfile := none } = s := by
        rw [← hwan]
      simp [Logger.openRest, Logger.openFile, hwan, hwpre, hsame, hready]
    rw [hresult]
    exact ⟨rfl, rfl, hwan, rfl⟩
  · have hfails : sys.wanOpens = false := by simpa [hwpre] using hnot
    have hresult : s.openRest ident wpre wdate sys =
        (-1, { s.call (.fopen (openfilename sys wpre wdate) none) with wanfile := none }) := by
      simp [Logger.openRest, Logger.openFile, Logger.fopen, hwan, hwpre, hfails]
    rw [hresult]
    exact ⟨rfl, rfl, rfl, open_files_failed s _⟩

/-- The message file is opened: all depends on the warning file. -/
theorem msg_log_open_msg_opened (hmsg : s.msgfile = none) (hwan : s.wanfile = none)
    (hmpre : mpre ≠ []) (hopens : sys.msgOpens = true) :
    AllOrNothing s (s.msgLogOpen ident mpre mdate wpre wdate sys) ↔
      wpre ≠ [] ∧ sys.wanOpens = true := by
  obtain ⟨t, ht, htmsg, htwan⟩ : ∃ t : Logger, s.msgLogOpen ident mpre mdate wpre wdate sys =
      t.openRest ident wpre wdate sys ∧ t.msgfile ≠ none ∧ t.wanfile = none := by
    refine ⟨{ s.call (.fopen (openfilename sys mpre mdate) (some s.created)) with
      created := s.created + 1, msgfile := some s.created }, ?_, by simp, hwan⟩
    simp [Logger.msgLogOpen, Logger.openRest, Logger.openFile, Logger.fopen, hmsg, hmpre, hopens]
  rw [ht]
  by_cases hboth : wpre ≠ [] ∧ sys.wanOpens = true
  · refine iff_of_true (fun hret => ?_) hboth
    rw [open_rest_both htmsg htwan hboth.1 hboth.2] at hret
    exact absurd hret (by decide)
  · -- the message file stays open, and -1 is returned
    obtain ⟨hret, hsame, -⟩ := open_rest_none ident wdate htwan hboth
    refine iff_of_false (not_all_or_nothing hret (.inl ?_)) hboth
    rw [hsame]
    exact htmsg

/-- No message file is wanted: -1 is returned, and the warning file stays open if it is opened. -/
theorem msg_log_open_no_msg (hmsg : s.msgfile = none) (hwan : s.wanfile = none)
    (hmpre : mpre = []) :
    AllOrNothing s (s.msgLogOpen ident mpre mdate wpre wdate sys) ↔
      ¬ (wpre ≠ [] ∧ sys.wanOpens = true) := by
  have hrest : s.msgLogOpen ident mpre mdate wpre wdate sys = s.openRest ident wpre wdate sys := by
    have hsame : { s with msgfile := none } = s := by
      rw [← hmsg]
    simp [Logger.msgLogOpen, Logger.openRest, Logger.openFile, hmsg, hmpre, hsame]
  rw [hrest]
  by_cases hopened : wpre ≠ [] ∧ sys.wanOpens = true
  · obtain ⟨hret, hne⟩ := open_rest_wan ident wdate hmsg hwan hopened.1 hopened.2
    exact iff_of_false (not_all_or_nothing hret (.inr hne)) (not_not_intro hopened)
  · obtain ⟨-, hsame, hnone, hcalls⟩ := open_rest_none ident wdate hwan hopened
    exact iff_of_true (fun _ => ⟨hsame.trans hmsg, hnone, hcalls⟩) hopened

/-- `msgLogOpen` returns 0 or -1. -/
theorem msg_log_open_ret (s : Logger) (ident mpre mdate wpre wdate : Bytes) (sys : Sys) :
    (s.msgLogOpen ident mpre mdate wpre wdate sys).1 = 0 ∨
      (s.msgLogOpen ident mpre mdate wpre wdate sys).1 = -1 := by
  have hready : ∀ t : Logger, (t.ready ident sys).1 = 0 ∨ (t.ready ident sys).1 = -1 := by
    intro t
    unfold Logger.ready
    split
    · exact .inl rfl
    · exact .inr rfl
  unfold Logger.msgLogOpen
  dsimp only
  split
  · split
    · exact hready _
    · exact .inr rfl
  · exact .inr rfl

/-- `msgInit` leaves the pointers and the streams as `msgLogOpen` does, and returns what it does. -/
theorem msg_init_all_or_nothing (s : Logger) (pName : Bytes) (sys : Sys) :
    AllOrNothing s (s.msgInit pName sys) ↔
      AllOrNothing s (s.msgLogOpen pName (ascii "/home/itheima/log/tcpsvr") (ascii "%y%m")
        (ascii "/home/itheima/log/log.sys_warn") [] sys) := by
  have hret := msg_log_open_ret s pName (ascii "/home/itheima/log/tcpsvr") (ascii "%y%m")
    (ascii "/home/itheima/log/log.sys_warn") [] sys
  unfold Logger.msgInit
  generalize s.msgLogOpen pName (ascii "/home/itheima/log/tcpsvr") (ascii "%y%m")
    (ascii "/home/itheima/log/log.sys_warn") [] sys = opened at hret
  obtain ⟨ret, t⟩ := opened
  rcases hret with rfl | rfl
  · rfl
  · rfl

/-- With both pointers null, opening the log is all or nothing if and only if a message file that is
opened does not stay without a warning file, and the warning file is not opened when no message file
is wanted; for `msgInit`, if and only if it does not open the message file only. -/
theorem open_all_or_nothing_iff (s : Logger) (hmsg : s.msgfile = none) (hwan : s.wanfile = none) :
    (∀ (ident mpre mdate wpre wdate : Bytes) (sys : Sys),
      AllOrNothing s (s.msgLogOpen ident mpre mdate wpre wdate sys) ↔
        (mpre ≠ [] → sys.msgOpens = true → wpre ≠ [] ∧ sys.wanOpens = true) ∧
          (mpre = [] → ¬ (wpre ≠ [] ∧ sys.wanOpens = true))) ∧
      ∀ (pName : Bytes) (sys : Sys), AllOrNothing s (s.msgInit pName sys) ↔
        (sys.msgOpens = true → sys.wanOpens = true) := by
  have hopen : ∀ (ident mpre mdate wpre wdate : Bytes) (sys : Sys),
      AllOrNothing s (s.msgLogOpen ident mpre mdate wpre wdate sys) ↔
        (mpre ≠ [] → sys.msgOpens = true → wpre ≠ [] ∧ sys.wanOpens = true) ∧
          (mpre = [] → ¬ (wpre ≠ [] ∧ sys.wanOpens = true)) := by
    intro ident mpre mdate wpre wdate sys
    by_cases hmpre : mpre = []
    · simpa only [hmpre, ne_eq, not_true_eq_false, false_implies, true_and, true_implies] using
        msg_log_open_no_msg hmsg hwan hmpre
    · cases hopens : sys.msgOpens with
      | false =>
          refine iff_of_true (msg_log_open_msg_failed hmsg hwan hmpre hopens) ⟨?_, ?_⟩
          · exact fun _ htrue => absurd htrue (by simp)
          · exact fun hempty => absurd hempty hmpre
      | true =>
          simpa only [hmpre, ne_eq, not_false_eq_true, true_implies, false_implies, and_true] using
            msg_log_open_msg_opened hmsg hwan hmpre hopens
  refine ⟨hopen, fun pName sys => ?_⟩
  have hmpre : ascii "/home/itheima/log/tcpsvr" ≠ [] := by decide
  have hwpre : ascii "/home/itheima/log/log.sys_warn" ≠ [] := by decide
  -- `msgInit` wants both files
  rw [msg_init_all_or_nothing, hopen]
  constructor
  · intro h hopens
    exact (h.1 hmpre hopens).2
  · intro h
    exact ⟨fun _ hopens => ⟨hwpre, h hopens⟩, fun hempty => absurd hempty hmpre⟩

/-- A system on which the file for messages cannot be opened. -/
def noMessages : Sys :=
  { plainSys with msgOpens := false }

/-- There the first `msgInit` returns -1, and nothing is open. -/
theorem open_all_or_nothing_no_messages :
    (Logger.start.msgInit (ascii "p") noMessages).1 = -1 ∧
      AllOrNothing .start (Logger.start.msgInit (ascii "p") noMessages) := by
  refine ⟨by decide, ((open_all_or_nothing_iff .start rfl rfl).2 (ascii "p") noMessages).mpr ?_⟩
  intro hopens
  exact absurd hopens Bool.false_ne_true

/-- A system on which the file for warnings cannot be opened. -/
def noWarnings : Sys :=
  { plainSys with wanOpens := false }

/-- The first `msgInit` returns -1 and leaves the file for messages open. -/
theorem not_open_all_or_nothing :
    ¬ ∀ s : Logger, s.msgfile = none → s.wanfile = none →
      (∀ (ident mpre mdate wpre wdate : Bytes) (sys : Sys),
        AllOrNothing s (s.msgLogOpen ident mpre mdate wpre wdate sys)) ∧
      ∀ (pName : Bytes) (sys : Sys), AllOrNothing s (s.msgInit pName sys) := by
  intro h
  have hinit : AllOrNothing .start (Logger.start.msgInit (ascii "p") noWarnings) :=
    (h .start rfl rfl).2 (ascii "p") noWarnings
  have hopen := (msg_init_all_or_nothing .start (ascii "p") noWarnings).mp hinit
  have hboth := (msg_log_open_msg_opened rfl rfl (by decide) rfl).mp hopen
  exact absurd hboth.2 (by decide)

end UnixNet.Log
