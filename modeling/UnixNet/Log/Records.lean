import UnixNet.Log.Lifecycle

/-!
# What is in the log files

A log file is a text of lines. The module writes a line with each `msglog` whose type has the bit of
the file: the prefix that is set up at that time, and the message. `log_records` says that from the
opening on every message is one entry of each stream that it is for, that the entries are in the
order of the calls, and that a reader gets them back by cutting the text into lines. The streams are
opened for appending, so the entries come behind what a file had before, and they are not mixed with
others if the two names are different. What the calls copy has to fit into the arrays of the module
(`Logger.AllFit`).
-/

namespace UnixNet.Log

open NetLib

/-- The two files, `msgfile` and `wanfile`. -/
inductive LogFile where
  | msg
  | wan
  deriving DecidableEq

/-- The bit that a message for the file has in its type. -/
def LogFile.bit : LogFile → BitVec 32
  | msg => msgInfo
  | wan => msgWarn

def Logger.file (s : Logger) : LogFile → Option Nat
  | .msg => s.msgfile
  | .wan => s.wanfile

/-- The prefix of a line for a file. -/
def Logger.prefixFor (s : Logger) (sys : Sys) : LogFile → Bytes
  | .msg => logPrefix sys s.msgdatefmt s.msgopt s.identName
  | .wan => logPrefix sys s.wandatefmt s.wanopt s.identName

/-- A prefix and a message. -/
structure Entry where
  start : Bytes
  text : Bytes
  deriving DecidableEq

/-- The line of an entry, without its newline. -/
def Entry.line (e : Entry) : Bytes :=
  e.start ++ ascii ": " ++ e.text

/-- The entry that a call adds to a file, if it adds one. -/
def Logger.entry (s : Logger) (k : LogFile) : LogCall → List Entry
  | .msglog mtype text sys => if mtype &&& k.bit ≠ 0 then [⟨s.prefixFor sys k, text⟩] else []
  | _ => []

/-- The entries that calls add to a file. -/
def Logger.entries (s : Logger) (k : LogFile) : List LogCall → List Entry
  | [] => []
  | c :: rest => s.entry k c ++ (s.step c).entries k rest

/-- The message of a call for a file. -/
def LogCall.message (k : LogFile) : LogCall → Option Bytes
  | .msglog mtype text _ => if mtype &&& k.bit ≠ 0 then some text else none
  | _ => none

/-- The name of a log file and what `strftime` makes of its date format have room. -/
def NameFits (sys : Sys) (pre date : Bytes) : Prop :=
  (openfilename sys pre date).length < 200 ∧ (date ≠ [] → (sys.strftime date).length < 100)

/-- What a `msgLogOpen` copies has room, as has the beginning of the line that it writes. -/
def OpeningFits (ident mpre mdate wpre wdate : Bytes) (sys : Sys) : Prop :=
  (NameFits sys mpre mdate ∧ NameFits sys wpre wdate) ∧ ident.length < 100 ∧
    (logPrefix sys (ascii "%m-%d %H:%M:%S") (logProcname ||| logPid) ident).length < 1024

/-- What a call copies has room in the arrays of the module. -/
def Logger.Fits (s : Logger) : LogCall → Prop
  | .msgInit pName sys =>
      OpeningFits pName (ascii "/home/itheima/log/tcpsvr") (ascii "%y%m")
        (ascii "/home/itheima/log/log.sys_warn") [] sys
  | .msgLogOpen ident mpre mdate wpre wdate sys => OpeningFits ident mpre mdate wpre wdate sys
  | .msglog mtype _ sys => ∀ k : LogFile, mtype &&& k.bit ≠ 0 → (s.prefixFor sys k).length < 1024
  | .msgLogFormat _ mdfmt _ wdfmt => mdfmt.length < 100 ∧ wdfmt.length < 100
  | .msgLogClose => True

/-- What any of the calls copies has room. -/
def Logger.AllFit (s : Logger) : List LogCall → Prop
  | [] => True
  | c :: rest => s.Fits c ∧ (s.step c).AllFit rest

/-- The strings of the module end in their arrays. -/
structure Logger.InArrays (s : Logger) : Prop where
  msgdatefmt : s.msgdatefmt.length < 100
  wandatefmt : s.wandatefmt.length < 100
  identName : s.identName.length < 100

/-- The call is one of those between the opening of the log and its end. -/
def LogCall.Working : LogCall → Prop
  | .msglog _ _ _ => True
  | .msgLogFormat _ _ _ _ => True
  | _ => False

/-- Entries as they are written. -/
def logText (entries : List Entry) : Bytes :=
  ((entries.map Entry.line).map fun line => line ++ [10]).flatten

variable {s : Logger} {c : LogCall} {calls after : List LogCall} {k : LogFile} {f : Nat}

@[simp] theorem log_text_nil : logText [] = [] := rfl

theorem log_text_append (first second : List Entry) :
    logText (first ++ second) = logText first ++ logText second := by
  rw [logText, List.map_append, List.map_append, List.flatten_append]
  rfl

/-- An entry as `msglog` prints it. -/
theorem log_text_singleton (e : Entry) : logText [e] = logLine e.start e.text := by
  rw [logText, List.map_singleton, List.map_singleton, List.flatten_singleton, Entry.line, logLine]
  rfl

/-! ## The arrays -/

/-- Opening files changes none of the strings. -/
theorem Logger.InArrays.openFile (h : s.InArrays) (file : Option Nat) (name : Bytes)
    (wanted opens : Bool) : (s.openFile file name wanted opens).2.2.InArrays := by
  unfold Logger.openFile Logger.fopen
  split
  · split
    · exact ⟨h.msgdatefmt, h.wandatefmt, h.identName⟩
    · exact ⟨h.msgdatefmt, h.wandatefmt, h.identName⟩
  · exact h

/-- The strings that are set when the files are open. -/
theorem Logger.InArrays.ready (h : s.InArrays) {ident : Bytes} (hident : ident.length < 100)
    (sys : Sys) : (s.ready ident sys).2.InArrays := by
  have hformat : (ascii "%m-%d %H:%M:%S").length < 100 := by decide
  unfold Logger.ready
  split
  · rw [msglog_info]
    exact ⟨hformat, hformat, hident⟩
  · exact h

/-- `msgLogOpen` copies the name of the process. -/
theorem Logger.InArrays.msgLogOpen (h : s.InArrays) {ident : Bytes} (hident : ident.length < 100)
    (mpre mdate wpre wdate : Bytes) (sys : Sys) :
    (s.msgLogOpen ident mpre mdate wpre wdate sys).2.InArrays := by
  have hmsg := h.openFile s.msgfile (openfilename sys mpre mdate) (mpre ≠ []) sys.msgOpens
  unfold Logger.msgLogOpen
  generalize s.openFile s.msgfile (openfilename sys mpre mdate) (mpre ≠ []) sys.msgOpens =
    opened at hmsg ⊢
  obtain ⟨goes, msgfile, t⟩ := opened
  have ht : Logger.InArrays { t with msgfile := msgfile } :=
    ⟨hmsg.msgdatefmt, hmsg.wandatefmt, hmsg.identName⟩
  have hwan := ht.openFile t.wanfile (openfilename sys wpre wdate) (wpre ≠ []) sys.wanOpens
  simp only
  split
  · generalize Logger.openFile { t with msgfile := msgfile } t.wanfile
      (openfilename sys wpre wdate) (wpre ≠ []) sys.wanOpens = opened at hwan ⊢
    obtain ⟨goes, wanfile, u⟩ := opened
    have hu : Logger.InArrays { u with wanfile := wanfile } :=
      ⟨hwan.msgdatefmt, hwan.wandatefmt, hwan.identName⟩
    simp only
    split
    · exact hu.ready hident sys
    · exact hu
  · exact ht

/-- `msgLogFormat` copies the formats. -/
theorem Logger.InArrays.msgLogFormat (h : s.InArrays) {mdfmt wdfmt : Bytes}
    (hmsg : mdfmt.length < 100) (hwan : wdfmt.length < 100) (mopt wopt : BitVec 32) :
    (s.msgLogFormat mopt mdfmt wopt wdfmt).InArrays := by
  refine ⟨?_, ?_, h.identName⟩
  · show (if mdfmt ≠ [] then mdfmt else s.msgdatefmt).length < 100
    split
    · exact hmsg
    · exact h.msgdatefmt
  · show (if wdfmt ≠ [] then wdfmt else s.wandatefmt).length < 100
    split
    · exact hwan
    · exact h.wandatefmt

/-- `msglog` and `msgLogClose` only read the strings. -/
theorem Logger.InArrays.msglog (h : s.InArrays) (mtype : BitVec 32) (text : Bytes) (sys : Sys) :
    (s.msglog mtype text sys).InArrays := by
  have hwarn : ∀ t : Logger, t.InArrays → (t.warn text sys).InArrays := by
    intro t ht
    unfold Logger.warn
    simp only
    split <;> exact ⟨ht.msgdatefmt, ht.wandatefmt, ht.identName⟩
  have hinfo : (if mtype &&& msgInfo ≠ 0 then s.info text sys else s).InArrays := by
    split
    · exact ⟨h.msgdatefmt, h.wandatefmt, h.identName⟩
    · exact h
  unfold Logger.msglog
  simp only
  split
  · exact hwarn _ hinfo
  · exact hinfo

theorem Logger.InArrays.msgLogClose (h : s.InArrays) : s.msgLogClose.InArrays := by
  have hclose : ∀ (t : Logger) (file : Option Nat), t.InArrays → (t.fclose file).InArrays := by
    intro t file ht
    cases file with
    | none => exact ht
    | some f => exact ⟨ht.msgdatefmt, ht.wandatefmt, ht.identName⟩
  exact hclose _ _ (hclose _ _ h)

/-- A call that fits leaves the strings in their arrays. -/
theorem Logger.InArrays.step (h : s.InArrays) (hfits : s.Fits c) : (s.step c).InArrays := by
  cases c with
  | msgInit pName sys =>
      have hopened := h.msgLogOpen hfits.2.1 (ascii "/home/itheima/log/tcpsvr") (ascii "%y%m")
        (ascii "/home/itheima/log/log.sys_warn") [] sys
      simp only [Logger.step, Logger.msgInit]
      split
      · exact hopened.msgLogFormat (by decide) (by decide) _ _
      · exact hopened
  | msgLogOpen ident mpre mdate wpre wdate sys =>
      exact h.msgLogOpen hfits.2.1 mpre mdate wpre wdate sys
  | msglog mtype text sys => exact h.msglog mtype text sys
  | msgLogFormat mopt mdfmt wopt wdfmt => exact h.msgLogFormat hfits.1 hfits.2 mopt wopt
  | msgLogClose => exact h.msgLogClose

/-- Calls that fit leave the strings in their arrays, from the first one on. -/
theorem foldl_in_arrays (h : s.InArrays) (hfits : s.AllFit calls) :
    (calls.foldl Logger.step s).InArrays := by
  induction calls generalizing s with
  | nil => exact h
  | cons c rest ih => exact ih (h.step hfits.1) hfits.2

theorem run_in_arrays (hfits : Logger.start.AllFit calls) : (run calls).InArrays :=
  foldl_in_arrays ⟨by decide, by decide, by decide⟩ hfits

/-- What is said of calls one after the other is said of the later ones where the earlier ones
lead. -/
theorem all_fit_append (s : Logger) (calls after : List LogCall) :
    s.AllFit (calls ++ after) ↔ s.AllFit calls ∧ (calls.foldl Logger.step s).AllFit after := by
  induction calls generalizing s with
  | nil => exact (iff_of_eq (true_and _)).symm
  | cons c rest ih => exact (and_congr_right fun _ => ih (s.step c)).trans and_assoc.symm

/-- The prefixes of the entries have room. -/
theorem entries_fit (hfits : s.AllFit after) (k : LogFile) :
    ∀ e ∈ s.entries k after, e.start.length < 1024 := by
  induction after generalizing s with
  | nil => exact fun e he => absurd he List.not_mem_nil
  | cons c rest ih =>
      intro e he
      rcases List.mem_append.mp he with he | he
      · cases c with
        | msglog mtype text sys =>
            obtain ⟨hbit, heq⟩ := List.mem_ite_nil_right.mp he
            obtain rfl := List.mem_singleton.mp heq
            exact hfits.1 k hbit
        | _ => cases he
      · exact ih hfits.2 e he

/-! ## One call -/

/-- What a file gets from the part of `msglog` for messages. -/
theorem written_info (s : Logger) (text : Bytes) (sys : Sys) (f : Nat) :
    written f (s.info text sys).calls = written f s.calls ++
      if s.msgfile = some f then logText [⟨s.prefixFor sys .msg, text⟩] else [] := by
  rw [Logger.info, Logger.call, written_concat, output_fprintf, log_text_singleton]
  rfl

/-- What a file gets from the part of `msglog` for warnings. The copy on the standard error is in no
file. -/
theorem written_warn (s : Logger) (text : Bytes) (sys : Sys) (f : Nat) :
    written f (s.warn text sys).calls = written f s.calls ++
      if s.wanfile = some f then logText [⟨s.prefixFor sys .wan, text⟩] else [] := by
  have hcopy : ∀ (t : Logger) (line : Bytes),
      written f (t.call (.stderr line)).calls = written f t.calls := by
    intro t line
    rw [Logger.call, written_concat]
    exact List.append_nil _
  have hline : ∀ line, written f (s.call (.fprintf s.wanfile line)).calls =
      written f s.calls ++ if s.wanfile = some f then line else [] := by
    intro line
    rw [Logger.call, written_concat, output_fprintf]
  rw [log_text_singleton]
  unfold Logger.warn
  simp only
  split
  · rw [hcopy, hline]
    rfl
  · exact hline _

/-- What the file of a kind gets from `msglog`, when the files are different. -/
theorem written_msglog (hf : s.file k = some f) (hapart : s.msgfile ≠ s.wanfile)
    (mtype : BitVec 32) (text : Bytes) (sys : Sys) :
    written f (s.msglog mtype text sys).calls =
      written f s.calls ++ logText (s.entry k (.msglog mtype text sys)) := by
  rw [Logger.msglog]
  -- `t` is the log after the part for messages
  generalize ht : (if mtype &&& msgInfo ≠ 0 then s.info text sys else s) = t
  have hsame : t.wanfile = s.wanfile ∧ t.prefixFor sys .wan = s.prefixFor sys .wan := by
    rw [← ht]
    split <;> exact ⟨rfl, rfl⟩
  have hinfo : written f t.calls = written f s.calls ++ if mtype &&& msgInfo ≠ 0 then
      if s.msgfile = some f then logText [⟨s.prefixFor sys .msg, text⟩] else [] else [] := by
    rw [← ht]
    split
    · exact written_info s text sys f
    · exact (List.append_nil _).symm
  have hwarn : written f (if mtype &&& msgWarn ≠ 0 then t.warn text sys else t).calls =
      written f t.calls ++ if mtype &&& msgWarn ≠ 0 then
        if s.wanfile = some f then logText [⟨s.prefixFor sys .wan, text⟩] else [] else [] := by
    split
    · rw [written_warn, hsame.1, hsame.2]
    · exact (List.append_nil _).symm
  refine hwarn.trans ?_
  rw [hinfo, List.append_assoc]
  congr 1
  cases k with
  | msg =>
      have hfile : s.msgfile = some f := hf
      have hother : ¬ s.wanfile = some f := fun h => hapart (hfile.trans h.symm)
      rw [if_neg hother, ite_self, List.append_nil, if_pos hfile, Logger.entry, LogFile.bit]
      split <;> rfl
  | wan =>
      have hfile : s.wanfile = some f := hf
      have hother : ¬ s.msgfile = some f := fun h => hapart (h.trans hfile.symm)
      rw [if_neg hother, ite_self, List.nil_append, if_pos hfile, Logger.entry, LogFile.bit]
      split <;> rfl

/-- What one of the calls between the opening and the end does: it adds its entry to each file, and
leaves the pointers and the open streams as they are. -/
theorem step_entry (hc : c.Working) (hf : s.file k = some f) (hapart : s.msgfile ≠ s.wanfile) :
    written f (s.step c).calls = written f s.calls ++ logText (s.entry k c) ∧
      SameFiles s (s.step c) := by
  cases c with
  | msglog mtype text sys =>
      exact ⟨written_msglog hf hapart mtype text sys, msglog_same s mtype text sys⟩
  | msgLogFormat mopt mdfmt wopt wdfmt => exact ⟨(List.append_nil _).symm, ⟨rfl, rfl, rfl, rfl⟩⟩
  | msgInit pName sys => cases hc
  | msgLogOpen ident mpre mdate wpre wdate sys => cases hc
  | msgLogClose => cases hc

/-! ## A run -/

/-- The message of an entry is that of its call. -/
theorem entry_message (s : Logger) (k : LogFile) (c : LogCall) :
    (s.entry k c).map Entry.text = (c.message k).toList := by
  cases c with
  | msglog mtype text sys =>
      rw [Logger.entry, LogCall.message]
      split <;> rfl
  | _ => rfl

/-- There is an entry for each message, in the order of the calls. -/
theorem entries_messages (s : Logger) (k : LogFile) (calls : List LogCall) :
    (s.entries k calls).map Entry.text = calls.filterMap (LogCall.message k) := by
  induction calls generalizing s with
  | nil => rfl
  | cons c rest ih =>
      rw [Logger.entries, List.map_append, entry_message, ih, List.filterMap_cons]
      cases c.message k with
      | none => rfl
      | some text => rfl

/-- A file gets the entries of the calls one behind the other. -/
theorem run_entries (hafter : ∀ c ∈ after, c.Working) (hf : s.file k = some f)
    (hapart : s.msgfile ≠ s.wanfile) :
    written f (after.foldl Logger.step s).calls =
        written f s.calls ++ logText (s.entries k after) ∧
      SameFiles s (after.foldl Logger.step s) := by
  induction after generalizing s with
  | nil => exact ⟨(List.append_nil _).symm, SameFiles.refl s⟩
  | cons c rest ih =>
      obtain ⟨hc, hrest⟩ := List.forall_mem_cons.mp hafter
      obtain ⟨hwritten, hsame⟩ := step_entry hc hf hapart
      have hfile : (s.step c).file k = some f := by
        cases k with
        | msg => exact hsame.msgfile.trans hf
        | wan => exact hsame.wanfile.trans hf
      obtain ⟨hlater, hsameLater⟩ := ih hrest hfile (by rwa [hsame.msgfile, hsame.wanfile])
      refine ⟨?_, hsame.trans hsameLater⟩
      rw [List.foldl_cons, hlater, hwritten, List.append_assoc, ← log_text_append]
      rfl

/-- Without a close, no file has been closed. -/
theorem not_closed (h : .msgLogClose ∉ calls) : ¬ MsgClosed calls ∧ ¬ WanClosed calls := by
  constructor
  all_goals
    rintro ⟨before, c, rest, rfl, rfl, -⟩
    exact h (List.mem_append_right _ List.mem_cons_self)

/-- The files behind the pointers are different, and open as long as no file was closed. -/
theorem opened_file (hopens : (run calls).Opens c) (hclose : .msgLogClose ∉ calls) (k : LogFile) :
    (run (calls ++ [c])).msgfile ≠ (run (calls ++ [c])).wanfile ∧
      ∃ f, (run (calls ++ [c])).file k = some f ∧ f ∈ openFiles (run (calls ++ [c])).calls := by
  obtain ⟨hmsg, hwan, hc, -⟩ := opens_spec hopens
  have htracked := run_tracked (calls ++ [c])
  have hnever : .msgLogClose ∉ calls ++ [c] := by
    rw [List.mem_append, List.mem_singleton]
    exact not_or.mpr ⟨hclose, hc.symm⟩
  rw [← run_concat] at hmsg hwan
  obtain ⟨m, hm⟩ := Option.ne_none_iff_exists'.mp hmsg
  obtain ⟨w, hw⟩ := Option.ne_none_iff_exists'.mp hwan
  refine ⟨fun h => htracked.apart m hm (h.symm.trans hm), ?_⟩
  cases k with
  | msg => exact ⟨m, hm, (htracked.msg.2 m hm).2.mpr (not_closed hnever).1⟩
  | wan => exact ⟨w, hw, (htracked.wan.2 w hw).2.mpr (not_closed hnever).2⟩

/-- What is in a log file. After an opening that returned 0, let `msglog` and `msgLogFormat` be
called any number of times, with strings that have room in the arrays of the module. Then the stream
is the one that was opened, it is still open, and since the opening it has got one entry for each
message for it, in the order of the calls, with the prefix that was set up at the time of the call.
If no line of it has a newline in it, cutting the text into lines gives the entries. The strings and
the prefixes end in their arrays. -/
theorem log_records {calls after : List LogCall} {c : LogCall} (hopens : (run calls).Opens c)
    (hclose : .msgLogClose ∉ calls) (hafter : ∀ d ∈ after, d.Working)
    (hfits : Logger.start.AllFit (calls ++ c :: after)) (k : LogFile) :
    (∃ f, (run (calls ++ c :: after)).file k = some f ∧
      f ∈ openFiles (run (calls ++ c :: after)).calls ∧
      written f (run (calls ++ c :: after)).calls = written f (run (calls ++ [c])).calls ++
        logText ((run (calls ++ [c])).entries k after)) ∧
      ((run (calls ++ [c])).entries k after).map Entry.text =
        after.filterMap (LogCall.message k) ∧
      ((∀ e ∈ (run (calls ++ [c])).entries k after, 10 ∉ e.line) →
        textLines (logText ((run (calls ++ [c])).entries k after)) =
          ((run (calls ++ [c])).entries k after).map Entry.line) ∧
      (run (calls ++ c :: after)).InArrays ∧
        ∀ e ∈ (run (calls ++ [c])).entries k after, e.start.length < 1024 := by
  obtain ⟨hapart, f, hf, hopen⟩ := opened_file hopens hclose k
  obtain ⟨hwritten, hsame⟩ := run_entries hafter hf hapart
  have hcalls : calls ++ c :: after = (calls ++ [c]) ++ after := by simp
  have hrun : run (calls ++ c :: after) = after.foldl Logger.step (run (calls ++ [c])) := by
    rw [run, run, ← List.foldl_append, ← hcalls]
  have hlater : (run (calls ++ [c])).AllFit after :=
    ((all_fit_append _ _ _).mp (hcalls ▸ hfits)).2
  refine ⟨⟨f, ?_, ?_, ?_⟩, entries_messages _ k after,
    fun h => text_lines_flatten (List.forall_mem_map.mpr h), run_in_arrays hfits,
    entries_fit hlater k⟩
  · rw [hrun]
    cases k with
    | msg => exact hsame.msgfile.trans hf
    | wan => exact hsame.wanfile.trans hf
  · rw [hrun, hsame.opened]
    exact hopen
  · rw [hrun]
    exact hwritten

/-- A message, other options and formats, and then a warning. -/
def messageAndWarning : List LogCall :=
  [.msglog msgInfo (ascii "x") plainSys, .msgLogFormat logPid (ascii "%H") logPerror [],
    .msglog msgWarn (ascii "y") plainSys]

/-- The file for messages gets the message only. -/
theorem log_records_message :
    (∃ f, (run ([] ++ openBoth :: messageAndWarning)).file .msg = some f ∧
      f ∈ openFiles (run ([] ++ openBoth :: messageAndWarning)).calls ∧
      written f (run ([] ++ openBoth :: messageAndWarning)).calls =
        written f (run ([] ++ [openBoth])).calls ++
          logText ((run ([] ++ [openBoth])).entries .msg messageAndWarning)) ∧
      ((run ([] ++ [openBoth])).entries .msg messageAndWarning).map Entry.text =
        messageAndWarning.filterMap (LogCall.message .msg) ∧
      ((∀ e ∈ (run ([] ++ [openBoth])).entries .msg messageAndWarning, 10 ∉ e.line) →
        textLines (logText ((run ([] ++ [openBoth])).entries .msg messageAndWarning)) =
          ((run ([] ++ [openBoth])).entries .msg messageAndWarning).map Entry.line) ∧
      (run ([] ++ openBoth :: messageAndWarning)).InArrays ∧
        ∀ e ∈ (run ([] ++ [openBoth])).entries .msg messageAndWarning, e.start.length < 1024 := by
  have hopens : (run []).Opens openBoth := show (_ : Int) = 0 by decide
  have hopening : Logger.start.Fits openBoth := by
    refine ⟨⟨⟨by decide, ?_⟩, ⟨by decide, ?_⟩⟩, by decide, by decide +kernel⟩
    all_goals exact fun hne => absurd rfl hne
  have hmessage : (Logger.start.step openBoth).AllFit messageAndWarning := by
    refine ⟨?_, ⟨by decide, by decide⟩, ?_, trivial⟩
    · intro k _
      cases k <;> decide +kernel
    · intro k _
      cases k <;> decide +kernel
  refine log_records hopens List.not_mem_nil (fun d hd => ?_) ⟨hopening, hmessage⟩ .msg
  simp only [messageAndWarning, List.mem_cons, List.not_mem_nil, or_false] at hd
  rcases hd with rfl | rfl | rfl <;> trivial

end UnixNet.Log
