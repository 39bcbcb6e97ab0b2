import Mathlib.Data.List.Induction
import UnixNet.Log.Logger

/-!
# The life of the log files

`msgLogClose` closes the files and leaves the pointers as they are. `msgLogOpen` does not open a
file whose pointer is not null, and so the log cannot be used again: `log_sound_iff` says which
calls after a close use a file that is closed. -/

namespace UnixNet.Log

open NetLib

/-- Some `msgLogClose` has closed the message file. -/
def MsgClosed (calls : List LogCall) : Prop :=
  Somewhere (fun before c => c = .msgLogClose ∧ (run before).msgfile ≠ none) calls

/-- Some `msgLogClose` has closed the warning file. -/
def WanClosed (calls : List LogCall) : Prop :=
  Somewhere (fun before c => c = .msgLogClose ∧ (run before).wanfile ≠ none) calls

/-- A `msgLogOpen` has returned 0, and there was no `msgLogClose` since. -/
def Ready (calls : List LogCall) : Prop :=
  ∃ before c after, calls = before ++ c :: after ∧ (run before).Opens c ∧ .msgLogClose ∉ after

/-- The call writes to the log. -/
def LogCall.isMsglog : LogCall → Bool
  | .msglog _ _ _ => true
  | _ => false

/-- Every `msglog` comes after a `msgLogOpen` that returned 0 with no `msgLogClose` in between. -/
def Guarded (calls : List LogCall) : Prop :=
  ¬ Somewhere (fun before c => c.isMsglog = true ∧ ¬ Ready before) calls

/-- The calls that must not come after a `msgLogClose` that has closed a file: another
`msgLogClose`, the `msglog` of a warning, and, when the message file was closed, a `msgLogOpen` that
finds the warning file or opens it. -/
def Reuses (before : List LogCall) : LogCall → Prop
  | .msgLogClose => MsgClosed before ∨ WanClosed before
  | .msglog mtype _ _ => (MsgClosed before ∨ WanClosed before) ∧ mtype &&& msgWarn ≠ 0
  | .msgInit _ sys =>
      MsgClosed before ∧ ((run before).wanfile ≠ none ∨ sys.wanOpens = true)
  | .msgLogOpen _ _ _ wpre _ sys =>
      MsgClosed before ∧ ((run before).wanfile ≠ none ∨ wpre ≠ [] ∧ sys.wanOpens = true)
  | .msgLogFormat _ _ _ _ => False

/-! ## Pointers and streams -/

/-- A pointer to a stream that is open unless it was closed. -/
def Tracks (s : Logger) (closed : Prop) (file : Option Nat) : Prop :=
  (closed → file ≠ none) ∧
    ∀ f, file = some f → f < s.created ∧ (f ∈ openFiles s.calls ↔ ¬ closed)

/-- The two pointers and the streams, when the files were closed or not. -/
structure Tracked (msgClosed wanClosed : Prop) (s : Logger) : Prop where
  msg : Tracks s msgClosed s.msgfile
  wan : Tracks s wanClosed s.wanfile
  apart : ∀ f, s.msgfile = some f → s.wanfile ≠ some f

/-- The same pointers and the same open streams. -/
structure SameFiles (s t : Logger) : Prop where
  msgfile : t.msgfile = s.msgfile
  wanfile : t.wanfile = s.wanfile
  created : t.created = s.created
  opened : openFiles t.calls = openFiles s.calls

variable {s t u : Logger} {closed closedOther msgClosed wanClosed : Prop}
  {file other : Option Nat}

theorem SameFiles.refl (s : Logger) : SameFiles s s :=
  ⟨rfl, rfl, rfl, rfl⟩

theorem SameFiles.trans (h : SameFiles s t) (hnext : SameFiles t u) : SameFiles s u :=
  ⟨hnext.msgfile.trans h.msgfile, hnext.wanfile.trans h.wanfile, hnext.created.trans h.created,
    hnext.opened.trans h.opened⟩

/-- A call that opens and closes nothing. -/
theorem SameFiles.call (h : SameFiles s t) {c : FileCall}
    (hc : ∀ streams, c.effect streams = streams) : SameFiles s (t.call c) := by
  refine h.trans ⟨rfl, rfl, rfl, ?_⟩
  show openFiles (t.calls ++ [c]) = openFiles t.calls
  rw [open_files_concat, hc]

/-- Only the open streams and their number matter. -/
theorem Tracks.of_same (h : Tracks s closed file) (hcreated : t.created = s.created)
    (hopen : openFiles t.calls = openFiles s.calls) : Tracks t closed file := by
  unfold Tracks
  rw [hcreated, hopen]
  exact h

theorem Tracked.of_same (h : Tracked msgClosed wanClosed s) (hsame : SameFiles s t) :
    Tracked msgClosed wanClosed t := by
  refine ⟨?_, ?_, ?_⟩
  · rw [hsame.msgfile]
    exact h.msg.of_same hsame.created hsame.opened
  · rw [hsame.wanfile]
    exact h.wan.of_same hsame.created hsame.opened
  · rw [hsame.msgfile, hsame.wanfile]
    exact h.apart

/-- A stream that is opened is another one. -/
theorem Tracks.fopen (h : Tracks s closed file) (name : Bytes) (opens : Bool) :
    Tracks (s.fopen name opens).2 closed file := by
  unfold Logger.fopen
  cases opens with
  | false => exact h.of_same rfl (open_files_concat _ _)
  | true =>
      refine ⟨h.1, fun f hf => ?_⟩
      obtain ⟨hlt, hopen⟩ := h.2 f hf
      have hcalls : openFiles (s.calls ++ [.fopen name (some s.created)]) =
          openFiles s.calls ++ [s.created] := open_files_concat _ _
      refine ⟨Nat.lt_succ_of_lt hlt, ?_⟩
      show f ∈ openFiles (s.calls ++ [.fopen name (some s.created)]) ↔ ¬ closed
      rw [hcalls, List.mem_append, List.mem_singleton, or_iff_left (by omega), hopen]

/-- A null pointer is set to a stream that is opened. -/
theorem Tracks.opened (h : Tracks s closed none) (name : Bytes) (opens : Bool) :
    Tracks (s.fopen name opens).2 closed (s.fopen name opens).1 := by
  have hclosed : ¬ closed := fun hc => h.1 hc rfl
  unfold Logger.fopen
  cases opens with
  | false => exact ⟨fun hc => absurd hc hclosed, fun f hf => by cases hf⟩
  | true =>
      refine ⟨fun hc => absurd hc hclosed, fun f hf => ?_⟩
      obtain rfl := Option.some.inj hf
      refine ⟨Nat.lt_succ_self _, iff_of_true ?_ hclosed⟩
      show s.created ∈ openFiles (s.calls ++ [.fopen name (some s.created)])
      rw [open_files_concat]
      exact List.mem_append_right _ (List.mem_singleton_self _)

/-- The stream that is opened is not the one of another pointer. -/
theorem Tracks.fopen_ne (h : Tracks s closed file) (name : Bytes) (opens : Bool) {f : Nat}
    (hf : file = some f) : (s.fopen name opens).1 ≠ some f := by
  have hlt := (h.2 f hf).1
  unfold Logger.fopen
  cases opens with
  | false => exact fun heq => by cases heq
  | true =>
      intro heq
      have := Option.some.inj heq
      omega

/-- Opening a file uses no stream. -/
theorem sound_fopen (s : Logger) (name : Bytes) (opens : Bool) :
    Sound (s.fopen name opens).2.calls ↔ Sound s.calls := by
  unfold Logger.fopen
  cases opens <;> exact sound_concat.trans (and_iff_left trivial)

/-- Opening one file, for the pointer to it and for the pointer to the other. No stream is used. -/
theorem open_file_spec (h : Tracks s closed file) (hother : Tracks s closedOther other)
    (happart : ∀ f, file = some f → other ≠ some f) (name : Bytes) (wanted opens : Bool) :
    let opened := s.openFile file name wanted opens
    Tracks opened.2.2 closed opened.2.1 ∧ Tracks opened.2.2 closedOther other ∧
      (∀ f, opened.2.1 = some f → other ≠ some f) ∧
      (Sound opened.2.2.calls ↔ Sound s.calls) ∧
      opened.2.2.msgfile = s.msgfile ∧ opened.2.2.wanfile = s.wanfile := by
  have hkeep : (s.fopen name opens).2.msgfile = s.msgfile ∧
      (s.fopen name opens).2.wanfile = s.wanfile := by
    cases opens <;> exact ⟨rfl, rfl⟩
  intro opened
  by_cases hnull : file = none ∧ wanted = true
  · have hopened : opened = ((s.fopen name opens).1.isSome, s.fopen name opens) := if_pos hnull
    rw [hopened]
    refine ⟨(hnull.1 ▸ h).opened name opens, hother.fopen name opens, ?_, sound_fopen s name opens,
      hkeep⟩
    exact fun f hf hsame => hother.fopen_ne name opens hsame hf
  · have hopened : opened = (true, file, s) := if_neg hnull
    rw [hopened]
    exact ⟨h, hother, happart, Iff.rfl, rfl, rfl⟩

/-- The part of `msgLogOpen` for the message file. -/
theorem Tracked.openMsg (h : Tracked msgClosed wanClosed s) (name : Bytes) (wanted opens : Bool) :
    Tracked msgClosed wanClosed { (s.openFile s.msgfile name wanted opens).2.2 with
      msgfile := (s.openFile s.msgfile name wanted opens).2.1 } ∧
    (Sound (s.openFile s.msgfile name wanted opens).2.2.calls ↔ Sound s.calls) ∧
    (s.openFile s.msgfile name wanted opens).2.2.wanfile = s.wanfile := by
  obtain ⟨hmsg, hwan, happart, hsound, -, hkeep⟩ :=
    open_file_spec h.msg h.wan h.apart name wanted opens
  exact ⟨⟨hmsg, hkeep.symm ▸ hwan, hkeep.symm ▸ happart⟩, hsound, hkeep⟩

/-- The part of `msgLogOpen` for the warning file. -/
theorem Tracked.openWan (h : Tracked msgClosed wanClosed s) (name : Bytes) (wanted opens : Bool) :
    Tracked msgClosed wanClosed { (s.openFile s.wanfile name wanted opens).2.2 with
      wanfile := (s.openFile s.wanfile name wanted opens).2.1 } ∧
    (Sound (s.openFile s.wanfile name wanted opens).2.2.calls ↔ Sound s.calls) ∧
    (s.openFile s.wanfile name wanted opens).2.2.msgfile = s.msgfile := by
  obtain ⟨hwan, hmsg, happart, hsound, hkeep, -⟩ :=
    open_file_spec h.wan h.msg (fun f hwan hmsg => h.apart f hmsg hwan) name wanted opens
  refine ⟨⟨hkeep.symm ▸ hmsg, hwan, ?_⟩, hsound, hkeep⟩
  exact fun f hmsg hwan => happart f hwan (hkeep ▸ hmsg)

/-- Writing to the message file is sound exactly if it was not closed. -/
theorem Tracked.info_iff (h : Tracked msgClosed wanClosed s) (hmsg : s.msgfile ≠ none)
    (text : Bytes) (sys : Sys) : Sound (s.info text sys).calls ↔ Sound s.calls ∧ ¬ msgClosed := by
  obtain ⟨f, hf⟩ := Option.ne_none_iff_exists'.mp hmsg
  refine sound_concat.trans (and_congr_right' ?_)
  show (∃ g, s.msgfile = some g ∧ g ∈ openFiles s.calls) ↔ ¬ msgClosed
  rw [← (h.msg.2 f hf).2, hf]
  simp

/-- Writing to the warning file is sound exactly if it was not closed. -/
theorem Tracked.warn_iff (h : Tracked msgClosed wanClosed s) (hwan : s.wanfile ≠ none)
    (text : Bytes) (sys : Sys) : Sound (s.warn text sys).calls ↔ Sound s.calls ∧ ¬ wanClosed := by
  obtain ⟨f, hf⟩ := Option.ne_none_iff_exists'.mp hwan
  have hprint : ∀ line, Sound (s.calls ++ [.fprintf s.wanfile line]) ↔
      Sound s.calls ∧ ¬ wanClosed := by
    intro line
    refine sound_concat.trans (and_congr_right' ?_)
    show (∃ g, s.wanfile = some g ∧ g ∈ openFiles s.calls) ↔ ¬ wanClosed
    rw [← (h.wan.2 f hf).2, hf]
    simp
  unfold Logger.warn
  simp only
  split
  · exact ((sound_concat (c := .stderr _)).trans (and_iff_left trivial)).trans (hprint _)
  · exact hprint _

/-- Writing changes neither the pointers nor the open streams. -/
theorem info_same (s : Logger) (text : Bytes) (sys : Sys) : SameFiles s (s.info text sys) :=
  (SameFiles.refl s).call fun _ => rfl

theorem warn_same (s : Logger) (text : Bytes) (sys : Sys) : SameFiles s (s.warn text sys) := by
  have hprint : ∀ line, SameFiles s (s.call (.fprintf s.wanfile line)) :=
    fun line => (SameFiles.refl s).call fun _ => rfl
  unfold Logger.warn
  simp only
  split
  · exact (hprint _).call fun _ => rfl
  · exact hprint _

theorem msglog_same (s : Logger) (mtype : BitVec 32) (text : Bytes) (sys : Sys) :
    SameFiles s (s.msglog mtype text sys) := by
  have hinfo : SameFiles s (if mtype &&& msgInfo ≠ 0 then s.info text sys else s) := by
    split
    · exact info_same s text sys
    · exact SameFiles.refl s
  unfold Logger.msglog
  simp only
  split
  · exact hinfo.trans (warn_same _ text sys)
  · exact hinfo

/-- A pointer after the part of `msgLogOpen` for it: it is null if it was and no file is opened. The
function goes on unless a file that is wanted cannot be opened. -/
theorem open_file_null (s : Logger) (file : Option Nat) (name : Bytes) (wanted opens : Bool) :
    ((s.openFile file name wanted opens).2.1 ≠ none ↔
        file ≠ none ∨ wanted = true ∧ opens = true) ∧
      ((s.openFile file name wanted opens).1 = false →
        (s.openFile file name wanted opens).2.1 = none) := by
  unfold Logger.openFile Logger.fopen
  cases file with
  | some f => simp
  | none => cases wanted <;> cases opens <;> simp

/-- The line that `msgLogOpen` writes is one for the message file only. -/
theorem msglog_info (s : Logger) (text : Bytes) (sys : Sys) :
    s.msglog msgInfo text sys = s.info text sys := by
  have hinfo : msgInfo &&& msgInfo ≠ 0 := by decide
  have hwarn : ¬ msgInfo &&& msgWarn ≠ 0 := by decide
  rw [Logger.msglog, if_pos hinfo, if_neg hwarn]

/-- The last part of `msgLogOpen` writes to the message file if both pointers are not null. -/
theorem Tracked.ready (h : Tracked msgClosed wanClosed s) (ident : Bytes) (sys : Sys) :
    Tracked msgClosed wanClosed (s.ready ident sys).2 ∧
    (Sound (s.ready ident sys).2.calls ↔
      Sound s.calls ∧ ¬ (msgClosed ∧ s.wanfile ≠ none)) ∧
    ((s.ready ident sys).1 = 0 → (s.ready ident sys).2.msgfile ≠ none ∧
      (s.ready ident sys).2.wanfile ≠ none ∧ s.wanfile ≠ none) := by
  have hdefaults : Tracked msgClosed wanClosed (s.defaults ident) := h.of_same ⟨rfl, rfl, rfl, rfl⟩
  cases hmsg : s.msgfile with
  | none =>
      have hclosed : ¬ msgClosed := fun hc => h.msg.1 hc hmsg
      simp only [Logger.ready, hmsg]
      exact ⟨h, by simp [hclosed], fun hret => absurd hret failed_ne_zero⟩
  | some f =>
      cases hwan : s.wanfile with
      | none =>
          simp only [Logger.ready, hmsg, hwan]
          exact ⟨h, by simp, fun hret => absurd hret failed_ne_zero⟩
      | some g =>
          have hnull : (s.defaults ident).msgfile ≠ none := by
            show s.msgfile ≠ none
            simp [hmsg]
          simp only [Logger.ready, hmsg, hwan, msglog_info]
          refine ⟨?_, ?_, fun _ => ⟨hnull, ?_, by simp⟩⟩
          · exact hdefaults.of_same (info_same _ (openText sys f g) sys)
          · rw [hdefaults.info_iff hnull]
            simp [Logger.defaults]
          · show s.wanfile ≠ none
            simp [hwan]

/-- `msgLogOpen`, when the files were closed or not. It writes to the message file if both pointers
are not null in the end. -/
theorem Tracked.msgLogOpen (h : Tracked msgClosed wanClosed s) (ident mpre mdate wpre wdate : Bytes)
    (sys : Sys) :
    Tracked msgClosed wanClosed (s.msgLogOpen ident mpre mdate wpre wdate sys).2 ∧
    (Sound (s.msgLogOpen ident mpre mdate wpre wdate sys).2.calls ↔
      Sound s.calls ∧
        ¬ (msgClosed ∧ (s.wanfile ≠ none ∨ wpre ≠ [] ∧ sys.wanOpens = true))) ∧
    ((s.msgLogOpen ident mpre mdate wpre wdate sys).1 = 0 →
      (s.msgLogOpen ident mpre mdate wpre wdate sys).2.msgfile ≠ none ∧
      (s.msgLogOpen ident mpre mdate wpre wdate sys).2.wanfile ≠ none ∧
      (s.wanfile ≠ none ∨ wpre ≠ [] ∧ sys.wanOpens = true)) := by
  have hmsg := h.openMsg (openfilename sys mpre mdate) (mpre ≠ []) sys.msgOpens
  have hmsgNull := open_file_null s s.msgfile (openfilename sys mpre mdate) (mpre ≠ []) sys.msgOpens
  unfold Logger.msgLogOpen
  generalize s.openFile s.msgfile (openfilename sys mpre mdate) (mpre ≠ []) sys.msgOpens = opened
    at hmsg hmsgNull
  obtain ⟨goes, msgfile, t⟩ := opened
  obtain ⟨htracked, hsound, hwanfile⟩ := hmsg
  obtain ⟨-, hstop⟩ := hmsgNull
  simp only at htracked hsound hwanfile hstop ⊢
  cases goes with
  | false =>
      -- the message file cannot be opened, so its pointer was null and it was never closed
      have hclosed : ¬ msgClosed := fun hc => htracked.msg.1 hc (hstop rfl)
      rw [if_neg Bool.false_ne_true]
      refine ⟨htracked, by simp [hclosed, hsound], fun hret => ?_⟩
      exact absurd hret failed_ne_zero
  | true =>
      rw [if_pos rfl]
      have hwan := htracked.openWan (openfilename sys wpre wdate) (wpre ≠ []) sys.wanOpens
      have hwanNull := open_file_null { t with msgfile := msgfile } t.wanfile
        (openfilename sys wpre wdate) (wpre ≠ []) sys.wanOpens
      simp only at hwan
      generalize Logger.openFile { t with msgfile := msgfile } t.wanfile
        (openfilename sys wpre wdate) (wpre ≠ []) sys.wanOpens = opened at hwan hwanNull
      obtain ⟨goes, wanfile, u⟩ := opened
      obtain ⟨htrackedWan, hsoundWan, hmsgfile⟩ := hwan
      obtain ⟨hnull, hstopWan⟩ := hwanNull
      rw [hwanfile] at hnull
      simp only [decide_eq_true_eq] at htrackedWan hsoundWan hmsgfile hnull hstopWan ⊢
      cases goes with
      | false =>
          have hnot := mt hnull.mpr (not_not_intro (hstopWan rfl))
          rw [if_neg Bool.false_ne_true]
          exact ⟨htrackedWan, by simp [hnot, hsoundWan, hsound],
            fun hret => absurd hret failed_ne_zero⟩
      | true =>
          obtain ⟨hready, hsoundReady, hret⟩ := htrackedWan.ready ident sys
          rw [if_pos rfl, ← hnull, ← hsound, ← hsoundWan]
          exact ⟨hready, hsoundReady, hret⟩

/-- `msgInit` is a `msgLogOpen` that wants both files. -/
theorem Tracked.msgInit (h : Tracked msgClosed wanClosed s) (pName : Bytes) (sys : Sys) :
    Tracked msgClosed wanClosed (s.msgInit pName sys).2 ∧
    (Sound (s.msgInit pName sys).2.calls ↔
      Sound s.calls ∧ ¬ (msgClosed ∧ (s.wanfile ≠ none ∨ sys.wanOpens = true))) ∧
    ((s.msgInit pName sys).1 = 0 → (s.msgInit pName sys).2.msgfile ≠ none ∧
      (s.msgInit pName sys).2.wanfile ≠ none ∧ (s.wanfile ≠ none ∨ sys.wanOpens = true)) := by
  have hpre : ascii "/home/itheima/log/log.sys_warn" ≠ [] := by decide
  have hopen := h.msgLogOpen pName (ascii "/home/itheima/log/tcpsvr") (ascii "%y%m")
    (ascii "/home/itheima/log/log.sys_warn") [] sys
  unfold Logger.msgInit
  generalize s.msgLogOpen pName (ascii "/home/itheima/log/tcpsvr") (ascii "%y%m")
    (ascii "/home/itheima/log/log.sys_warn") [] sys = opened at hopen
  obtain ⟨ret, t⟩ := opened
  obtain ⟨htracked, hsound, hret⟩ := hopen
  simp only [hpre, ne_eq, not_false_eq_true, true_and] at htracked hsound hret ⊢
  by_cases hzero : ret = 0
  · rw [if_pos hzero]
    exact ⟨htracked.of_same ⟨rfl, rfl, rfl, rfl⟩, hsound, fun _ => hret hzero⟩
  · rw [if_neg hzero]
    exact ⟨htracked, hsound, fun hminus => absurd hminus failed_ne_zero⟩

/-- Closing a file leaves the pointers. -/
theorem fclose_keeps (s : Logger) (file : Option Nat) :
    (s.fclose file).msgfile = s.msgfile ∧ (s.fclose file).wanfile = s.wanfile := by
  cases file <;> exact ⟨rfl, rfl⟩

/-- Closing a file is sound if it was not closed before. -/
theorem Tracks.fclose (h : Tracks s closed file) :
    Tracks (s.fclose file) (file ≠ none) file ∧
      (Sound (s.fclose file).calls ↔ Sound s.calls ∧ ¬ closed) := by
  cases file with
  | none =>
      have hclosed : ¬ closed := fun hc => h.1 hc rfl
      exact ⟨⟨id, fun f hf => by cases hf⟩, (and_iff_left hclosed).symm⟩
  | some f =>
      refine ⟨⟨id, fun g hg => ?_⟩, sound_concat.trans (and_congr_right' (h.2 f rfl).2)⟩
      obtain rfl := Option.some.inj hg
      refine ⟨(h.2 f rfl).1, iff_of_false ?_ (by simp)⟩
      show f ∉ openFiles (s.calls ++ [.fclose f])
      rw [open_files_concat]
      simp [FileCall.effect]

/-- Closing one file leaves the other. -/
theorem Tracks.fclose_other (h : Tracks s closed file) (hne : ∀ f, file = some f → other ≠ some f) :
    Tracks (s.fclose other) closed file := by
  cases other with
  | none => exact h
  | some g =>
      refine ⟨h.1, fun f hf => ?_⟩
      obtain ⟨hlt, hopen⟩ := h.2 f hf
      have hother : f ≠ g := fun heq => hne f hf (congrArg some heq.symm)
      refine ⟨hlt, ?_⟩
      show f ∈ openFiles (s.calls ++ [.fclose g]) ↔ ¬ closed
      rw [open_files_concat, ← hopen]
      simp [FileCall.effect, hother]

/-- `msgLogClose` closes what the pointers point to, and leaves the pointers. -/
theorem Tracked.msgLogClose (h : Tracked msgClosed wanClosed s) :
    Tracked (s.msgfile ≠ none) (s.wanfile ≠ none) s.msgLogClose ∧
      (Sound s.msgLogClose.calls ↔ Sound s.calls ∧ ¬ (msgClosed ∨ wanClosed)) := by
  have hback : ∀ g, s.wanfile = some g → s.msgfile ≠ some g :=
    fun g hwan hmsg => h.apart g hmsg hwan
  obtain ⟨hmsg, hsoundMsg⟩ := h.msg.fclose
  obtain ⟨hwan, hsoundWan⟩ := (h.wan.fclose_other hback).fclose
  unfold Logger.msgLogClose
  refine ⟨⟨?_, ?_, ?_⟩, ?_⟩
  · rw [(fclose_keeps _ _).1, (fclose_keeps _ _).1]
    exact hmsg.fclose_other h.apart
  · rw [(fclose_keeps _ _).2, (fclose_keeps _ _).2]
    exact hwan
  · rw [(fclose_keeps _ _).1, (fclose_keeps _ _).1, (fclose_keeps _ _).2, (fclose_keeps _ _).2]
    exact h.apart
  · rw [hsoundWan, hsoundMsg, not_or, and_assoc]

/-! ## Sequences of calls -/

variable {calls : List LogCall} {c : LogCall}

/-- Only `msgLogClose` closes files. -/
theorem closed_concat_of_ne (calls : List LogCall) (hc : c ≠ .msgLogClose) :
    (MsgClosed (calls ++ [c]) ↔ MsgClosed calls) ∧ (WanClosed (calls ++ [c]) ↔ WanClosed calls) :=
  ⟨somewhere_concat.trans (or_iff_left fun h => hc h.1),
    somewhere_concat.trans (or_iff_left fun h => hc h.1)⟩

/-- The pointers and streams after any calls. -/
theorem run_tracked (calls : List LogCall) :
    Tracked (MsgClosed calls) (WanClosed calls) (run calls) := by
  induction calls using List.reverseRecOn with
  | nil => exact ⟨⟨fun h => absurd h somewhere_nil, fun f hf => by cases hf⟩,
      ⟨fun h => absurd h somewhere_nil, fun f hf => by cases hf⟩, fun f hf => by cases hf⟩
  | append_singleton calls c ih =>
      rw [run_concat]
      by_cases hc : c = .msgLogClose
      · obtain rfl := hc
        have hmsg : MsgClosed (calls ++ [.msgLogClose]) ↔ (run calls).msgfile ≠ none := by
          refine somewhere_concat.trans ⟨?_, fun h => .inr ⟨rfl, h⟩⟩
          exact fun h => h.elim ih.msg.1 And.right
        have hwan : WanClosed (calls ++ [.msgLogClose]) ↔ (run calls).wanfile ≠ none := by
          refine somewhere_concat.trans ⟨?_, fun h => .inr ⟨rfl, h⟩⟩
          exact fun h => h.elim ih.wan.1 And.right
        rw [hmsg, hwan]
        exact ih.msgLogClose.1
      · obtain ⟨hmsg, hwan⟩ := closed_concat_of_ne calls hc
        rw [hmsg, hwan]
        cases c with
        | msgInit pName sys => exact (ih.msgInit pName sys).1
        | msgLogOpen ident mpre mdate wpre wdate sys =>
            exact (ih.msgLogOpen ident mpre mdate wpre wdate sys).1
        | msglog mtype text sys => exact ih.of_same (msglog_same _ mtype text sys)
        | msgLogFormat mopt mdfmt wopt wdfmt => exact ih.of_same ⟨rfl, rfl, rfl, rfl⟩
        | msgLogClose => exact absurd rfl hc

/-- When both pointers are set, `msgLogOpen` opens nothing. -/
theorem msg_log_open_set (hmsg : s.msgfile ≠ none) (hwan : s.wanfile ≠ none)
    (ident mpre mdate wpre wdate : Bytes) (sys : Sys) :
    s.msgLogOpen ident mpre mdate wpre wdate sys = s.ready ident sys ∧
      (s.ready ident sys).2.msgfile = s.msgfile ∧ (s.ready ident sys).2.wanfile = s.wanfile := by
  obtain ⟨f, hf⟩ := Option.ne_none_iff_exists'.mp hmsg
  obtain ⟨g, hg⟩ := Option.ne_none_iff_exists'.mp hwan
  refine ⟨?_, ?_⟩
  · simp [Logger.msgLogOpen, Logger.openFile, hmsg, hwan]
  · simp only [Logger.ready, hf, hg, msglog_info]
    have hsame := info_same (s.defaults ident) (openText sys f g) sys
    exact ⟨hsame.msgfile.trans hf, hsame.wanfile.trans hg⟩

/-- Pointers that are both set stay as they are. -/
theorem step_keeps (hmsg : s.msgfile ≠ none) (hwan : s.wanfile ≠ none) (c : LogCall) :
    (s.step c).msgfile = s.msgfile ∧ (s.step c).wanfile = s.wanfile := by
  cases c with
  | msgInit pName sys =>
      obtain ⟨heq, hsame, hsameWan⟩ := msg_log_open_set hmsg hwan pName
        (ascii "/home/itheima/log/tcpsvr") (ascii "%y%m")
        (ascii "/home/itheima/log/log.sys_warn") [] sys
      simp only [Logger.step, Logger.msgInit, heq]
      split <;> exact ⟨hsame, hsameWan⟩
  | msgLogOpen ident mpre mdate wpre wdate sys =>
      obtain ⟨heq, hsame, hsameWan⟩ := msg_log_open_set hmsg hwan ident mpre mdate wpre wdate sys
      simp only [Logger.step, heq]
      exact ⟨hsame, hsameWan⟩
  | msglog mtype text sys =>
      have hsame := msglog_same s mtype text sys
      exact ⟨hsame.msgfile, hsame.wanfile⟩
  | msgLogFormat mopt mdfmt wopt wdfmt => exact ⟨rfl, rfl⟩
  | msgLogClose =>
      simp only [Logger.step, Logger.msgLogClose]
      rw [(fclose_keeps _ _).1, (fclose_keeps _ _).1, (fclose_keeps _ _).2, (fclose_keeps _ _).2]
      exact ⟨rfl, rfl⟩

/-- The log is ready after a `msgLogOpen` that returns 0, and stays so until a `msgLogClose`. -/
theorem ready_concat :
    Ready (calls ++ [c]) ↔ (run calls).Opens c ∨ Ready calls ∧ c ≠ .msgLogClose := by
  constructor
  · rintro ⟨before, o, after, heq, hopens, hclose⟩
    rcases List.eq_nil_or_concat after with rfl | ⟨after, last, rfl⟩
    · obtain ⟨rfl, hlast⟩ := List.append_inj' heq rfl
      obtain rfl := (List.cons.inj hlast).1
      exact .inl hopens
    · rw [List.concat_eq_append, ← List.cons_append, ← List.append_assoc] at heq
      obtain ⟨rfl, hlast⟩ := List.append_inj' heq rfl
      obtain rfl := (List.cons.inj hlast).1
      rw [List.concat_eq_append, List.mem_append, not_or, List.mem_singleton] at hclose
      exact .inr ⟨⟨before, o, after, rfl, hopens, hclose.1⟩, Ne.symm hclose.2⟩
  · rintro (hopens | ⟨⟨before, o, after, rfl, hopens, hclose⟩, hc⟩)
    · exact ⟨calls, c, [], rfl, hopens, List.not_mem_nil⟩
    · refine ⟨before, o, after ++ [c], by simp, hopens, ?_⟩
      rw [List.mem_append, not_or, List.mem_singleton]
      exact ⟨hclose, Ne.symm hc⟩

theorem not_ready_nil : ¬ Ready [] := by
  rintro ⟨before, c, after, heq, -⟩
  exact absurd heq.symm (by simp)

/-- A `msgLogOpen` that returns 0 leaves both pointers set, and it uses a file that was closed if
the message file was. -/
theorem opens_spec (h : (run calls).Opens c) :
    ((run calls).step c).msgfile ≠ none ∧ ((run calls).step c).wanfile ≠ none ∧
      c ≠ .msgLogClose ∧ (MsgClosed calls → Reuses calls c) := by
  have htracked := run_tracked calls
  cases c with
  | msgInit pName sys =>
      obtain ⟨hmsg, hwan, hfound⟩ := (htracked.msgInit pName sys).2.2 h
      exact ⟨hmsg, hwan, by simp, fun hclosed => ⟨hclosed, hfound⟩⟩
  | msgLogOpen ident mpre mdate wpre wdate sys =>
      obtain ⟨hmsg, hwan, hfound⟩ := (htracked.msgLogOpen ident mpre mdate wpre wdate sys).2.2 h
      exact ⟨hmsg, hwan, by simp, fun hclosed => ⟨hclosed, hfound⟩⟩
  | msglog mtype text sys => cases h
  | msgLogFormat mopt mdfmt wopt wdfmt => cases h
  | msgLogClose => cases h

/-- When the log is ready, both pointers are set, and the message file is open if no call has used
a file that was closed. -/
theorem ready_spec (h : Ready calls) :
    (run calls).msgfile ≠ none ∧ (run calls).wanfile ≠ none ∧
      (¬ Somewhere Reuses calls → ¬ MsgClosed calls) := by
  induction calls using List.reverseRecOn with
  | nil => exact absurd h not_ready_nil
  | append_singleton calls c ih =>
      rw [run_concat, somewhere_concat, not_or]
      rcases ready_concat.mp h with hopens | ⟨hready, hc⟩
      · obtain ⟨hmsg, hwan, hc, hreuses⟩ := opens_spec hopens
        refine ⟨hmsg, hwan, fun hno hclosed => hno.2 (hreuses ?_)⟩
        exact (closed_concat_of_ne _ hc).1.mp hclosed
      · obtain ⟨hmsg, hwan, hopen⟩ := ih hready
        obtain ⟨hkeep, hkeepWan⟩ := step_keeps hmsg hwan c
        refine ⟨hkeep ▸ hmsg, hkeepWan ▸ hwan, fun hno hclosed => hopen hno.1 ?_⟩
        exact (closed_concat_of_ne _ hc).1.mp hclosed

/-- A `msglog` on a log that is ready. -/
theorem sound_msglog (hready : Ready calls) (mtype : BitVec 32) (text : Bytes) (sys : Sys) :
    Sound ((run calls).msglog mtype text sys).calls ↔
      Sound (run calls).calls ∧ (mtype &&& msgInfo ≠ 0 → ¬ MsgClosed calls) ∧
        (mtype &&& msgWarn ≠ 0 → ¬ WanClosed calls) := by
  obtain ⟨hmsg, hwan, -⟩ := ready_spec hready
  have htracked := run_tracked calls
  have hinfo := htracked.info_iff hmsg text sys
  have hsame := info_same (run calls) text sys
  have hwarnInfo := (htracked.of_same hsame).warn_iff (hsame.wanfile ▸ hwan) text sys
  have hwarn := htracked.warn_iff hwan text sys
  unfold Logger.msglog
  simp only
  by_cases hi : mtype &&& msgInfo ≠ 0
  · by_cases hw : mtype &&& msgWarn ≠ 0
    · rw [if_pos hi, if_pos hw, hwarnInfo, hinfo, and_assoc, forall_prop_of_true hi,
        forall_prop_of_true hw]
    · rw [if_pos hi, if_neg hw, hinfo, forall_prop_of_true hi, forall_prop_of_false hw, and_true]
  · by_cases hw : mtype &&& msgWarn ≠ 0
    · rw [if_neg hi, if_pos hw, hwarn, forall_prop_of_false hi, forall_prop_of_true hw, true_and]
    · rw [if_neg hi, if_neg hw, forall_prop_of_false hi, forall_prop_of_false hw, and_true,
        and_true]

/-- When the log is used soundly. For every sequence of calls, with any outcomes of `fopen`, in
which every `msglog` comes after a `msgLogOpen` that returned 0 with no `msgLogClose` in between:
`msglog` writes to open streams only and `msgLogClose` closes none twice, if and only if after a
`msgLogClose` that has closed a file there is no further `msgLogClose`, no `msglog` of a warning,
and, if it has closed the message file, no `msgLogOpen` that finds the warning file or opens it. -/
theorem log_sound_iff (hguarded : Guarded calls) :
    Sound (run calls).calls ↔ ¬ Somewhere Reuses calls := by
  induction calls using List.reverseRecOn with
  | nil => exact iff_of_true sound_nil somewhere_nil
  | append_singleton calls c ih =>
      rw [Guarded, somewhere_concat, not_or] at hguarded
      obtain ⟨hguarded, hlast⟩ := hguarded
      have ih := ih hguarded
      have htracked := run_tracked calls
      rw [run_concat, somewhere_concat, not_or, ← ih]
      cases c with
      | msgInit pName sys => exact (htracked.msgInit pName sys).2.1
      | msgLogOpen ident mpre mdate wpre wdate sys =>
          exact (htracked.msgLogOpen ident mpre mdate wpre wdate sys).2.1
      | msglog mtype text sys =>
          have hready : Ready calls := by
            by_contra hnot
            exact hlast ⟨rfl, hnot⟩
          show Sound ((run calls).msglog mtype text sys).calls ↔ _
          rw [sound_msglog hready]
          refine and_congr_right fun hsound => ?_
          -- the log is ready, so the message file is open
          have hopen : ¬ MsgClosed calls := (ready_spec hready).2.2 (ih.mp hsound)
          show _ ↔ ¬ ((MsgClosed calls ∨ WanClosed calls) ∧ mtype &&& msgWarn ≠ 0)
          rw [or_iff_right hopen, and_iff_right (fun _ => hopen), not_and']
      | msgLogFormat mopt mdfmt wopt wdfmt => exact (and_iff_left id).symm
      | msgLogClose => exact htracked.msgLogClose.2

/-- A system on which every file can be opened. -/
def plainSys : Sys where
  strftime _ := ascii "01-01 00:00:00"
  pid := 7
  msgOpens := true
  wanOpens := true
  fileno file := file + 3

/-- Open the log with both files. -/
def openBoth : LogCall :=
  .msgLogOpen (ascii "p") (ascii "m") [] (ascii "w") [] plainSys

/-- Nothing is wrong with opening the log, writing to both files and closing them. -/
theorem log_sound_once :
    Sound (run [openBoth, .msglog (msgInfo ||| msgWarn) (ascii "x") plainSys,
      .msgLogClose]).calls := by
  have hready : Ready [openBoth] :=
    ⟨[], openBoth, [], rfl, show (_ : Int) = 0 by decide, List.not_mem_nil⟩
  have hnever : ¬ MsgClosed [openBoth, .msglog (msgInfo ||| msgWarn) (ascii "x") plainSys] ∧
      ¬ WanClosed [openBoth, .msglog (msgInfo ||| msgWarn) (ascii "x") plainSys] := by
    simp [MsgClosed, WanClosed, somewhere_cons, somewhere_nil, openBoth]
  have hfresh : ¬ MsgClosed [openBoth] ∧ ¬ WanClosed [openBoth] := by
    simp [MsgClosed, WanClosed, somewhere_cons, somewhere_nil, openBoth]
  refine (log_sound_iff ?_).mpr ?_
  · rw [Guarded, somewhere_cons, somewhere_cons, somewhere_cons]
    refine not_or.mpr ⟨fun h => absurd h.1 (by decide), not_or.mpr ⟨fun h => h.2 hready, ?_⟩⟩
    exact not_or.mpr ⟨fun h => absurd h.1 (by decide), somewhere_nil⟩
  · rw [somewhere_cons, somewhere_cons, somewhere_cons]
    refine not_or.mpr ⟨fun h => somewhere_nil h.1, not_or.mpr ⟨fun h => ?_, ?_⟩⟩
    · exact h.1.elim hfresh.1 hfresh.2
    · exact not_or.mpr ⟨fun h => h.elim hnever.1 hnever.2, somewhere_nil⟩

/-- A log that is opened again writes to the message file that was closed. -/
theorem log_unsound_reopened :
    ¬ ∀ calls, Guarded calls → Sound (run calls).calls := by
  intro h
  have hguarded : Guarded [openBoth, .msgLogClose, openBoth] := by
    simp [Guarded, somewhere_cons, somewhere_nil, openBoth, LogCall.isMsglog]
  have hclosed : MsgClosed [openBoth, .msgLogClose] :=
    ⟨[openBoth], .msgLogClose, [], rfl, rfl, by decide⟩
  have hsound := ((run_tracked [openBoth, .msgLogClose]).msgLogOpen (ascii "p") (ascii "m") []
    (ascii "w") [] plainSys).2.1.mp (h _ hguarded)
  exact hsound.2 ⟨hclosed, .inr ⟨by decide, rfl⟩⟩

end UnixNet.Log
