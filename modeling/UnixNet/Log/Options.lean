import Mathlib.Data.Fintype.Powerset
import UnixNet.Lib.Switches
import UnixNet.Log.Lifecycle

/-!
# The options of the log lines

`log.h` has constants that set options of the log lines, and for each option a mask that clears it.
`msgLogFormat` takes either as an `int`, for each of the two files, and tells a mask from a
combination of options by its sign: it replaces the options if the `int` is not negative, and
otherwise keeps those that are also in the mask. The masks, however, are positive numbers. They are
taken for combinations, in which the two other options are on; `log_options_iff` says when that
makes no difference.
-/

namespace UnixNet.Log

open NetLib

/-- `NLO_PROCNAME` -/
def nloProcname : BitVec 32 := 0x11111110

/-- `NLO_PID` -/
def nloPid : BitVec 32 := 0x11111101

/-- `NLO_PERROR` -/
def nloPerror : BitVec 32 := 0x11111011

/-- What is printed besides the text: the name of the process, its number, and a copy to the
standard error. -/
inductive LogOption where
  | procname
  | pid
  | perror
  deriving DecidableEq

instance : Fintype LogOption where
  elems := {.procname, .pid, .perror}
  complete x := by cases x <;> decide

/-- The constant that sets an option. -/
def LogOption.bit : LogOption → BitVec 32
  | .procname => logProcname
  | .pid => logPid
  | .perror => logPerror

/-- The mask that clears it. -/
def LogOption.mask : LogOption → BitVec 32
  | .procname => nloProcname
  | .pid => nloPid
  | .perror => nloPerror

/-- The options that are on in `msgopt` or `wanopt`. -/
def options (opt : BitVec 32) : Finset LogOption :=
  Finset.univ.filter fun x => opt &&& x.bit ≠ 0

/-- The options joined by `|`. -/
def combination (o : Finset LogOption) : BitVec 32 :=
  (if .procname ∈ o then logProcname else 0) ||| (if .pid ∈ o then logPid else 0) |||
    (if .perror ∈ o then logPerror else 0)

/-- A combination or a mask, as an argument of `msgLogFormat`. -/
def argument : Switch LogOption → BitVec 32
  | .set o => combination o
  | .off x => x.mask

/-- A call of `msgLogFormat` with such arguments. -/
structure FormatCall where
  mopt : Switch LogOption
  mdfmt : Bytes
  wopt : Switch LogOption
  wdfmt : Bytes

/-- The call itself. -/
def FormatCall.call (f : FormatCall) : LogCall :=
  .msgLogFormat (argument f.mopt) f.mdfmt (argument f.wopt) f.wdfmt

/-- The log after such calls. -/
def Logger.formatted (s : Logger) (calls : List FormatCall) : Logger :=
  (calls.map FormatCall.call).foldl Logger.step s

/-! ## What is asked of the calls -/

/-- The options that `msgLogOpen` sets, for both files. -/
def opening : Finset LogOption :=
  {.procname, .pid}

/-- A log line with the process name and number if these options are on. -/
def optionLine (o : Finset LogOption) (sys : Sys) (datefmt ident text : Bytes) : Bytes :=
  logLine (sys.strftime datefmt ++ ascii " " ++
    (if .procname ∈ o then ident ++ ascii " " else []) ++
    (if .pid ∈ o then ascii "[" ++ padLeft 6 (decimalInt sys.pid) ++ ascii "]" else [])) text

/-- What `msglog` prints when some options are on for messages and some for warnings. -/
def Logger.printed (s : Logger) (msg wan : Finset LogOption) (mtype : BitVec 32) (text : Bytes)
    (sys : Sys) : List FileCall :=
  let warning := optionLine wan sys s.wandatefmt s.identName text
  (if mtype &&& msgInfo ≠ 0 then
    [.fprintf s.msgfile (optionLine msg sys s.msgdatefmt s.identName text)] else []) ++
  (if mtype &&& msgWarn ≠ 0 then
    .fprintf s.wanfile warning :: (if .perror ∈ wan then [.stderr warning] else []) else [])

/-- The options that are on are these, for messages and for warnings, and `msglog` prints according
to them. -/
def Logger.Follows (s : Logger) (msg wan : Finset LogOption) : Prop :=
  (options s.msgopt = msg ∧ options s.wanopt = wan) ∧
    ∀ mtype text sys, (s.msglog mtype text sys).calls = s.calls ++ s.printed msg wan mtype text sys

/-- A call does what it should: for each file a combination replaces the options, and a mask
switches its option off and leaves the others as they were. -/
def Logger.Obeys (s : Logger) (f : FormatCall) : Prop :=
  options (s.step f.call).msgopt = f.mopt.apply (options s.msgopt) ∧
    options (s.step f.call).wanopt = f.wopt.apply (options s.wanopt)

/-- The argument is a combination, or a mask that finds the two other options on. -/
def OthersOn (o : Finset LogOption) : Switch LogOption → Prop
  | .set _ => True
  | .off x => ∀ y, y ≠ x → y ∈ o

/-- Since the last combination, or the opening, one mask at most was given, however often, and the
two other options are on in the combination. -/
def OneMask (o : Finset LogOption) (args : List (Switch LogOption)) : Prop :=
  ∀ x ∈ offSince args, ∀ y, y ≠ x → y ∈ lastSet o args ∧ y ∉ offSince args

/-! ## What an argument does -/

/-- The options after an argument that is taken for a combination, as it always is. -/
def taken : Switch LogOption → Finset LogOption
  | .set o => o
  | .off x => Finset.univ.erase x

/-- The bits of a combination are its options. -/
theorem options_combination (o : Finset LogOption) : options (combination o) = o := by
  revert o
  decide +kernel

/-- The bits of a mask are the other options. -/
theorem options_mask (x : LogOption) : options x.mask = Finset.univ.erase x := by
  cases x <;> decide +kernel

/-- No argument is negative. -/
theorem argument_nonneg (a : Switch LogOption) : 0 ≤ (argument a).toInt := by
  cases a with
  | set o =>
      revert o
      decide +kernel
  | off x => cases x <;> decide

/-- What `msgLogFormat` stores. -/
theorem options_stored (a : Switch LogOption) (opt : BitVec 32) :
    options (if 0 ≤ (argument a).toInt then argument a else opt &&& argument a) = taken a := by
  rw [if_pos (argument_nonneg a)]
  cases a with
  | set o => exact options_combination o
  | off x => exact options_mask x

/-- An argument does what it should exactly if it is a combination or the two other options are
on. -/
theorem taken_iff (o : Finset LogOption) (a : Switch LogOption) :
    taken a = a.apply o ↔ OthersOn o a := by
  cases a with
  | set new => exact iff_of_true rfl trivial
  | off x =>
      show Finset.univ.erase x = o.erase x ↔ ∀ y, y ≠ x → y ∈ o
      rw [Finset.ext_iff]
      refine forall_congr' fun y => ?_
      rw [Finset.mem_erase, Finset.mem_erase, and_iff_left (Finset.mem_univ y), iff_self_and]

/-! ## Sequences of calls -/

/-- The options after a sequence of arguments. -/
def takenLast (o : Finset LogOption) (args : List (Switch LogOption)) : Finset LogOption :=
  args.foldl (fun _ a => taken a) o

theorem taken_last_concat (o : Finset LogOption) (args : List (Switch LogOption))
    (a : Switch LogOption) : takenLast o (args ++ [a]) = taken a :=
  List.foldl_concat _ _ _ _

/-- When these are the options that the arguments should leave. -/
theorem taken_last_iff (o : Finset LogOption) (args : List (Switch LogOption)) :
    takenLast o args = switched o args ↔ OneMask o args := by
  rcases List.eq_nil_or_concat args with rfl | ⟨args, a, rfl⟩
  · exact iff_of_true rfl fun x hx => absurd hx (Finset.notMem_empty x)
  · rw [List.concat_eq_append, taken_last_concat, switched_eq, OneMask, last_set_concat,
      off_since_concat]
    cases a with
    | set new =>
        refine iff_of_true ?_ fun x hx => absurd hx (Finset.notMem_empty x)
        exact Finset.sdiff_empty.symm
    | off x =>
        show Finset.univ.erase x = lastSet o args \ insert x (offSince args) ↔ _
        constructor
        · intro heq z hz y hy
          -- what was switched off is not left, and so it is what the last mask switches off
          have hlast : ∀ w ∈ insert x (offSince args), w = x := by
            intro w hw
            by_contra hne
            have hleft : w ∈ lastSet o args \ insert x (offSince args) :=
              heq ▸ Finset.mem_erase.mpr ⟨hne, Finset.mem_univ w⟩
            exact (Finset.mem_sdiff.mp hleft).2 hw
          obtain rfl := hlast z hz
          exact Finset.mem_sdiff.mp (heq ▸ Finset.mem_erase.mpr ⟨hy, Finset.mem_univ y⟩)
        · intro hone
          have hothers := hone x (Finset.mem_insert_self x _)
          ext y
          rw [Finset.mem_erase, Finset.mem_sdiff, and_iff_left (Finset.mem_univ y)]
          refine ⟨hothers y, ?_⟩
          rintro ⟨-, hoff⟩ rfl
          exact hoff (Finset.mem_insert_self y _)

variable {s : Logger}

theorem formatted_concat (s : Logger) (calls : List FormatCall) (f : FormatCall) :
    s.formatted (calls ++ [f]) = (s.formatted calls).step f.call := by
  rw [Logger.formatted, List.map_append, List.foldl_append]
  rfl

/-- The options of both files after some calls. -/
theorem options_formatted (s : Logger) (calls : List FormatCall) :
    options (s.formatted calls).msgopt =
        takenLast (options s.msgopt) (calls.map FormatCall.mopt) ∧
      options (s.formatted calls).wanopt =
        takenLast (options s.wanopt) (calls.map FormatCall.wopt) := by
  rcases List.eq_nil_or_concat calls with rfl | ⟨calls, f, rfl⟩
  · exact ⟨rfl, rfl⟩
  · rw [List.concat_eq_append, formatted_concat, List.map_append, List.map_append]
    refine ⟨?_, ?_⟩
    · exact (options_stored f.mopt _).trans (taken_last_concat _ _ _).symm
    · exact (options_stored f.wopt _).trans (taken_last_concat _ _ _).symm

/-! ## What is printed -/

/-- The bit of an option. -/
theorem mem_options {opt : BitVec 32} {x : LogOption} : x ∈ options opt ↔ opt &&& x.bit ≠ 0 :=
  Finset.mem_filter.trans (and_iff_right (Finset.mem_univ x))

/-- A log line goes by the options that are on. -/
theorem log_line_options (sys : Sys) (datefmt : Bytes) (opt : BitVec 32) (ident text : Bytes) :
    logLine (logPrefix sys datefmt opt ident) text =
      optionLine (options opt) sys datefmt ident text := by
  unfold logPrefix optionLine
  simp only [mem_options, LogOption.bit]

/-- What is printed of a warning. -/
theorem warn_printed (s : Logger) (text : Bytes) (sys : Sys) :
    let warning := optionLine (options s.wanopt) sys s.wandatefmt s.identName text
    (s.warn text sys).calls = s.calls ++ .fprintf s.wanfile warning ::
      (if .perror ∈ options s.wanopt then [.stderr warning] else []) := by
  intro warning
  have hline : logLine (logPrefix sys s.wandatefmt s.wanopt s.identName) text = warning :=
    log_line_options _ _ _ _ _
  have hcopy : .perror ∈ options s.wanopt ↔ s.wanopt &&& logPerror ≠ 0 := mem_options
  rw [Logger.warn, hline]
  show (if s.wanopt &&& logPerror ≠ 0 then
      (s.call (.fprintf s.wanfile warning)).call (.stderr warning)
    else s.call (.fprintf s.wanfile warning)).calls = _
  by_cases hon : s.wanopt &&& logPerror ≠ 0
  · rw [if_pos hon, if_pos (hcopy.mpr hon)]
    exact List.append_assoc _ _ _
  · rw [if_neg hon, if_neg (mt hcopy.mp hon)]
    rfl

/-- `msglog` prints according to the options that are on. -/
theorem msglog_printed (s : Logger) (mtype : BitVec 32) (text : Bytes) (sys : Sys) :
    (s.msglog mtype text sys).calls =
      s.calls ++ s.printed (options s.msgopt) (options s.wanopt) mtype text sys := by
  have hcalls : (s.info text sys).calls = s.calls ++
      [.fprintf s.msgfile (optionLine (options s.msgopt) sys s.msgdatefmt s.identName text)] := by
    rw [← log_line_options]
    rfl
  unfold Logger.msglog Logger.printed
  simp only
  by_cases hinfo : mtype &&& msgInfo ≠ 0
  · rw [if_pos hinfo, if_pos hinfo]
    by_cases hwarn : mtype &&& msgWarn ≠ 0
    · rw [if_pos hwarn, if_pos hwarn, warn_printed, hcalls, List.append_assoc]
      rfl
    · rw [if_neg hwarn, if_neg hwarn, List.append_nil, hcalls]
  · rw [if_neg hinfo, if_neg hinfo, List.nil_append]
    by_cases hwarn : mtype &&& msgWarn ≠ 0
    · rw [if_pos hwarn, if_pos hwarn, warn_printed]
    · rw [if_neg hwarn, if_neg hwarn, List.append_nil]

/-- It prints according to some options if they are those that are on. -/
theorem follows_iff (s : Logger) (msg wan : Finset LogOption) :
    s.Follows msg wan ↔ options s.msgopt = msg ∧ options s.wanopt = wan := by
  refine ⟨And.left, fun h => ⟨h, fun mtype text sys => ?_⟩⟩
  rw [msglog_printed, h.1, h.2]

/-! ## The opening -/

/-- A `msgLogOpen` that returns 0 sets the options of both files. -/
theorem msg_log_open_options {ident mpre mdate wpre wdate : Bytes} {sys : Sys}
    (h : (s.msgLogOpen ident mpre mdate wpre wdate sys).1 = 0) :
    options (s.msgLogOpen ident mpre mdate wpre wdate sys).2.msgopt = opening ∧
      options (s.msgLogOpen ident mpre mdate wpre wdate sys).2.wanopt = opening := by
  have hdefault : options (logProcname ||| logPid) = opening := by decide +kernel
  have hready : ∀ t : Logger, (t.ready ident sys).1 = 0 →
      options (t.ready ident sys).2.msgopt = opening ∧
        options (t.ready ident sys).2.wanopt = opening := by
    intro t ht
    unfold Logger.ready at ht ⊢
    split at ht
    · simp only [msglog_info]
      exact ⟨hdefault, hdefault⟩
    · exact absurd ht failed_ne_zero
  unfold Logger.msgLogOpen at h ⊢
  split
  next goes msgfile t hmsg =>
    simp only [hmsg] at h
    cases goes with
    | false => exact absurd h failed_ne_zero
    | true =>
        rw [if_pos rfl] at h ⊢
        split
        next goes wanfile u hwan =>
          simp only [hwan] at h
          cases goes with
          | false => exact absurd h failed_ne_zero
          | true => exact hready _ h

/-- The log after it is opened. -/
theorem opens_options {c : LogCall} (h : s.Opens c) :
    options (s.step c).msgopt = opening ∧ options (s.step c).wanopt = opening := by
  cases c with
  | msgInit pName sys =>
      have hdefault : ∀ opt, options (if 0 ≤ (logProcname ||| logPid).toInt then
          logProcname ||| logPid else opt &&& (logProcname ||| logPid)) = opening :=
        fun opt => options_stored (.set opening) opt
      simp only [Logger.Opens, Logger.msgInit] at h
      simp only [Logger.step, Logger.msgInit]
      generalize s.msgLogOpen pName (ascii "/home/itheima/log/tcpsvr") (ascii "%y%m")
        (ascii "/home/itheima/log/log.sys_warn") [] sys = opened at h ⊢
      obtain ⟨ret, t⟩ := opened
      simp only at h ⊢
      by_cases hzero : ret = 0
      · rw [if_pos hzero]
        exact ⟨hdefault t.msgopt, hdefault t.wanopt⟩
      · rw [if_neg hzero] at h
        exact absurd h failed_ne_zero
  | msgLogOpen ident mpre mdate wpre wdate sys => exact msg_log_open_options h
  | msglog mtype text sys => cases h
  | msgLogFormat mopt mdfmt wopt wdfmt => cases h
  | msgLogClose => cases h

/-- A call does what it should exactly if each of its arguments is a combination or finds the two
other options on. -/
theorem obeys_iff (s : Logger) (f : FormatCall) :
    s.Obeys f ↔ OthersOn (options s.msgopt) f.mopt ∧ OthersOn (options s.wanopt) f.wopt := by
  have hmsg : options (s.step f.call).msgopt = taken f.mopt := options_stored f.mopt s.msgopt
  have hwan : options (s.step f.call).wanopt = taken f.wopt := options_stored f.wopt s.wanopt
  rw [Logger.Obeys, hmsg, hwan, taken_iff, taken_iff]

/-- When the options are switched as they should. After the log was opened, let `msgLogFormat` be
called any number of times with combinations and masks. One more call replaces the options of each
file by the combination, or switches off the option of the mask and leaves the others as they were,
if and only if each of its arguments is a combination or a mask that finds the two other options on.
After the calls, each file has the options of the last combination without those of the masks given
since, and `msglog` prints according to them, if and only if for each file these masks are all for
one option and the two others are in the combination. -/
theorem log_options_iff {c : LogCall} (h : s.Opens c) (calls : List FormatCall) :
    (∀ f, ((s.step c).formatted calls).Obeys f ↔
      OthersOn (options ((s.step c).formatted calls).msgopt) f.mopt ∧
        OthersOn (options ((s.step c).formatted calls).wanopt) f.wopt) ∧
    (((s.step c).formatted calls).Follows (switched opening (calls.map FormatCall.mopt))
        (switched opening (calls.map FormatCall.wopt)) ↔
      OneMask opening (calls.map FormatCall.mopt) ∧
        OneMask opening (calls.map FormatCall.wopt)) := by
  obtain ⟨hmsg, hwan⟩ := opens_options h
  obtain ⟨hmsgLast, hwanLast⟩ := options_formatted (s.step c) calls
  refine ⟨obeys_iff _, ?_⟩
  rw [follows_iff, hmsgLast, hwanLast, hmsg, hwan, taken_last_iff, taken_last_iff]

/-- With all options on for the messages, `NLO_PID` switches the process number off, and no other
option of either file. -/
theorem log_options_pid :
    ((Logger.start.step openBoth).formatted
        [⟨.set Finset.univ, [], .set {.pid}, []⟩, ⟨.off .pid, [], .set opening, []⟩]).Follows
      {.procname, .perror} opening := by
  have hopen : Logger.start.Opens openBoth := show (_ : Int) = 0 by decide
  refine ((log_options_iff hopen _).2.mpr ⟨?_, ?_⟩)
  · intro x hx y hy
    obtain rfl := Finset.mem_singleton.mp hx
    exact ⟨Finset.mem_univ y, fun h => hy (Finset.mem_singleton.mp h)⟩
  · exact fun x hx => absurd hx (Finset.notMem_empty x)

/-- Right after the opening, `NLO_PID` switches the copy to the standard error on. -/
theorem log_options_perror :
    ¬ ∀ (s : Logger) (c : LogCall), s.Opens c → ∀ calls : List FormatCall,
      ((s.step c).formatted calls).Follows (switched opening (calls.map FormatCall.mopt))
        (switched opening (calls.map FormatCall.wopt)) := by
  intro hall
  have hopen : Logger.start.Opens openBoth := show (_ : Int) = 0 by decide
  have hwan := (hall .start openBoth hopen [⟨.off .pid, [], .off .pid, []⟩]).1.2
  exact absurd hwan (by decide +kernel)

end UnixNet.Log
