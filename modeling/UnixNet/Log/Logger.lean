import UnixNet.Lib.Files

/-!
# The log module

`log.c` keeps two streams, for messages and for warnings, and the form of a log line for each.
`msgLogOpen` opens the streams that are null pointers, `msgLogFormat` changes the form, `msglog`
writes a line, and `msgLogClose` closes the streams and leaves the pointers as they are. A call of
the module is a `LogCall`, with what the system says at its time; `run` goes through a sequence of
them.
-/

namespace UnixNet.Log

open NetLib

/-- `LOG_PROCNAME` -/
def logProcname : BitVec 32 := 0x1

/-- `LOG_PID` -/
def logPid : BitVec 32 := 0x10

/-- `LOG_PERROR` -/
def logPerror : BitVec 32 := 0x100

/-- `MSG_INFO` -/
def msgInfo : BitVec 32 := 0x1

/-- `MSG_WARN` -/
def msgWarn : BitVec 32 := 0x10

/-- The system during one call: the time, as what `strftime` makes of a format, the process number,
whether a file for messages and one for warnings can be opened, and the descriptors of streams. -/
structure Sys where
  strftime : Bytes → Bytes
  pid : Int
  msgOpens : Bool
  wanOpens : Bool
  fileno : Nat → Int

/-- The static variables, the number of streams opened so far and the calls made on streams. The
strings are here as long as they are given. The source copies the formats and the name of the
process into `msgdatefmt[100]`, `wandatefmt[100]` and `ident_name[100]`, and builds the name of a
file in `openfilename[200]`, what `strftime` makes of its date in `timestring[100]`, and the
beginning of a line in `logprefix[1024]`, without looking at the lengths. A sequence of calls stands
for a run of the program if all of them fit. -/
structure Logger where
  msgfile : Option Nat
  wanfile : Option Nat
  msgopt : BitVec 32
  wanopt : BitVec 32
  msgdatefmt : Bytes
  wandatefmt : Bytes
  identName : Bytes
  created : Nat
  calls : List FileCall

/-- The static variables before the first call. -/
def Logger.start : Logger :=
  ⟨none, none, 0, 0, [], [], [], 0, []⟩

/-- One more call on a stream. -/
def Logger.call (s : Logger) (c : FileCall) : Logger :=
  { s with calls := s.calls ++ [c] }

/-- The name of a log file: the prefix, and behind a dot what `strftime` makes of a date format. -/
def openfilename (sys : Sys) (pre date : Bytes) : Bytes :=
  if date ≠ [] then pre ++ ascii "." ++ sys.strftime date else pre

/-- `fopen(name, "a+b")` -/
def Logger.fopen (s : Logger) (name : Bytes) (opens : Bool) : Option Nat × Logger :=
  if opens then (some s.created, { s.call (.fopen name (some s.created)) with
    created := s.created + 1 })
  else (none, s.call (.fopen name none))

/-- `if ((!file) && (*pre))`: open one of the files. The flag says that `msgLogOpen` goes on. -/
def Logger.openFile (s : Logger) (file : Option Nat) (name : Bytes)
    (wanted opens : Bool) : Bool × Option Nat × Logger :=
  if file = none ∧ wanted then
    ((s.fopen name opens).1.isSome, s.fopen name opens)
  else (true, file, s)

/-- `logprefix`, the beginning of a log line. -/
def logPrefix (sys : Sys) (datefmt : Bytes) (opt : BitVec 32) (ident : Bytes) : Bytes :=
  sys.strftime datefmt ++ ascii " " ++
    (if opt &&& logProcname ≠ 0 then ident ++ ascii " " else []) ++
    (if opt &&& logPid ≠ 0 then ascii "[" ++ padLeft 6 (decimalInt sys.pid) ++ ascii "]" else [])

/-- A log line. -/
def logLine (start text : Bytes) : Bytes :=
  start ++ ascii ": " ++ text ++ ascii "\n"

/-- The part of `msglog` for messages. -/
def Logger.info (s : Logger) (text : Bytes) (sys : Sys) : Logger :=
  s.call (.fprintf s.msgfile (logLine (logPrefix sys s.msgdatefmt s.msgopt s.identName) text))

/-- The part of `msglog` for warnings. -/
def Logger.warn (s : Logger) (text : Bytes) (sys : Sys) : Logger :=
  let line := logLine (logPrefix sys s.wandatefmt s.wanopt s.identName) text
  let s := s.call (.fprintf s.wanfile line)
  if s.wanopt &&& logPerror ≠ 0 then s.call (.stderr line) else s

/-- `msglog(mtype, outfmt, ...)`, where `text` is what `outfmt` and its arguments give. -/
def Logger.msglog (s : Logger) (mtype : BitVec 32) (text : Bytes) (sys : Sys) : Logger :=
  let s := if mtype &&& msgInfo ≠ 0 then s.info text sys else s
  if mtype &&& msgWarn ≠ 0 then s.warn text sys else s

/-- The text that `msgLogOpen` writes. -/
def openText (sys : Sys) (msgfile wanfile : Nat) : Bytes :=
  ascii "File is msgfile=[" ++ decimalInt (sys.fileno msgfile) ++ ascii "],wanfile=[" ++
    decimalInt (sys.fileno wanfile) ++ ascii "]."

/-- The default options and formats. -/
def Logger.defaults (s : Logger) (ident : Bytes) : Logger :=
  { s with
    identName := ident
    msgopt := logProcname ||| logPid
    wanopt := logProcname ||| logPid
    msgdatefmt := ascii "%m-%d %H:%M:%S"
    wandatefmt := ascii "%m-%d %H:%M:%S" }

/-- The last part of `msgLogOpen`. -/
def Logger.ready (s : Logger) (ident : Bytes) (sys : Sys) : Int × Logger :=
  match s.msgfile, s.wanfile with
  | some msgfile, some wanfile =>
      (0, (s.defaults ident).msglog msgInfo (openText sys msgfile wanfile) sys)
  | _, _ => (-1, s)

/-- `msgLogOpen(ident, mpre, mdate, wpre, wdate)` -/
def Logger.msgLogOpen (s : Logger) (ident mpre mdate wpre wdate : Bytes) (sys : Sys) :
    Int × Logger :=
  let (goes, msgfile, s) :=
    s.openFile s.msgfile (openfilename sys mpre mdate) (mpre ≠ []) sys.msgOpens
  let s := { s with msgfile := msgfile }
  if goes then
    let (goes, wanfile, s) :=
      s.openFile s.wanfile (openfilename sys wpre wdate) (wpre ≠ []) sys.wanOpens
    let s := { s with wanfile := wanfile }
    if goes then s.ready ident sys else (-1, s)
  else (-1, s)

/-- `msgLogFormat(mopt, mdfmt, wopt, wdfmt)` -/
def Logger.msgLogFormat (s : Logger) (mopt : BitVec 32) (mdfmt : Bytes) (wopt : BitVec 32)
    (wdfmt : Bytes) : Logger :=
  { s with
    msgopt := if 0 ≤ mopt.toInt then mopt else s.msgopt &&& mopt
    wanopt := if 0 ≤ wopt.toInt then wopt else s.wanopt &&& wopt
    msgdatefmt := if mdfmt ≠ [] then mdfmt else s.msgdatefmt
    wandatefmt := if wdfmt ≠ [] then wdfmt else s.wandatefmt }

/-- `msgInit(pName)` -/
def Logger.msgInit (s : Logger) (pName : Bytes) (sys : Sys) : Int × Logger :=
  let (ret, s) := s.msgLogOpen pName (ascii "/home/itheima/log/tcpsvr") (ascii "%y%m")
    (ascii "/home/itheima/log/log.sys_warn") [] sys
  if ret = 0 then
    (0, s.msgLogFormat (logProcname ||| logPid) (ascii "%m-%d %H:%M:%S")
      (logProcname ||| logPid) (ascii "%m-%d %H:%M:%S"))
  else (-1, s)

/-- `if (file) fclose(file);` -/
def Logger.fclose (s : Logger) (file : Option Nat) : Logger :=
  match file with
  | none => s
  | some f => s.call (.fclose f)

/-- `msgLogClose()` -/
def Logger.msgLogClose (s : Logger) : Logger :=
  (s.fclose s.msgfile).fclose s.wanfile

/-- A call of a function of the module. -/
inductive LogCall where
  | msgInit (pName : Bytes) (sys : Sys)
  | msgLogOpen (ident mpre mdate wpre wdate : Bytes) (sys : Sys)
  | msglog (mtype : BitVec 32) (text : Bytes) (sys : Sys)
  | msgLogFormat (mopt : BitVec 32) (mdfmt : Bytes) (wopt : BitVec 32) (wdfmt : Bytes)
  | msgLogClose

/-- What a call does. -/
def Logger.step (s : Logger) : LogCall → Logger
  | .msgInit pName sys => (s.msgInit pName sys).2
  | .msgLogOpen ident mpre mdate wpre wdate sys => (s.msgLogOpen ident mpre mdate wpre wdate sys).2
  | .msglog mtype text sys => s.msglog mtype text sys
  | .msgLogFormat mopt mdfmt wopt wdfmt => s.msgLogFormat mopt mdfmt wopt wdfmt
  | .msgLogClose => s.msgLogClose

/-- The log after a sequence of calls. -/
def run (calls : List LogCall) : Logger :=
  calls.foldl Logger.step .start

/-- The call is a `msgLogOpen`, or a `msgInit`, that returns 0. -/
def Logger.Opens (s : Logger) : LogCall → Prop
  | .msgInit pName sys => (s.msgInit pName sys).1 = 0
  | .msgLogOpen ident mpre mdate wpre wdate sys =>
      (s.msgLogOpen ident mpre mdate wpre wdate sys).1 = 0
  | _ => False

/-- What is returned after a failure is not 0. -/
theorem failed_ne_zero : ¬ (-1 : Int) = 0 := by
  decide

/-- One more call. -/
theorem run_concat (calls : List LogCall) (c : LogCall) :
    run (calls ++ [c]) = (run calls).step c := by
  simp [run, List.foldl_append]

end UnixNet.Log
