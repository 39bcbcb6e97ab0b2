import UnixNet.EpollWeb.Drain

/-!
# The descriptors `SendData` holds

`SendData` closes the client's socket itself, at the end of each of its branches, and the files it
opens. `filesOpen` replays a sequence of calls and counts the files that are open after it. Every
file is closed again (`send_data_files_closed`), but some ways through the function return with
the socket open (`send_data_finishes_iff`).
-/

namespace UnixNet.EpollWeb

open NetLib UnixNet.Pub

/-- The number of files open after one more call, when `n` were open before it. `none` is a
`close` of a descriptor that is not open. -/
def Call.files : Nat → Call → Option Nat
  | n, .openFile _ true => some (n + 1)
  | 0, .closeFile true => none
  | n + 1, .closeFile true => some n
  | n, _ => some n

/-- The number of files open after the calls. -/
def filesOpen (calls : List Call) : Option Nat :=
  calls.foldlM Call.files 0

/-- The call is a `send`. -/
def Call.IsSend : Call → Prop
  | .send _ _ _ => True
  | _ => False

/-- Between two stages only calls of the kind `ok` were made. -/
def Makes (ok : Call → Prop) (p next : Progress) : Prop :=
  Extends ok p.calls next.calls

/-- After the calls no file is open, and the client's socket was closed `closed` times. -/
def Settled (closed : Nat) (calls : List Call) : Prop :=
  calls.count .close = closed ∧ filesOpen calls = some 0

variable {env : Env} {p next : Progress}

/-! ## Which calls are made between two stages -/

variable {ok : Call → Prop}

theorem Makes.refl (p : Progress) : Makes ok p p :=
  Extends.refl p.calls

theorem Makes.trans {last : Progress} (h : Makes ok p next) (hnext : Makes ok next last) :
    Makes ok p last :=
  Extends.trans h hnext

theorem Makes.of_call {c : Call} (p : Progress) (hc : ok c) : Makes ok p (p.call c) :=
  Extends.concat p.calls hc

variable (env) in
theorem Makes.of_send (p : Progress) (buf : Bytes) (len : Int) :
    Makes Call.IsSend p (p.send env buf len) :=
  Extends.concat p.calls trivial

variable (env) in
/-- `send_header` only sends. -/
theorem send_header_only_sends (code : Int) (type : Bytes) (length : Int) (p : Progress) :
    Makes Call.IsSend p (sendHeader env code type length p) := by
  unfold sendHeader
  by_cases hpos : length > 0
  · simp only [hpos, if_true]
    exact (((Makes.of_send env p _ _).trans (.of_send env _ _ _)).trans (.of_send env _ _ _)).trans
      (.of_send env _ _ _)
  · simp only [hpos, if_false]
    exact ((Makes.of_send env p _ _).trans (.of_send env _ _ _)).trans (.of_send env _ _ _)

variable (env) in
/-- The loop over a regular file only sends, however it is left. -/
theorem send_loop_only_sends (file : File) (fuel pos : Nat) (buf : Bytes) (p : Progress) :
    Makes Call.IsSend p (sendLoop env file fuel pos buf p).2 := by
  induction fuel generalizing pos buf p with
  | zero => exact .refl p
  | succ fuel ih =>
      unfold sendLoop
      split
      next n buf hread =>
      split_ifs with hpos hfails
      · exact .of_send env p _ _
      · exact (Makes.of_send env p _ _).trans (ih _ _ _)
      · exact .refl p

variable (env) in
/-- The loop over the entries of a directory only sends. -/
theorem send_entries_only_sends (page : Bytes) (entries : List DirEnt) (j : Int) (cache : Bytes)
    (p : Progress) : Makes Call.IsSend p (sendEntries env page entries j cache p).2.2 := by
  induction entries generalizing j cache p with
  | nil => exact .refl p
  | cons entry rest ih =>
      unfold sendEntries
      exact (Makes.of_send env p _ _).trans (ih _ _ _)

/-! ## What each call does to the descriptors -/

/-- Calls that close every file they open, and the socket `n` times. -/
theorem Settled.append {closed n : Nat} {calls made : List Call} (h : Settled closed calls)
    (hclose : made.count .close = n) (hfiles : made.foldlM Call.files 0 = some 0) :
    Settled (closed + n) (calls ++ made) := by
  obtain ⟨hclosed, hopen⟩ := h
  constructor
  · rw [List.count_append, hclosed, hclose]
  · rw [filesOpen, List.foldlM_append, ← filesOpen, hopen]
    exact hfiles

/-- Calls of `send` do not close the socket, and leave the open files open. -/
theorem sends_keep {made : List Call} (h : ∀ c ∈ made, c.IsSend) (n : Nat) :
    made.count .close = 0 ∧ made.foldlM Call.files n = some n := by
  induction made with
  | nil => exact ⟨rfl, rfl⟩
  | cons c rest ih =>
      obtain ⟨hclose, hfiles⟩ := ih fun d hd => h d (List.mem_cons_of_mem _ hd)
      cases c with
      | send buf len ret =>
          refine ⟨by rw [List.count_cons, hclose]; rfl, ?_⟩
          cases n <;> exact hfiles
      | _ => exact (h _ List.mem_cons_self).elim

theorem Settled.of_sends {closed : Nat} (h : Settled closed p.calls)
    (hsends : Makes Call.IsSend p next) : Settled closed next.calls := by
  obtain ⟨made, hcalls, hmade⟩ := hsends
  obtain ⟨hclose, hfiles⟩ := sends_keep hmade 0
  rw [hcalls]
  exact h.append hclose hfiles

/-- A call that is about no descriptor. -/
theorem Settled.of_call {closed : Nat} {c : Call} (h : Settled closed p.calls)
    (hclose : c ≠ .close) (hfiles : c.files 0 = some 0) : Settled closed (p.call c).calls := by
  refine h.append (List.count_eq_zero.mpr ?_) ?_
  · rw [List.mem_singleton]
    exact hclose.symm
  · rw [List.foldlM_cons, hfiles]
    rfl

/-- The socket is closed. -/
theorem Settled.close {closed : Nat} (h : Settled closed p.calls) :
    Settled (closed + 1) (p.call .close).calls :=
  h.append rfl rfl

/-- A file that is opened, used for sending and closed, or could not be opened. -/
theorem Settled.of_file {closed : Nat} (h : Settled closed p.calls) (path : Bytes) (opened : Bool)
    (hsends : Makes Call.IsSend (p.call (.openFile path opened)) next) :
    Settled closed (next.call (.closeFile opened)).calls := by
  obtain ⟨made, hcalls, hmade⟩ := hsends
  have hall : (next.call (.closeFile opened)).calls =
      p.calls ++ (.openFile path opened :: (made ++ [.closeFile opened])) := by
    simp [Progress.call, hcalls]
  rw [hall]
  refine h.append (n := 0) ?_ ?_
  · rw [List.count_cons, List.count_append, (sends_keep hmade 0).1]
    rfl
  · cases opened with
    | true =>
        rw [List.foldlM_cons, show Call.files 0 (.openFile path true) = some 1 from rfl,
          Option.bind_eq_bind, Option.bind_some, List.foldlM_append, (sends_keep hmade 1).2]
        rfl
    | false =>
        rw [List.foldlM_cons, show Call.files 0 (.openFile path false) = some 0 from rfl,
          Option.bind_eq_bind, Option.bind_some, List.foldlM_append, (sends_keep hmade 0).2]
        rfl

/-! ## The branches of `SendData` -/

/-- The branch for a file that does not exist. -/
theorem send_not_found_settled (h : Settled 0 p.calls) :
    Settled 1 (sendNotFound env p).calls := by
  have hheader := h.of_sends
    (send_header_only_sends env 404 (getMimeType (ascii "*.html")) 0 p)
  exact ((hheader.of_file _ _ (.of_send env _ _ _)).close).of_call (by decide) rfl

/-- The branch for a regular file: the socket may stay open. -/
theorem send_regular_settled (path : Bytes) (size : Int) (h : Settled 0 p.calls) :
    Settled 0 (sendRegular env path size p).calls ∨
      Settled 1 (sendRegular env path size p).calls := by
  have hheader := h.of_sends
    (send_header_only_sends env 200 (getMimeType path) (toInt size) p)
  unfold sendRegular
  cases env.openFile (repath path) with
  | none => exact .inl (hheader.of_call (by simp) rfl)
  | some file =>
      simp only
      generalize hopened : (sendHeader env 200 (getMimeType path) (toInt size) p).call
        (.openFile (repath path) true) = opened
      have hloop := send_loop_only_sends env file (file.content.length + 1) 0 (zeros 2048)
        opened
      generalize sendLoop env file (file.content.length + 1) 0 (zeros 2048) opened = final at hloop
      obtain ⟨completed, final⟩ := final
      have hfile := hheader.of_file (repath path) true (hopened ▸ hloop)
      cases completed with
      | true => exact .inr (hfile.close.of_call (by decide) rfl)
      | false => exact .inl hfile

variable (env) in
/-- The branch for a directory: the socket stays open if it cannot be scanned. -/
theorem send_directory_settled (path : Bytes) (h : Settled 0 p.calls) :
    Settled 0 (sendDirectory env path p).calls ∨ Settled 1 (sendDirectory env path p).calls := by
  have hheader := h.of_sends
    (send_header_only_sends env 200 (getMimeType (ascii "*.html")) 0 p)
  have hscan := hheader.of_call (c := .scandir (repath path)) (by simp) rfl
  unfold sendDirectory
  cases env.scandir (repath path) with
  | none => exact .inl hscan
  | some namelist =>
      exact .inr ((((hscan.of_file _ _ (.of_send env _ _ _)).of_sends
        (send_entries_only_sends env _ _ _ _ _)).of_file _ _ (.of_send env _ _ _)).close.of_call
          (by decide) rfl)

/-! ## `SendData` -/

/-- Every file that `SendData` opens is closed, and the socket is closed at most once. -/
theorem send_data_settled (env : Env) (path : Bytes) :
    Settled 0 (sendData env path) ∨ Settled 1 (sendData env path) := by
  have hstart : Settled 0 (Progress.start.call (.stat (repath path))).calls := ⟨rfl, rfl⟩
  unfold sendData
  cases env.stat (repath path) with
  | none => exact .inr (send_not_found_settled hstart)
  | some status =>
      obtain ⟨kind, size⟩ := status
      cases kind with
      | regular => exact send_regular_settled path size hstart
      | directory => exact send_directory_settled env path hstart
      | other => exact .inl hstart

/-- Every file that `SendData` opens is closed when it returns. -/
theorem send_data_files_closed (env : Env) (path : Bytes) :
    filesOpen (sendData env path) = some 0 := by
  rcases send_data_settled env path with h | h <;> exact h.2

/-- `SendData` finishes the connection when it comes to the end of a branch, and only then. For
every path and all outcomes of the system calls: the client's socket has been closed exactly once,
and every file that was opened has been closed, if and only if there is no such file, or it is a
regular file that can be opened and no `send` of a block fails, or a directory that can be
scanned. -/
theorem send_data_finishes_iff (env : Env) (path : Bytes) :
    ((sendData env path).count .close = 1 ∧ filesOpen (sendData env path) = some 0) ↔
      sendDataCloses env path := by
  rw [← send_data_closes_iff, ← List.count_pos_iff]
  rcases send_data_settled env path with ⟨hclosed, hfiles⟩ | ⟨hclosed, hfiles⟩
  · simp [hclosed]
  · simp [hclosed, hfiles]

/-- A document root in which every name is a pipe. -/
def pipeEnv : Env where
  stat _ := some ⟨.other, 0⟩
  openFile _ := none
  scandir _ := none
  send _ := .accept 4095

/-- A request for a pipe leaves the connection open. -/
theorem send_data_leaves_open :
    ¬ ∀ (env : Env) (path : Bytes),
      (sendData env path).count .close = 1 ∧ filesOpen (sendData env path) = some 0 := by
  intro h
  exact absurd (h pipeEnv (ascii "/fifo")).1 (by decide)

end UnixNet.EpollWeb
