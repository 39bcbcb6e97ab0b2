import UnixNet.Host
import UnixNet.Lib.Execution

/-!
# What the libevent servers do to a connection

A response as the sequence of calls that produce it, and what is in the output buffer of the
connection after them. Of libevent only the behaviour of `bufferevent_write` matters: a call
appends all its bytes to the output buffer and returns 0, or fails and returns -1. `Env.write`
tells which calls succeed, by their number.
-/

namespace UnixNet.Bufferevent

open NetLib

/-- The calls of a request handler. `write data queued` is a `bufferevent_write` that succeeded if
`queued` holds; `closeFile` closes a file and `closeDir` a directory, which were opened if `opened`
holds. -/
inductive Call where
  | stat (path : Bytes)
  | openFile (path : Bytes) (opened : Bool)
  | closeFile (opened : Bool)
  | scandir (path : Bytes)
  | openDir (path : Bytes) (opened : Bool)
  | closeDir
  | write (data : Bytes) (queued : Bool)
  | free
  deriving DecidableEq

/-- What the calls of one request return. -/
structure Env extends Host where
  write : Nat → Bool

/-- The calls made so far, and how many of them were `bufferevent_write`. -/
structure Progress where
  writes : Nat
  calls : List Call

/-- No call has been made. -/
def Progress.start : Progress := ⟨0, []⟩

/-- One more call other than `bufferevent_write`. -/
def Progress.call (p : Progress) (c : Call) : Progress :=
  { p with calls := p.calls ++ [c] }

/-- `bufferevent_write(bev, data, size)` -/
def Progress.write (p : Progress) (env : Env) (data : Bytes) (size : Int) : Int × Progress :=
  (if env.write p.writes then 0 else -1,
    ⟨p.writes + 1, p.calls ++ [.write (data.take size.toNat) (env.write p.writes)]⟩)

/-- The bytes one call appends to the output buffer. -/
def Call.queued : Call → Bytes
  | .write data true => data
  | _ => []

/-- The bytes in the output buffer. -/
def queued (calls : List Call) : Bytes :=
  calls.flatMap Call.queued

/-- The bytes of two lists of calls. -/
theorem queued_append (first second : List Call) :
    queued (first ++ second) = queued first ++ queued second :=
  List.flatMap_append

variable {env : Env}

/-- A call other than `bufferevent_write` queues nothing. -/
theorem queued_call {c : Call} (p : Progress) (hc : c.queued = []) :
    queued (p.call c).calls = queued p.calls := by
  simp [queued, Progress.call, hc]

/-- A successful write queues its bytes, a failing one nothing. -/
theorem queued_write (p : Progress) (data : Bytes) (size : Int) :
    queued (p.write env data size).2.calls =
      queued p.calls ++ (if env.write p.writes then data.take size.toNat else []) := by
  cases hwrite : env.write p.writes <;> simp [queued, Progress.write, hwrite, Call.queued]

variable (env) in
/-- Writing a formatted text that fits its buffer writes the text. -/
theorem write_text {p : Progress} {buf text : Bytes} (hfit : text.length < buf.length) :
    p.write env (snprintf buf text).2 (snprintf buf text).1 = p.write env text text.length := by
  have htake : (snprintf buf text).2.take text.length = text.take text.length :=
    take_snprintf (Nat.le_refl _) hfit
  have hlen : (snprintf buf text).1.toNat = text.length := Int.toNat_natCast _
  simp only [Progress.write, hlen, htake, Int.toNat_natCast]

/-! ## Writing until a write fails -/

/-- Write one text after the other; the first failing write ends it. -/
def writeAll (env : Env) : List Bytes → Progress → Progress
  | [], p => p
  | text :: rest, p =>
      if (p.write env text text.length).1 < 0 then (p.write env text text.length).2
      else writeAll env rest (p.write env text text.length).2

/-- A write that succeeds goes on to the next text, one that fails does not. -/
theorem write_all_cons (text : Bytes) (rest : List Bytes) (p : Progress) :
    writeAll env (text :: rest) p =
      if env.write p.writes then writeAll env rest (p.write env text text.length).2
      else (p.write env text text.length).2 := by
  cases hwrite : env.write p.writes <;> simp [writeAll, Progress.write, hwrite]

variable (env) in
/-- When all writes succeed, all texts are queued. -/
theorem write_all_queued {texts : List Bytes} {p : Progress}
    (h : ∀ i < texts.length, env.write (p.writes + i) = true) :
    (writeAll env texts p).writes = p.writes + texts.length ∧
      queued (writeAll env texts p).calls = queued p.calls ++ texts.flatten := by
  induction texts generalizing p with
  | nil => simp [writeAll]
  | cons text rest ih =>
      have hfirst : env.write p.writes = true := h 0 (by simp)
      have hrest : ∀ i < rest.length,
          env.write ((p.write env text text.length).2.writes + i) = true := by
        intro i hi
        show env.write (p.writes + 1 + i) = true
        rw [Nat.add_assoc, Nat.add_comm 1 i]
        exact h (i + 1) (by simpa using hi)
      obtain ⟨hwrites, hqueued⟩ := ih hrest
      rw [write_all_cons, if_pos hfirst]
      constructor
      · rw [hwrites]
        show p.writes + 1 + rest.length = _
        rw [List.length_cons]
        omega
      · rw [hqueued, queued_write, if_pos hfirst, Int.toNat_natCast, List.take_length,
          List.append_assoc, List.flatten_cons]

variable (env) in
/-- When a write fails, only the texts before it are queued. -/
theorem write_all_stopped {texts : List Bytes} {p : Progress}
    (h : ¬ ∀ i < texts.length, env.write (p.writes + i) = true) :
    ∃ k < texts.length,
      queued (writeAll env texts p).calls = queued p.calls ++ (texts.take k).flatten := by
  induction texts generalizing p with
  | nil => exact absurd (fun i hi => absurd hi (by simp)) h
  | cons text rest ih =>
      rw [write_all_cons]
      cases hfirst : env.write p.writes with
      | false =>
          refine ⟨0, by simp, ?_⟩
          rw [if_neg Bool.false_ne_true, queued_write, hfirst]
          simp
      | true =>
          have hrest : ¬ ∀ i < rest.length,
              env.write ((p.write env text text.length).2.writes + i) = true := by
            intro hall
            refine h fun i hi => ?_
            cases i with
            | zero => exact hfirst
            | succ i =>
                have hnext := hall i (by simpa using hi)
                rwa [show p.writes + (i + 1) = (p.write env text text.length).2.writes + i by
                  show p.writes + (i + 1) = p.writes + 1 + i
                  omega]
          obtain ⟨k, hk, hqueued⟩ := ih hrest
          refine ⟨k + 1, by simpa using hk, ?_⟩
          rw [if_pos rfl, hqueued, queued_write, if_pos hfirst, Int.toNat_natCast,
            List.take_length, List.append_assoc, List.take_succ_cons, List.flatten_cons]

/-! ## Stages of a request -/

/-- A later stage of a request: more calls were made, and none of them frees the connection. -/
def Working (p next : Progress) : Prop :=
  ∃ made, next.calls = p.calls ++ made ∧ .free ∉ made

theorem Working.refl (p : Progress) : Working p p :=
  ⟨[], (List.append_nil _).symm, List.not_mem_nil⟩

theorem Working.trans {first second third : Progress} (h : Working first second)
    (hnext : Working second third) : Working first third := by
  obtain ⟨made, hcalls, hfree⟩ := h
  obtain ⟨more, hcallsNext, hfreeNext⟩ := hnext
  refine ⟨made ++ more, by rw [hcallsNext, hcalls, List.append_assoc], ?_⟩
  rw [List.mem_append, not_or]
  exact ⟨hfree, hfreeNext⟩

/-- Any other call leaves the connection alone. -/
theorem Working.call (p : Progress) {c : Call} (hc : c ≠ .free) : Working p (p.call c) :=
  ⟨[c], rfl, by simpa using hc.symm⟩

theorem Working.write (p : Progress) (data : Bytes) (size : Int) :
    Working p (p.write env data size).2 :=
  ⟨_, rfl, by simp⟩

/-- The first call stays the first. -/
theorem Working.head {p next : Progress} (h : Working p next) (hne : p.calls ≠ []) :
    next.calls.head? = p.calls.head? := by
  obtain ⟨made, hcalls, -⟩ := h
  rw [hcalls, List.head?_append_of_ne_nil _ hne]

/-- Between two stages only calls of one kind were made. -/
def Makes (ok : Call → Prop) (p next : Progress) : Prop :=
  Extends ok p.calls next.calls

variable {ok : Call → Prop}

theorem Makes.refl (p : Progress) : Makes ok p p :=
  Extends.refl p.calls

theorem Makes.trans {first second third : Progress} (h : Makes ok first second)
    (hnext : Makes ok second third) : Makes ok first third :=
  Extends.trans h hnext

theorem Makes.call (p : Progress) {c : Call} (hc : ok c) : Makes ok p (p.call c) :=
  Extends.concat p.calls hc

theorem Makes.write (hwrite : ∀ data queued, ok (.write data queued)) (p : Progress) (data : Bytes)
    (size : Int) : Makes ok p (p.write env data size).2 :=
  Extends.concat p.calls (hwrite _ _)

/-- Calls of a kind that leaves the connection alone. -/
theorem Working.of_makes {p next : Progress} (h : Makes ok p next) (hfree : ¬ ok .free) :
    Working p next := by
  obtain ⟨made, hcalls, hmade⟩ := h
  exact ⟨made, hcalls, fun hmem => hfree (hmade _ hmem)⟩

/-- The connection is freed by a later stage if it was before. -/
theorem Working.free_iff {p next : Progress} (h : Working p next) :
    .free ∈ next.calls ↔ .free ∈ p.calls := by
  obtain ⟨made, hcalls, hfree⟩ := h
  rw [hcalls, List.mem_append, or_iff_left hfree]

end UnixNet.Bufferevent
