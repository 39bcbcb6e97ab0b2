import UnixNet.Lib.Text

/-!
# The read callbacks of the echo servers with a `bufferevent`

`conn_readcb` of `helloworld-change.c` and `readcb` of `myWwriteDemo.c` read at most 1500 bytes of
the input buffer into an array, print the array and write it back; the first one writes as many
bytes as it has read, the second one as many as `strlen` counts. What stays in the input buffer is
read when more arrives. `lossless_iff` says that after every callback all that has arrived is
written back if and only if the callback writes back every single arrival, and
`whole_conn_readcb_iff` and `whole_readcb_iff` which ones the two callbacks do.
-/

namespace UnixNet.Libevent

open NetLib

/-- What a callback writes back of the input buffer, and what it leaves in it. The first argument is
what is in the memory behind the array, up to a NUL. -/
abbrev Callback := Bytes → Bytes → Bytes × Bytes

/-- `char buf[1500] = ""; bufferevent_read(bev, buf, sizeof(buf));` -/
def readBuffer (input : Bytes) : Bytes :=
  overwrite (input.take 1500) (zeros 1500)

/-- `conn_readcb`, where `n` is what `bufferevent_read` returns. Only the echo is modelled: the
`printf` in front of it reads on behind a full array without NUL. -/
def connReadcb : Callback := fun _ input =>
  let n := (input.take 1500).length
  ((readBuffer input).take n, input.drop 1500)

/-- `readcb`. `strlen` counts the bytes behind the array if there is no NUL in it. -/
def readcb : Callback := fun behind input =>
  (cstr (readBuffer input ++ behind), input.drop 1500)

/-- The input buffer, and what was written back so far. -/
structure Buffers where
  input : Bytes
  echoed : Bytes

/-- Something arrives, and the callback is called. -/
def Buffers.arrive (callback : Callback) (s : Buffers) (arrival : Bytes × Bytes) : Buffers :=
  let (echo, left) := callback arrival.2 (s.input ++ arrival.1)
  ⟨left, s.echoed ++ echo⟩

/-- A connection after a sequence of arrivals, each with what is behind the array then. -/
def runCallbacks (callback : Callback) (s : Buffers) (arrivals : List (Bytes × Bytes)) : Buffers :=
  arrivals.foldl (Buffers.arrive callback) s

/-- After each callback, what was written back is what has arrived. -/
def Lossless (callback : Callback) (arrivals : List Bytes) : Prop :=
  ∀ run : List (Bytes × Bytes), run.map Prod.fst <+: arrivals →
    (runCallbacks callback ⟨[], []⟩ run).echoed = (run.map Prod.fst).flatten

/-- The callback writes back an input as it is, whatever is behind the array. -/
def Whole (callback : Callback) (input : Bytes) : Prop :=
  ∀ behind, (callback behind input).1 = input

/-- The callback leaves nothing of an input that it writes back as it is. -/
def Drains (callback : Callback) : Prop :=
  ∀ input, Whole callback input → ∀ behind, (callback behind input).2 = []

variable {callback : Callback}

/-- An arrival that is written back as a whole. -/
theorem arrive_of_whole (hleft : Drains callback) {data : Bytes} (h : Whole callback data)
    (behind echoed : Bytes) :
    Buffers.arrive callback ⟨[], echoed⟩ (data, behind) = ⟨[], echoed ++ data⟩ := by
  show (⟨(callback behind data).2, echoed ++ (callback behind data).1⟩ : Buffers) = _
  rw [hleft data h, h behind]

/-- Arrivals that are written back as a whole, one after the other. -/
theorem run_of_whole (hleft : Drains callback) {run : List (Bytes × Bytes)}
    (h : ∀ arrival ∈ run, Whole callback arrival.1) (echoed : Bytes) :
    runCallbacks callback ⟨[], echoed⟩ run = ⟨[], echoed ++ (run.map Prod.fst).flatten⟩ := by
  induction run generalizing echoed with
  | nil =>
      rw [List.map_nil, List.flatten_nil, List.append_nil]
      rfl
  | cons arrival run ih =>
      show runCallbacks callback (Buffers.arrive callback ⟨[], echoed⟩ arrival) run = _
      rw [arrive_of_whole hleft (h arrival List.mem_cons_self),
        ih fun a ha => h a (List.mem_cons_of_mem _ ha), List.map_cons, List.flatten_cons,
        List.append_assoc]

/-- If after each callback all that has arrived is written back, the callback writes back each
arrival as a whole: the first one, and those that come after it. -/
theorem whole_of_lossless (hleft : Drains callback) {arrivals : List Bytes} {echoed : Bytes}
    (h : ∀ run : List (Bytes × Bytes), run.map Prod.fst <+: arrivals →
      (runCallbacks callback ⟨[], echoed⟩ run).echoed = echoed ++ (run.map Prod.fst).flatten) :
    ∀ data ∈ arrivals, Whole callback data := by
  induction arrivals generalizing echoed with
  | nil => exact fun data hdata => absurd hdata List.not_mem_nil
  | cons first rest ih =>
      have hfirst : Whole callback first := by
        intro behind
        have hrun := h [(first, behind)] (List.prefix_append [first] rest)
        have hone : echoed ++ (callback behind first).1 = echoed ++ (first ++ []) := hrun
        rw [List.append_nil] at hone
        exact List.append_cancel_left hone
      -- after the first arrival the input buffer is empty again
      have hrest : ∀ data ∈ rest, Whole callback data := by
        refine @ih (echoed ++ first) fun run hrun => ?_
        have hlonger := h ((first, []) :: run) (List.cons_prefix_cons.mpr ⟨rfl, hrun⟩)
        have hnext : runCallbacks callback ⟨[], echoed⟩ ((first, []) :: run) =
            runCallbacks callback (Buffers.arrive callback ⟨[], echoed⟩ (first, [])) run := rfl
        rw [hnext, arrive_of_whole hleft hfirst, List.map_cons, List.flatten_cons,
          ← List.append_assoc] at hlonger
        exact hlonger
      intro data hdata
      rcases List.mem_cons.mp hdata with rfl | hmem
      · exact hfirst
      · exact hrest data hmem

/-- All that has arrived is written back after each callback if and only if the callback writes back
each arrival as a whole. -/
theorem lossless_iff (hleft : Drains callback) (arrivals : List Bytes) :
    Lossless callback arrivals ↔ ∀ data ∈ arrivals, Whole callback data := by
  refine ⟨fun h => whole_of_lossless hleft h, fun h run hrun => ?_⟩
  have hwhole : ∀ arrival ∈ run, Whole callback arrival.1 := fun arrival harrival =>
    h _ (hrun.subset (List.mem_map_of_mem harrival))
  rw [run_of_whole hleft hwhole]
  rfl

/-! ## The two callbacks -/

/-- `conn_readcb` writes back up to 1500 bytes. -/
theorem whole_conn_readcb_iff (data : Bytes) : Whole connReadcb data ↔ data.length ≤ 1500 := by
  have hecho : ∀ behind, (connReadcb behind data).1 = data.take 1500 := by
    intro behind
    show (overwrite (data.take 1500) (zeros 1500)).take (data.take 1500).length = _
    rw [take_overwrite (Nat.le_refl _), List.take_length]
  refine ⟨fun h => ?_, fun h behind => ?_⟩
  · have hlength := congrArg List.length ((hecho []).symm.trans (h []))
    rw [List.length_take] at hlength
    omega
  · rw [hecho, List.take_of_length_le h]

/-- `readcb` writes back up to 1499 bytes without NUL. -/
theorem whole_readcb_iff (data : Bytes) : Whole readcb data ↔ data.length < 1500 ∧ 0 ∉ data := by
  refine ⟨fun h => ?_, fun ⟨hlength, hzero⟩ behind => ?_⟩
  · have hzero : 0 ∉ data := by
      rw [← h []]
      exact zero_not_mem_cstr _
    refine ⟨?_, hzero⟩
    by_contra hlong
    have hfull : (data.take 1500).length = 1500 := by
      rw [List.length_take]
      omega
    have hbuf : readBuffer data = data.take 1500 := by
      rw [readBuffer, overwrite, hfull, zeros, List.drop_replicate]
      exact List.append_nil _
    have htake : 0 ∉ data.take 1500 := fun hmem => hzero (List.mem_of_mem_take hmem)
    -- the text does not end with the array, and what is behind it is written back as well
    have hecho : ∀ behind : Bytes, 0 ∉ behind → data.take 1500 ++ behind = data := by
      intro behind hbehind
      have hwhole := h behind
      rw [readcb, hbuf, cstr_eq_self (by simp [htake, hbehind])] at hwhole
      exact hwhole
    have hone := (hecho [] List.not_mem_nil).trans (hecho [1] (by decide)).symm
    exact absurd (List.append_cancel_left hone) (by decide)
  · show cstr (overwrite (data.take 1500) (zeros 1500) ++ behind) = data
    obtain ⟨room, hroom⟩ := Nat.exists_eq_add_of_lt hlength
    have hdrop : (zeros 1500).drop data.length = 0 :: zeros room := by
      rw [zeros, List.drop_replicate, hroom, Nat.add_assoc, Nat.add_sub_cancel_left]
      rfl
    rw [List.take_of_length_le (Nat.le_of_lt hlength), overwrite, hdrop, List.append_assoc]
    exact cstr_append hzero _

/-- Nothing stays in the input buffer of what `conn_readcb` writes back as a whole. -/
theorem conn_readcb_drains : Drains connReadcb := fun input h _ =>
  List.drop_eq_nil_of_le ((whole_conn_readcb_iff input).mp h)

theorem readcb_drains : Drains readcb := fun input h _ =>
  List.drop_eq_nil_of_le (Nat.le_of_lt ((whole_readcb_iff input).mp h).1)

/-- What `conn_readcb` has written back after each callback is what has arrived if and only if no
arrival has more than 1500 bytes; for `readcb` if and only if each arrival has less than 1500 bytes
and no NUL. -/
theorem echo_lossless_iff (arrivals : List Bytes) :
    (Lossless connReadcb arrivals ↔ ∀ data ∈ arrivals, data.length ≤ 1500) ∧
      (Lossless readcb arrivals ↔ ∀ data ∈ arrivals, data.length < 1500 ∧ 0 ∉ data) := by
  rw [lossless_iff conn_readcb_drains, lossless_iff readcb_drains]
  exact ⟨forall₂_congr fun data _ => whole_conn_readcb_iff data,
    forall₂_congr fun data _ => whole_readcb_iff data⟩

/-- An arrival of 1501 bytes, and one with a NUL. -/
theorem echo_not_lossless :
    ¬ Lossless connReadcb [List.replicate 1501 65] ∧ ¬ Lossless readcb [[65, 0, 66]] := by
  refine ⟨fun h => ?_, fun h => ?_⟩
  · have hlength := (whole_conn_readcb_iff _).mp
      (whole_of_lossless conn_readcb_drains h _ List.mem_cons_self)
    rw [List.length_replicate] at hlength
    exact absurd hlength (by decide)
  · have hshort := (whole_readcb_iff _).mp
      (whole_of_lossless readcb_drains h _ List.mem_cons_self)
    exact absurd hshort.2 (by decide)

end UnixNet.Libevent
