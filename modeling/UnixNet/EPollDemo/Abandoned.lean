import UnixNet.EPollDemo.Server

/-!
# Connections that the epoll servers abandon

After a failing `read` both servers take the descriptor out of the interest list and do not close
it. `demo02` goes on to the next descriptor; `demo03` reads on, and closes the descriptor if it
comes to the end of the connection before it comes to EAGAIN. A descriptor that is left behind in
this way stays open and unlisted for ever (`none_abandoned_iff`). `Watching` is what both servers
keep, with two parameters: whether a read has failed in the inner loop that is running, and whether
a descriptor was left behind. -/

namespace UnixNet.EPollDemo

open NetLib

/-- Every open descriptor is in the interest list, and every descriptor that was taken out of it has
been closed. -/
def NoneAbandoned (k : Kernel Nat UInt8) : Prop :=
  (∀ fd i, k.interest fd = some i → i = .listed) ∧ ∀ fd, k.interest fd ≠ some .removed

/-- A read has failed, with something else than EAGAIN, in the inner loop that the events end in. -/
def failing (events : List Event) : Bool :=
  events.foldl (fun failed event =>
    match event with
    | .readFailed errno => decide (errno ≠ .eagain)
    | .readEof => false
    | _ => failed) false

/-- The inner loop of `demo03` ends with EAGAIN after a read has failed in it. -/
def LeftBehind (before : List Event) (event : Event) : Prop :=
  event = .readFailed .eagain ∧ failing before = true

/-- What holds of the descriptors. Those that the `for` loop is not done with are listed, except the
one whose inner loop has seen a failing read; those that are open and were removed from the list,
and are not in the `for` loop, are the ones left behind. -/
structure Watching (failed lost : Prop) (lfd : Nat) (s : Server) : Prop where
  listener : s.kernel.interest lfd = none
  nodup : s.pc.batch.Nodup
  batch : ∀ fd ∈ s.pc.batch, fd ≠ lfd → s.kernel.interest fd = some .listed ∨
    failed ∧ s.pc.batch.head? = some fd
  failed : failed → ∃ fd rest, s.pc = .serving (fd :: rest) ∧ fd ≠ lfd ∧
    s.kernel.interest fd = some .removed
  adding : ∀ cfd rest, s.pc = .adding cfd rest → s.kernel.interest cfd = some .never ∧ cfd ∉ rest
  never : ∀ fd, s.kernel.interest fd = some .never → ∃ rest, s.pc = .adding fd rest
  lost : lost ↔ ∃ fd, s.kernel.interest fd = some .removed ∧ fd ∉ s.pc.batch

variable {failed lost : Prop} {lfd fd : Nat} {rest : List Nat} {s next : Server} {event : Event}

/-! ## Places in the loop -/

/-- While descriptors are served, none is being added. -/
theorem serving_ne_adding {batch : List Nat} (hpc : s.pc = .serving batch) :
    ∀ cfd rest, s.pc ≠ .adding cfd rest := by
  intro cfd rest hadding
  rw [hpc] at hadding
  cases hadding

/-- At `epoll_wait` no descriptor is being added. -/
theorem waiting_ne_adding (hpc : s.pc = .waiting) : ∀ cfd rest, s.pc ≠ .adding cfd rest := by
  intro cfd rest hadding
  rw [hpc] at hadding
  cases hadding

/-- The `for` loop does not begin with adding a descriptor. -/
theorem forLoop_ne_adding (batch : List Nat) : ∀ cfd rest, forLoop batch ≠ .adding cfd rest := by
  intro cfd rest hadding
  cases batch <;> cases hadding

/-- At `epoll_wait` no client is served. -/
theorem waiting_not_serving (hpc : s.pc = .waiting) :
    ∀ fd rest, s.pc = .serving (fd :: rest) → fd = lfd := by
  intro fd rest hserving
  rw [hpc] at hserving
  cases hserving

/-- While the listening descriptor is served, no client is. -/
theorem listener_served (hpc : s.pc = .serving (lfd :: rest)) :
    ∀ fd left, s.pc = .serving (fd :: left) → fd = lfd := by
  intro fd left hserving
  rw [hpc] at hserving
  exact (List.cons.inj (Pc.serving.inj hserving)).1.symm

/-! ## What both servers keep -/

/-- The listening descriptor is no connection. -/
theorem Watching.ne_listener (h : Watching failed lost lfd s) {i : Interest}
    (hi : s.kernel.interest fd = some i) : fd ≠ lfd := by
  rintro rfl
  rw [h.listener] at hi
  cases hi

/-- A descriptor is not yet in the list only between `Accept` and `EPOLL_CTL_ADD`. -/
theorem Watching.not_never (h : Watching failed lost lfd s)
    (hpc : ∀ cfd rest, s.pc ≠ .adding cfd rest) : s.kernel.interest fd ≠ some .never := by
  intro hnever
  obtain ⟨rest, hadding⟩ := h.never fd hnever
  exact hpc fd rest hadding

/-- A read has failed only while the loop serves a client. -/
theorem Watching.not_failed (h : Watching failed lost lfd s)
    (hpc : ∀ fd rest, s.pc = .serving (fd :: rest) → fd = lfd) : ¬ failed := by
  intro hf
  obtain ⟨fd, rest, hserving, hne, -⟩ := h.failed hf
  exact hne (hpc fd rest hserving)

/-- The descriptor that is served: it was taken out of the list if a read has failed. -/
theorem Watching.served (h : Watching failed lost lfd s) (hpc : s.pc = .serving (fd :: rest))
    (hne : fd ≠ lfd) :
    failed ∧ s.kernel.interest fd = some .removed ∨
      ¬ failed ∧ s.kernel.interest fd = some .listed := by
  by_cases hf : failed
  · obtain ⟨d, left, hserving, -, hremoved⟩ := h.failed hf
    rw [hpc] at hserving
    obtain ⟨rfl, -⟩ := List.cons.inj (Pc.serving.inj hserving)
    exact .inl ⟨hf, hremoved⟩
  · have hmem : fd ∈ s.pc.batch := by
      rw [hpc]
      exact List.mem_cons_self
    exact .inr ⟨hf, (h.batch fd hmem hne).resolve_right fun hfailed => hf hfailed.1⟩

/-- At `epoll_wait` no descriptor is abandoned unless one was left behind. -/
theorem Watching.at_wait (h : Watching failed lost lfd s) (hwait : s.pc = .waiting) :
    NoneAbandoned s.kernel ↔ ¬ lost := by
  rw [h.lost, hwait]
  constructor
  · rintro ⟨-, hremoved⟩ ⟨fd, hfd, -⟩
    exact hremoved fd hfd
  · intro hlost
    have hremoved : ∀ fd, s.kernel.interest fd ≠ some .removed :=
      fun fd hfd => hlost ⟨fd, hfd, List.not_mem_nil⟩
    refine ⟨fun fd i hi => ?_, hremoved⟩
    cases i with
    | listed => rfl
    | removed => exact absurd hi (hremoved fd)
    | never => exact absurd hi (h.not_never (waiting_ne_adding hwait))

/-- Nothing is left behind, and nothing was reported, in the beginning. -/
theorem Watching.start : Watching False False lfd Server.start where
  listener := rfl
  nodup := List.nodup_nil
  batch _ hfd := absurd hfd List.not_mem_nil
  failed h := h.elim
  adding _ _ hpc := by cases hpc
  never _ h := by cases h
  lost := ⟨False.elim, by rintro ⟨fd, hfd, -⟩; cases hfd⟩

/-- What changes neither the interest list nor the place in the loop. -/
theorem Watching.same (h : Watching failed lost lfd s) (hpc : next.pc = s.pc)
    (hinterest : ∀ d, next.kernel.interest d = s.kernel.interest d) :
    Watching failed lost lfd next := by
  constructor
  all_goals simp only [hpc, hinterest]
  exacts [h.listener, h.nodup, h.batch, h.failed, h.adding, h.never, h.lost]

/-- The descriptors behind the one that is served are listed. -/
theorem Watching.listed_of_rest (h : Watching failed lost lfd s)
    (hpc : s.pc = .serving (fd :: rest)) {d : Nat} (hd : d ∈ rest) (hne : d ≠ lfd) :
    s.kernel.interest d = some .listed := by
  have hnodup := h.nodup
  have hbatch := h.batch d
  rw [hpc] at hnodup hbatch
  refine (hbatch (List.mem_cons_of_mem fd hd) hne).resolve_right ?_
  rintro ⟨-, hhead⟩
  obtain rfl : fd = d := Option.some.inj hhead
  exact (List.nodup_cons.mp hnodup).1 hd

/-- The loop goes on to a descriptor behind the one that is served, which it leaves with the
interest `i`: left behind if that is `removed`. -/
theorem Watching.leave (h : Watching failed lost lfd s) (hpc : s.pc = .serving (fd :: rest))
    (hne : fd ≠ lfd) {later : List Nat} {i : Option Interest} (hsub : later.Sublist rest)
    (hnext : next.pc = forLoop later) (hi : i ≠ some .never)
    (hinterest : ∀ d, next.kernel.interest d = if d = fd then i else s.kernel.interest d) :
    Watching False (lost ∨ i = some .removed) lfd next := by
  have hnodup := h.nodup
  rw [hpc] at hnodup
  obtain ⟨hfd, hnodup⟩ := List.nodup_cons.mp hnodup
  have hnot : fd ∉ later := fun hmem => hfd (hsub.subset hmem)
  have hbatch : next.pc.batch = later := by rw [hnext, batch_forLoop]
  have hkeep : ∀ d, d ≠ fd → next.kernel.interest d = s.kernel.interest d := by
    intro d hd
    rw [hinterest, if_neg hd]
  refine ⟨?_, ?_, ?_, False.elim, ?_, ?_, ?_⟩
  · rw [hkeep lfd hne.symm, h.listener]
  · rw [hbatch]
    exact hsub.nodup hnodup
  · rw [hbatch]
    intro d hd hlfd
    rw [hkeep d fun heq => hnot (heq ▸ hd)]
    exact .inl (h.listed_of_rest hpc (hsub.subset hd) hlfd)
  · intro cfd left hadding
    exact absurd (hnext.symm.trans hadding) (forLoop_ne_adding later cfd left)
  · intro d hd
    by_cases hdfd : d = fd
    · rw [hinterest, if_pos hdfd] at hd
      exact absurd hd hi
    · rw [hkeep d hdfd] at hd
      exact absurd hd (h.not_never (serving_ne_adding hpc))
  · rw [hbatch, h.lost, hpc]
    constructor
    · rintro (⟨d, hd, hmem⟩ | hremoved)
      · have hmem : d ∉ fd :: rest := hmem
        obtain ⟨hdfd, hrest⟩ := not_or.mp (mt List.mem_cons.mpr hmem)
        exact ⟨d, (hkeep d hdfd).trans hd, fun hlater => hrest (hsub.subset hlater)⟩
      · exact ⟨fd, by rw [hinterest, if_pos rfl, hremoved], hnot⟩
    · rintro ⟨d, hd, -⟩
      by_cases hdfd : d = fd
      · rw [hinterest, if_pos hdfd] at hd
        exact .inr hd
      · rw [hkeep d hdfd] at hd
        refine .inl ⟨d, hd, fun hmem => ?_⟩
        have hrest : d ∈ rest := (List.mem_cons.mp hmem).resolve_left hdfd
        -- what is behind the served descriptor is listed
        rw [h.listed_of_rest hpc hrest (h.ne_listener hd)] at hd
        cases hd

/-- The served descriptor is taken out of the list, and is served on. -/
theorem Watching.remove (h : Watching failed lost lfd s) (hpc : s.pc = .serving (fd :: rest))
    (hne : fd ≠ lfd) (hnext : next.pc = s.pc)
    (hinterest : ∀ d, next.kernel.interest d =
      if d = fd then (s.kernel.interest d).map fun _ => .removed else s.kernel.interest d) :
    Watching True lost lfd next := by
  have hkeep : ∀ d, d ≠ fd → next.kernel.interest d = s.kernel.interest d := by
    intro d hd
    rw [hinterest, if_neg hd]
  have hremoved : next.kernel.interest fd = some .removed := by
    rw [hinterest, if_pos rfl]
    rcases h.served hpc hne with ⟨-, hi⟩ | ⟨-, hi⟩ <;> rw [hi, Option.map_some]
  refine ⟨?_, ?_, ?_, fun _ => ⟨fd, rest, hnext.trans hpc, hne, hremoved⟩, ?_, ?_, ?_⟩
  · rw [hkeep lfd hne.symm, h.listener]
  · rw [hnext]
    exact h.nodup
  · rw [hnext, hpc]
    intro d hd hlfd
    rcases List.mem_cons.mp hd with rfl | hrest
    · exact .inr ⟨trivial, rfl⟩
    · by_cases hdfd : d = fd
      · exact .inr ⟨trivial, by rw [hdfd]; rfl⟩
      · rw [hkeep d hdfd]
        exact .inl (h.listed_of_rest hpc hrest hlfd)
  · intro cfd left hadding
    exact absurd (hnext.symm.trans hadding) (serving_ne_adding hpc cfd left)
  · intro d hd
    by_cases hdfd : d = fd
    · rw [hdfd, hremoved] at hd
      cases hd
    · rw [hkeep d hdfd] at hd
      rw [hnext]
      exact h.never d hd
  · -- what was left behind is another descriptor
    have hmem : fd ∈ s.pc.batch := by
      rw [hpc]
      exact List.mem_cons_self
    rw [hnext, h.lost]
    refine exists_congr fun d => and_congr_left fun hd => ?_
    rw [hkeep d fun heq => hd (heq ▸ hmem)]

/-- `epoll_wait` reports listed descriptors. -/
theorem Watching.wait (h : Watching failed lost lfd s) (hpc : s.pc = .waiting) {batch : List Nat}
    (hnodup : batch.Nodup)
    (hlisted : ∀ fd ∈ batch, fd ≠ lfd → s.kernel.interest fd = some .listed) :
    Watching failed lost lfd
      { s with pc := forLoop batch, kernel := s.kernel.report batch } := by
  have hfailed : ¬ failed := h.not_failed (waiting_not_serving hpc)
  refine ⟨interest_report.trans h.listener, ?_, ?_, fun hf => absurd hf hfailed, ?_, ?_, ?_⟩
  · show (forLoop batch).batch.Nodup
    rwa [batch_forLoop]
  · intro fd hfd hne
    have hfd : fd ∈ (forLoop batch).batch := hfd
    rw [batch_forLoop] at hfd
    exact .inl (interest_report.trans (hlisted fd hfd hne))
  · intro cfd rest hadding
    exact absurd hadding (forLoop_ne_adding batch cfd rest)
  · intro fd hfd
    exact absurd (interest_report.symm.trans hfd) (h.not_never (waiting_ne_adding hpc))
  · rw [h.lost, hpc]
    refine exists_congr fun fd => ?_
    rw [show (s.kernel.report batch).interest fd = s.kernel.interest fd from interest_report]
    refine and_congr_right fun hremoved => ?_
    show fd ∉ [] ↔ fd ∉ (forLoop batch).batch
    rw [batch_forLoop]
    refine iff_of_true List.not_mem_nil fun hmem => ?_
    rw [hlisted fd hmem (h.ne_listener hremoved)] at hremoved
    cases hremoved

/-- A connection gets a descriptor, which is not yet in the list. -/
theorem Watching.accept (h : Watching failed lost lfd s) (hpc : s.pc = .serving (lfd :: rest))
    {cfd : Nat} {x : Inbox UInt8} {queue : List (Inbox UInt8)} (hne : cfd ≠ lfd)
    (hfree : s.kernel.conn cfd = none) :
    Watching failed lost lfd
      { s with pc := .adding cfd rest, kernel := s.kernel.open x queue cfd } := by
  have hnone : s.kernel.interest cfd = none := by
    rw [Kernel.interest, hfree, Option.map_none]
  have hnodup := h.nodup
  rw [hpc] at hnodup
  obtain ⟨hlfd, hnodup⟩ := List.nodup_cons.mp hnodup
  have hlisted : ∀ d ∈ rest, s.kernel.interest d = some .listed :=
    fun d hd => h.listed_of_rest hpc hd fun heq => hlfd (heq ▸ hd)
  -- the descriptor is free, and those of the batch are in the interest list
  have hcfd : cfd ∉ rest := fun hmem => by
    rw [hlisted cfd hmem] at hnone
    cases hnone
  have hkeep : ∀ d, d ≠ cfd → (s.kernel.open x queue cfd).interest d = s.kernel.interest d := by
    intro d hd
    rw [interest_open, if_neg hd]
  have hnew : (s.kernel.open x queue cfd).interest cfd = some .never := by
    rw [interest_open, if_pos rfl]
  refine ⟨(hkeep lfd hne.symm).trans h.listener, hnodup, ?_, ?_, ?_, ?_, ?_⟩
  · intro d hd _
    exact .inl ((hkeep d fun heq => hcfd (heq ▸ hd)).trans (hlisted d hd))
  · intro hf
    exact absurd hf (h.not_failed (listener_served hpc))
  · intro d left hadding
    obtain ⟨rfl, rfl⟩ := Pc.adding.inj hadding
    exact ⟨hnew, hcfd⟩
  · intro d hd
    by_cases hdcfd : d = cfd
    · exact ⟨rest, by rw [hdcfd]⟩
    · rw [hkeep d hdcfd] at hd
      exact absurd hd (h.not_never (serving_ne_adding hpc))
  · rw [h.lost, hpc]
    refine exists_congr fun d => ?_
    show _ ↔ (s.kernel.open x queue cfd).interest d = some .removed ∧ d ∉ rest
    by_cases hdcfd : d = cfd
    · rw [hdcfd, hnew, hnone]
      simp
    · rw [hkeep d hdcfd]
      refine and_congr_right fun hremoved => not_congr ?_
      show d ∈ lfd :: rest ↔ d ∈ rest
      rw [List.mem_cons, or_iff_right (h.ne_listener hremoved)]

/-- The new descriptor is put into the list. -/
theorem Watching.add (h : Watching failed lost lfd s) {cfd : Nat} (hpc : s.pc = .adding cfd rest) :
    Watching failed lost lfd { s with pc := forLoop rest, kernel := s.kernel.add cfd } := by
  obtain ⟨hnever, hcfd⟩ := h.adding cfd rest hpc
  have hkeep : ∀ d, d ≠ cfd → (s.kernel.add cfd).interest d = s.kernel.interest d := by
    intro d hd
    rw [interest_add, if_neg hd]
  have hnew : (s.kernel.add cfd).interest cfd = some .listed := by
    rw [interest_add, if_pos rfl, hnever, Option.map_some]
  -- a descriptor is added right after it was accepted, and not after a failing `read`
  have hfailed : ¬ failed := by
    refine h.not_failed fun fd left hserving => ?_
    rw [hpc] at hserving
    cases hserving
  have hnodup := h.nodup
  have hbatch := h.batch
  rw [hpc] at hnodup hbatch
  refine ⟨?_, ?_, ?_, fun hf => absurd hf hfailed, ?_, ?_, ?_⟩
  · exact (hkeep lfd (h.ne_listener hnever).symm).trans h.listener
  · show (forLoop rest).batch.Nodup
    rwa [batch_forLoop]
  · intro d hd hlfd
    have hd : d ∈ (forLoop rest).batch := hd
    rw [batch_forLoop] at hd
    refine .inl ((hkeep d fun heq => hcfd (heq ▸ hd)).trans ?_)
    exact (hbatch d hd hlfd).resolve_right fun hf => hfailed hf.1
  · intro d left hadding
    exact absurd hadding (forLoop_ne_adding rest d left)
  · intro d hd
    by_cases hdcfd : d = cfd
    · rw [hdcfd, show _ = some Interest.listed from hnew] at hd
      cases hd
    · obtain ⟨left, hadding⟩ := h.never d ((hkeep d hdcfd).symm.trans hd)
      rw [hpc] at hadding
      exact absurd (Pc.adding.inj hadding).1.symm hdcfd
  · rw [h.lost, hpc]
    refine exists_congr fun d => ?_
    show _ ↔ (s.kernel.add cfd).interest d = some .removed ∧ d ∉ (forLoop rest).batch
    rw [batch_forLoop]
    by_cases hdcfd : d = cfd
    · rw [hdcfd, hnew, hnever]
      simp
    · rw [hkeep d hdcfd]
      rfl

/-- The process ends, at `epoll_wait` or in `Accept`. -/
theorem Watching.stop (h : Watching failed lost lfd s)
    (hpc : ∀ fd rest, s.pc = .serving (fd :: rest) → fd = lfd)
    (hadding : ∀ cfd rest, s.pc ≠ .adding cfd rest) :
    Watching failed lost lfd { s with pc := .ended } := by
  have hfailed : ¬ failed := h.not_failed hpc
  refine ⟨h.listener, List.nodup_nil, fun d hd => absurd hd List.not_mem_nil,
    fun hf => absurd hf hfailed, ?_, ?_, ?_⟩
  · intro cfd left hended
    cases hended
  · intro d hd
    exact absurd hd (h.not_never hadding)
  · rw [h.lost]
    refine exists_congr fun d => and_congr_right fun hremoved => ?_
    refine iff_of_true (fun hmem => ?_) List.not_mem_nil
    rcases h.batch d hmem (h.ne_listener hremoved) with hlisted | ⟨hf, -⟩
    · rw [hlisted] at hremoved
      cases hremoved
    · exact hfailed hf

/-- What the main loop does outside the branch for a client. -/
theorem Watching.main (h : Watching failed lost lfd s) {trigger : Kernel Nat UInt8 → Nat → Bool}
    {serve : Server → Nat → List Nat → Event → Option Server}
    (hlisted : ∀ k fd, trigger k fd = true → k.interest fd = some .listed)
    (hmove : Moves lfd trigger serve s event next)
    (hevent : ∀ fd rest, s.pc = .serving (fd :: rest) → fd ≠ lfd →
      serve s fd rest event = some next → Watching failed lost lfd next) :
    Watching failed lost lfd next := by
  cases hmove with
  | traffic t k ht => exact h.same rfl fun d => interest_traffic ht
  | forget fd => exact h.same rfl fun d => interest_forget
  | wait batch hpc hnodup hready =>
      exact h.wait hpc hnodup fun fd hfd hne => hlisted _ _ (hready fd hfd hne)
  | waitFailed hpc => exact h.stop (waiting_not_serving hpc) (waiting_ne_adding hpc)
  | accept cfd rest x queue hpc hne hfree => exact h.accept hpc hne hfree
  | acceptFailed rest hpc => exact h.stop (listener_served hpc) (serving_ne_adding hpc)
  | add cfd rest hpc => exact h.add hpc
  | serve _ _ fd rest hpc hne hserve => exact hevent fd rest hpc hne hserve

/-! ## The two branches for a client -/

/-- A read has failed somewhere in a run of `demo02`. -/
def ReadFailed (events : List Event) : Prop :=
  ∃ errno, .readFailed errno ∈ events

variable {done : List Event}

theorem readFailed_concat :
    ReadFailed (done ++ [event]) ↔ ReadFailed done ∨ ∃ errno, event = .readFailed errno := by
  unfold ReadFailed
  rw [← exists_or]
  refine exists_congr fun errno => ?_
  rw [List.mem_append, List.mem_singleton, eq_comm (a := event)]

theorem failing_concat : failing (done ++ [event]) =
    match event with
    | .readFailed errno => decide (errno ≠ .eagain)
    | .readEof => false
    | _ => failing done := by
  rw [failing, List.foldl_append]
  rfl

/-- What a branch does that does not touch the interest list and goes on: the descriptor is left
behind if a read has failed. -/
theorem Watching.leave_same (h : Watching failed lost lfd s) (hpc : s.pc = .serving (fd :: rest))
    (hne : fd ≠ lfd) (hnext : next.pc = forLoop rest)
    (hinterest : ∀ d, next.kernel.interest d = s.kernel.interest d) :
    Watching False (lost ∨ failed) lfd next := by
  have hsame : ∀ d, next.kernel.interest d =
      if d = fd then s.kernel.interest fd else s.kernel.interest d := by
    intro d
    rw [hinterest]
    split
    · next hd => rw [hd]
    · rfl
  have hleave := h.leave hpc hne (List.Sublist.refl rest) hnext
    (h.not_never (serving_ne_adding hpc)) hsame
  rcases h.served hpc hne with ⟨hf, hi⟩ | ⟨hf, hi⟩
  · simpa [hf, hi] using hleave
  · simpa [hf, hi] using hleave

/-- A round of `demo02` for a client. -/
theorem demo02_serve (h : Watching False (ReadFailed done) lfd s)
    (hpc : s.pc = .serving (fd :: rest)) (hne : fd ≠ lfd)
    (hstep : Demo02.serve s fd rest event = some next) :
    Watching False (ReadFailed (done ++ [event])) lfd next := by
  rw [readFailed_concat]
  cases event with
  | read n =>
      obtain ⟨-, rfl⟩ := eq_of_guarded hstep
      have hleave : ∀ output, Watching False (ReadFailed done ∨ False) lfd
          (s.readStep fd n (forLoop rest) output) :=
        fun output => h.leave_same hpc hne rfl fun d => interest_read
      simpa using hleave _
  | readEof =>
      obtain ⟨-, rfl⟩ := eq_of_guarded hstep
      have hleave : Watching False _ lfd (s.hangUp fd .waiting) :=
        h.leave (i := none) hpc hne (List.nil_sublist rest) rfl (by simp) fun d => interest_close
      simpa using hleave
  | readFailed errno =>
      obtain rfl := Option.some.inj hstep
      have hi := (h.served hpc hne).resolve_left fun hf => hf.1
      have hdel : ∀ d, (s.kernel.del fd).interest d =
          if d = fd then some .removed else s.kernel.interest d := by
        intro d
        rw [interest_del]
        split
        · next hd => rw [hd, hi.2, Option.map_some]
        · rfl
      have hleave : Watching False _ lfd (s.abandon fd (forLoop rest)) :=
        h.leave hpc hne (List.Sublist.refl rest) rfl (by simp) hdel
      simpa using hleave
  | traffic | forget | wait | waitFailed | accept | acceptFailed | add => cases hstep

/-- A round of the inner loop of `demo03`. -/
theorem demo03_serve (h : Watching (failing done = true) (Somewhere LeftBehind done) lfd s)
    (hpc : s.pc = .serving (fd :: rest)) (hne : fd ≠ lfd)
    (hstep : Demo03.serve s fd rest event = some next) :
    Watching (failing (done ++ [event]) = true) (Somewhere LeftBehind (done ++ [event])) lfd
      next := by
  rw [failing_concat, somewhere_concat]
  cases event with
  | read n =>
      obtain ⟨-, rfl⟩ := eq_of_guarded hstep
      have hsame : ∀ output, Watching (failing done = true) (Somewhere LeftBehind done) lfd
          (s.readStep fd n s.pc output) :=
        fun output => h.same rfl fun d => interest_read
      simpa [LeftBehind] using hsame _
  | readEof =>
      obtain ⟨-, rfl⟩ := eq_of_guarded hstep
      have hleave : Watching False _ lfd (s.hangUp fd (forLoop rest)) :=
        h.leave (i := none) hpc hne (List.Sublist.refl rest) rfl (by simp) fun d => interest_close
      simpa [LeftBehind] using hleave
  | readFailed errno =>
      simp only [Demo03.serve] at hstep
      split at hstep
      · next herrno =>
          obtain ⟨-, rfl⟩ := eq_of_guarded hstep
          have hleave : Watching False _ lfd { s with pc := forLoop rest } :=
            h.leave_same hpc hne rfl fun d => rfl
          simpa [LeftBehind, herrno] using hleave
      · next herrno =>
          obtain rfl := Option.some.inj hstep
          have hremove : Watching True _ lfd (s.abandon fd s.pc) :=
            h.remove hpc hne rfl fun d => interest_del
          simpa [LeftBehind, herrno] using hremove
  | traffic | forget | wait | waitFailed | accept | acceptFailed | add => cases hstep

/-! ## Whole runs -/

/-- Every event of `demo02`. -/
theorem demo02_step (h : Watching False (ReadFailed done) lfd s)
    (hstep : Demo02.step lfd s event = some next) :
    Watching False (ReadFailed (done ++ [event])) lfd next := by
  have hmove := moves_of_step hstep
  cases event with
  | read | readEof | readFailed =>
      cases hmove with
      | serve _ _ fd rest hpc hne hserve => exact demo02_serve h hpc hne hserve
  | traffic | forget | wait | waitFailed | accept | acceptFailed | add =>
      have hmain := h.main (fun _ _ => listed_of_level) hmove
        fun fd rest _ _ hserve => nomatch hserve
      rw [readFailed_concat]
      simpa using hmain

/-- Every event of `demo03`. -/
theorem demo03_step (h : Watching (failing done = true) (Somewhere LeftBehind done) lfd s)
    (hstep : Demo03.step lfd s event = some next) :
    Watching (failing (done ++ [event]) = true) (Somewhere LeftBehind (done ++ [event])) lfd
      next := by
  have hmove := moves_of_step hstep
  cases event with
  | read | readEof | readFailed =>
      cases hmove with
      | serve _ _ fd rest hpc hne hserve => exact demo03_serve h hpc hne hserve
  | traffic | forget | wait | waitFailed | accept | acceptFailed | add =>
      have hmain := h.main (fun _ _ hedge => listed_of_level (level_of_edge hedge)) hmove
        fun fd rest _ _ hserve => nomatch hserve
      rw [failing_concat, somewhere_concat]
      simpa [LeftBehind] using hmain

/-- When the two servers abandon no connection. For every run that has come to `epoll_wait`, with
any order of connects, data, closes and failing reads: every open descriptor is in the interest
list, and every descriptor taken out of it has been closed, if and only if, in a run of `demo02`, no
read has failed, and in a run of `demo03`, no inner loop has come to EAGAIN after a read in it
failed with another error. -/
theorem none_abandoned_iff (lfd : Nat) (events : List Event) (s : Server) :
    (runEvents (Demo02.step lfd) .start events = some s → s.pc = .waiting →
      (NoneAbandoned s.kernel ↔ ¬ ReadFailed events)) ∧
    (runEvents (Demo03.step lfd) .start events = some s → s.pc = .waiting →
      (NoneAbandoned s.kernel ↔ ¬ Somewhere LeftBehind events)) := by
  constructor
  · intro hrun hwait
    have hstart : Watching False (ReadFailed []) lfd Server.start := by
      simpa [ReadFailed] using Watching.start
    exact (run_events_induction (fun done s => Watching False (ReadFailed done) lfd s) hstart
      (fun _ _ _ _ hdone hstep => demo02_step hdone hstep) hrun).at_wait hwait
  · intro hrun hwait
    have hstart : Watching (failing [] = true) (Somewhere LeftBehind []) lfd Server.start := by
      simpa [failing, somewhere_nil] using Watching.start
    exact (run_events_induction
      (fun done s => Watching (failing done = true) (Somewhere LeftBehind done) lfd s) hstart
      (fun _ _ _ _ hdone hstep => demo03_step hdone hstep) hrun).at_wait hwait

/-- The client at descriptor 4 sends a byte, and `epoll_wait` reports it. -/
def oneByte : List Event :=
  [.traffic .connect, .wait [3], .accept 4, .add, .traffic (.send (.accepted 4) (ascii "a")),
    .wait [4]]

/-- With a failing read before the client closes its end, `demo03` still comes to the end of the
connection and closes the descriptor. -/
theorem none_abandoned_closed :
    ∃ s, runEvents (Demo03.step 3) .start (oneByte ++ [.read 1, .readFailed (.other 104),
        .traffic (.close (.accepted 4)), .readEof]) = some s ∧ NoneAbandoned s.kernel := by
  have hrun : ∃ s, runEvents (Demo03.step 3) .start (oneByte ++ [.read 1,
      .readFailed (.other 104), .traffic (.close (.accepted 4)), .readEof]) = some s := ⟨_, rfl⟩
  obtain ⟨s, hrun⟩ := hrun
  have hs := Option.some.inj hrun
  refine ⟨s, hrun, ((none_abandoned_iff 3 _ s).2 hrun (by rw [← hs]; rfl)).mpr ?_⟩
  simp [oneByte, somewhere_cons, somewhere_nil, LeftBehind]

/-- When the read fails, `demo02` leaves descriptor 4 open and unlisted; and so does `demo03` when
there is nothing more to read. -/
theorem abandoned_after_failed_read :
    ¬ (∀ lfd events s, runEvents (Demo02.step lfd) .start events = some s → s.pc = .waiting →
      NoneAbandoned s.kernel) ∧
    ¬ ∀ lfd events s, runEvents (Demo03.step lfd) .start events = some s → s.pc = .waiting →
      NoneAbandoned s.kernel := by
  constructor
  · intro hall
    have hrun : ∃ s, runEvents (Demo02.step 3) .start
        (oneByte ++ [.readFailed (.other 104)]) = some s := ⟨_, rfl⟩
    obtain ⟨s, hrun⟩ := hrun
    have hs := Option.some.inj hrun
    exact (hall 3 _ s hrun (by rw [← hs]; rfl)).2 4 (by rw [← hs]; rfl)
  · intro hall
    have hrun : ∃ s, runEvents (Demo03.step 3) .start
        (oneByte ++ [.readFailed (.other 104), .read 1, .readFailed .eagain]) = some s :=
      ⟨_, rfl⟩
    obtain ⟨s, hrun⟩ := hrun
    have hs := Option.some.inj hrun
    exact (hall 3 _ s hrun (by rw [← hs]; rfl)).2 4 (by rw [← hs]; rfl)

end UnixNet.EPollDemo
