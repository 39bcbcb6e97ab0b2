import UnixNet.TcpServerDemo.ProcessEcho

/-!
# When the process server reaps its children

SIGCHLD is blocked until `Fun` is registered for it, so that no child that exits is forgotten
(`exit_not_forgotten`). But `Fun` goes on as long as there are children, and `main` waits for it:
once it has started, the next client is accepted after all children have exited
(`next_client_after_all_exits`).
-/

namespace UnixNet.TcpServerDemo.Processes

open NetLib

variable {setup : Setup} {order : WaitOrder} {s s' : System}

/-- `Fun` is registered before SIGCHLD gets through, which it does from the first client on, and
`Fun` runs or is to be run when there is a child to be reaped. -/
structure Signalled (s : System) : Prop where
  registered : s.parent.blocked = false ∨ s.parent.point = .unblocking →
    s.parent.registered = true
  through : s.parent.point = .accepting → s.accepted ≠ 0 → s.parent.blocked = false
  first : s.accepted = 0 → s.children.exited = ∅ ∧ s.children.running = ∅
  noticed : s.children.exited.Nonempty →
    s.parent.pending = true ∨ s.parent.handling = true ∨ s.parent.point = .gone

/-- A round of `Fun` that ends it has found no children. -/
theorem fun_round_ends {order : WaitOrder} {s : Handler}
    (h : (TcpServerDemo.funRound order s).1 = false) :
    s.children.exited = ∅ ∧ s.children.running = ∅ ∧ (TcpServerDemo.funRound order s).2 = s := by
  rcases s.children.exited.eq_empty_or_nonempty with hnone | hsome
  · rcases s.children.running.eq_empty_or_nonempty with hempty | hrun
    · exact ⟨hnone, hempty, congrArg Prod.snd (fun_round_none hnone hempty)⟩
    · rw [fun_round_running hnone hrun] at h
      cases h
  · rw [fun_round_exited hsome] at h
    cases h

theorem Signalled.start (setup : Setup) : Signalled (.start setup) where
  registered := by
    rintro (hblocked | hpoint)
    · cases hblocked
    · cases hpoint
  through _ hne := absurd rfl hne
  first _ := ⟨rfl, rfl⟩
  noticed hexited := absurd hexited Finset.not_nonempty_empty

/-- A step of `main` that leaves the children alone. -/
theorem Signalled.keep (h : Signalled s) (hchildren : s'.children = s.children)
    (hpending : s'.parent.pending = s.parent.pending)
    (hhandling : s'.parent.handling = s.parent.handling)
    (hpoint : s'.parent.point = .gone ∨ s.parent.point ≠ .gone)
    (hregistered : s'.parent.blocked = false ∨ s'.parent.point = .unblocking →
      s'.parent.registered = true)
    (hthrough : s'.parent.point = .accepting → s'.accepted ≠ 0 → s'.parent.blocked = false)
    (hfirst : s'.accepted = 0 → s.accepted = 0) : Signalled s' where
  registered := hregistered
  through := hthrough
  first hzero := hchildren ▸ h.first (hfirst hzero)
  noticed := by
    rw [hchildren, hpending, hhandling]
    intro hexited
    rcases hpoint with hgone | hlive
    · exact .inr (.inr hgone)
    · rcases h.noticed hexited with hpending | hhandling | hgone
      · exact .inl hpending
      · exact .inr (.inl hhandling)
      · exact absurd hgone hlive

/-- What `main` does. SIGCHLD gets through behind `sigaction`. -/
theorem Signalled.main (h : Signalled s) (howned : Owned setup s) (hstep : MainStep s s') :
    Signalled s' := by
  have hregistered : s.parent.blocked = false → s.parent.registered = true :=
    fun hblocked => h.registered (.inl hblocked)
  cases hstep with
  | accept hpoint =>
      exact h.keep rfl rfl rfl (.inr (hpoint ▸ nofun)) (by simpa using hregistered) nofun nofun
  | acceptFails | forkFails =>
      exact h.keep rfl rfl rfl (.inl rfl) (by simpa using hregistered) nofun id
  | @fork fd pid hpoint hexited =>
      have hpos := (howned.lowest fd (congrArg ParentPoint.client hpoint)).2
      refine ⟨by simpa [System.fork] using hregistered, nofun, fun hzero => ?_, fun hsome => ?_⟩
      · exact absurd hzero hpos.ne'
      · rcases h.noticed hsome with hpending | hhandling | hgone
        · exact .inl hpending
        · exact .inr (.inl hhandling)
        · rw [hpoint] at hgone
          cases hgone
  | close hpoint =>
      exact h.keep rfl rfl rfl (.inr (hpoint ▸ nofun)) (by simpa using hregistered) nofun id
  | sigaction hpoint =>
      exact h.keep rfl rfl rfl (.inr (hpoint ▸ nofun)) (fun _ => rfl) nofun id
  | unblock hpoint =>
      exact h.keep rfl rfl rfl (.inr (hpoint ▸ nofun)) (fun _ => h.registered (.inr hpoint))
        (fun _ _ => rfl) id

/-- A round of `Fun`. It ends when there is nothing left to be reaped. -/
theorem Signalled.handler (h : Signalled s) : Signalled (s.funRound order) where
  registered := h.registered
  through := h.through
  first hzero := by
    obtain ⟨hexited, hrunning⟩ := h.first hzero
    have heq : TcpServerDemo.funRound order ⟨s.children, s.printed⟩ =
        (false, ⟨s.children, s.printed⟩) := fun_round_none hexited hrunning
    rw [System.funRound, heq]
    exact ⟨hexited, hrunning⟩
  noticed := by
    intro hexited
    cases hgoes : (TcpServerDemo.funRound order ⟨s.children, s.printed⟩).1 with
    | true => exact .inr (.inl hgoes)
    | false =>
        obtain ⟨hnone, -, heq⟩ := fun_round_ends hgoes
        have hchildren : (s.funRound order).children = s.children :=
          congrArg Handler.children heq
        rw [hchildren] at hexited
        exact absurd hnone hexited.ne_empty

/-- What a child does. When it exits, it sends SIGCHLD. -/
theorem Signalled.setChild (h : Signalled s) {pid : Nat} (hpid : pid ∈ s.children.running)
    (child' : Option Child) : Signalled (s.setChild pid child') := by
  cases child' with
  | none =>
      refine ⟨h.registered, h.through, fun hzero => ?_, fun _ => .inl rfl⟩
      rw [(h.first hzero).2] at hpid
      exact absurd hpid (Finset.notMem_empty pid)
  | some child => exact ⟨h.registered, h.through, h.first, h.noticed⟩

/-- Every step keeps the signals in order. -/
theorem Signalled.step (h : Signalled s) (howned : Owned setup s)
    (hstep : Step setup order s s') : Signalled s' := by
  cases hstep with
  | main _ hmain => exact h.main howned hmain
  | signal _ hblocked =>
      exact ⟨h.registered, h.through, h.first,
        fun _ => .inr (.inl (h.registered (.inl hblocked)))⟩
  | handler => exact h.handler
  | @child pid c child' k' hpid =>
      have hset := h.setChild hpid child'
      exact ⟨hset.registered, hset.through, hset.first, hset.noticed⟩
  | client => exact ⟨h.registered, h.through, h.first, h.noticed⟩

theorem signalled_of_reachable (h : Reachable setup order s) : Signalled s := by
  induction h with
  | refl => exact .start setup
  | tail hrun hstep ih => exact ih.step (owned_of_reachable hrun) hstep

/-- While the parent is there, a child that has exited is not forgotten: `Fun` runs, or its signal
is pending, and then nothing keeps it from getting through while the parent waits in `accept`. -/
theorem exit_not_forgotten (h : Reachable setup order s) (hlive : s.parent.point ≠ .gone)
    (hexited : s.children.exited.Nonempty) :
    s.parent.handling = true ∨
      s.parent.pending = true ∧ (s.parent.point = .accepting → s.parent.blocked = false) := by
  have hsignalled := signalled_of_reachable h
  rcases hsignalled.noticed hexited with hpending | hhandling | hgone
  · refine .inr ⟨hpending, fun hpoint => hsignalled.through hpoint fun hzero => ?_⟩
    exact hexited.ne_empty (hsignalled.first hzero).1
  · exact .inl hhandling
  · exact absurd hgone hlive

/-- While `Fun` runs, a step accepts no client, and `Fun` runs on unless there are no children. -/
theorem step_while_handling (h : s.parent.handling = true) (hstep : Step setup order s s') :
    s'.accepted = s.accepted ∧
      (s'.parent.handling = true ∨ s'.children.exited = ∅ ∧ s'.children.running = ∅) := by
  have hnot : ∀ {P : Prop}, s.parent.handling = false → P := by
    intro P hfalse
    rw [h] at hfalse
    cases hfalse
  cases hstep with
  | main hidle => exact hnot hidle
  | signal _ _ hidle => exact hnot hidle
  | handler =>
      refine ⟨rfl, ?_⟩
      cases hgoes : (TcpServerDemo.funRound order ⟨s.children, s.printed⟩).1 with
      | true => exact .inl hgoes
      | false =>
          obtain ⟨hexited, hrunning, heq⟩ := fun_round_ends hgoes
          have hchildren : (s.funRound order).children = s.children :=
            congrArg Handler.children heq
          exact .inr (hchildren ▸ ⟨hexited, hrunning⟩)
  | @child pid c child' k' =>
      cases child' with
      | none => exact ⟨rfl, .inl h⟩
      | some child => exact ⟨rfl, .inl h⟩
  | client => exact ⟨rfl, .inl h⟩

/-- Once `Fun` has started, the next client is accepted only after a moment in which there were no
children at all: every other client has to leave first. -/
theorem next_client_after_all_exits (h : s.parent.handling = true)
    (hrun : Relation.ReflTransGen (Step setup order) s s') (haccept : s.accepted < s'.accepted) :
    ∃ mid, Relation.ReflTransGen (Step setup order) s mid ∧
      Relation.ReflTransGen (Step setup order) mid s' ∧ mid.accepted = s.accepted ∧
        mid.children.exited = ∅ ∧ mid.children.running = ∅ := by
  induction hrun using Relation.ReflTransGen.head_induction_on with
  | refl => exact absurd haccept (lt_irrefl _)
  | @head first next hstep hrest ih =>
      obtain ⟨haccepted, hgoes | ⟨hexited, hrunning⟩⟩ := step_while_handling h hstep
      · obtain ⟨mid, hto, hfrom, heq, hnone⟩ := ih hgoes (haccepted ▸ haccept)
        exact ⟨mid, .head hstep hto, hfrom, heq.trans haccepted, hnone⟩
      · exact ⟨next, .single hstep, hrest, haccepted, hexited, hrunning⟩

/-- The first client has left while its connection was being accepted, and `Fun` starts. -/
theorem one_client_left : ∃ s s', Reachable fromTerminal leastFirst s ∧
    s.children.exited.Nonempty ∧ s.parent.handling = true ∧ s.parent.point ≠ .gone ∧
      Relation.ReflTransGen (Step fromTerminal leastFirst) s s' ∧ s.accepted < s'.accepted := by
  have hstart : Reachable fromTerminal leastFirst (.start fromTerminal) := .refl
  have haccept := hstart.tail (.main rfl (.accept rfl four_lowest))
  have hfork := haccept.tail
    (.main rfl (.fork rfl (Finset.notMem_empty 7) (Finset.notMem_empty 7)))
  have hseven : 7 ∈ ({7} : Finset Nat) := Finset.mem_singleton_self 7
  have hshut := hfork.tail (@Step.client _ _ _ 0 _ .shut)
  have hchild := hshut.tail (@Step.child _ _ _ 7 0 _ _ hseven rfl (.close rfl))
  have hexit := hchild.tail (@Step.child _ _ _ 7 0 _ _ hseven rfl (.readEof rfl (.inl ⟨rfl, rfl⟩)))
  have hclose := hexit.tail (.main rfl (.close rfl))
  have hsigaction := hclose.tail (.main rfl (.sigaction rfl))
  have hunblock := hsigaction.tail (.main rfl (.unblock rfl))
  have hsignal := hunblock.tail (.signal rfl rfl rfl nofun)
  have hstay : ∀ {s}, Reachable fromTerminal leastFirst s →
      Relation.ReflTransGen (Step fromTerminal leastFirst) s s := fun _ => .refl
  have hreap := (hstay hsignal).tail (.handler rfl)
  have hend := hreap.tail (.handler rfl)
  have hlowest : LowestFree ((fromTerminal.files.open 4 (.conn 0)).close 4) 4 := by
    rw [Files.close_open rfl]
    exact four_lowest
  have hnext := hend.tail (.main rfl (.accept rfl hlowest))
  refine ⟨_, _, hsignal, ?_, rfl, nofun, hnext, ?_⟩
  · exact Finset.singleton_nonempty 7
  · exact Nat.lt_succ_self _

/-- Then `Fun` runs. -/
theorem exit_not_forgotten_one_client : ∃ s, Reachable fromTerminal leastFirst s ∧
    s.children.exited.Nonempty ∧
      (s.parent.handling = true ∨
        s.parent.pending = true ∧
          (s.parent.point = .accepting → s.parent.blocked = false)) := by
  obtain ⟨s, -, hrun, hexited, -, hlive, -, -⟩ := one_client_left
  exact ⟨s, hrun, hexited, exit_not_forgotten hrun hlive hexited⟩

/-- The next client is accepted when there are no children. -/
theorem next_client_after_all_exits_one_client :
    ∃ s mid s', s.parent.handling = true ∧ s.accepted < s'.accepted ∧
      Relation.ReflTransGen (Step fromTerminal leastFirst) s mid ∧
        Relation.ReflTransGen (Step fromTerminal leastFirst) mid s' ∧
          mid.children.exited = ∅ ∧ mid.children.running = ∅ := by
  obtain ⟨s, s', -, -, hhandling, -, hrest, haccept⟩ := one_client_left
  obtain ⟨mid, hto, hfrom, -, hexited, hrunning⟩ :=
    next_client_after_all_exits hhandling hrest haccept
  exact ⟨s, mid, s', hhandling, haccept, hto, hfrom, hexited, hrunning⟩

end UnixNet.TcpServerDemo.Processes
