import UnixNet.TcpServerDemo.Processes

/-!
# What the clients of the process server get back

A child reads up to 1024 bytes and writes them back before it reads again. As nobody else has its
connection open, what a client gets back is a part of the start of what it sent itself, in order.
`clients_echoed` says so for every connection, and that all of it comes back as long as the
connection does not break.
-/

namespace UnixNet.TcpServerDemo.Processes

open NetLib

variable {setup : Setup} {order : WaitOrder} {s s' : System} {child : Child} {c : Nat}
  {k k' : Connection} {child' : Option Child}

/-- What a child has read and not written yet. -/
def ChildPoint.inHand : ChildPoint → Bytes
  | .writing data => data
  | _ => []

/-- What holds of every connection. -/
structure Intact (k : Connection) : Prop where
  echoed : ∃ taken, k.sent = taken ++ k.unread ∧ k.echoed <+: taken
  whole : k.ended = true → k.broken = false →
    k.shut = true ∧ k.unread = [] ∧ k.echoed = k.sent

/-- What holds of a connection whose child is at a point, or has not been forked. -/
structure Serving (point : ChildPoint) (k : Connection) : Prop where
  not_ended : k.ended = false
  sent_eq : k.broken = false → k.sent = k.echoed ++ point.inHand ++ k.unread

/-! ## One step -/

/-- A client that sends, closes its side or breaks the connection. -/
theorem Intact.client_step (h : Intact k) (hstep : ClientStep k k') : Intact k' := by
  obtain ⟨taken, hsent, hechoed⟩ := h.echoed
  cases hstep with
  | send data hshut =>
      refine ⟨⟨taken, ?_, hechoed⟩, fun hended hbroken => ?_⟩
      · rw [← List.append_assoc, ← hsent]
      · -- behind the end of a connection that did not break nothing is sent
        rw [(h.whole hended hbroken).1] at hshut
        cases hshut
  | shut => exact ⟨h.echoed, fun hended hbroken => ⟨rfl, (h.whole hended hbroken).2⟩⟩
  | reset => exact ⟨h.echoed, nofun⟩

theorem Serving.client_step {point : ChildPoint} (h : Serving point k) (hstep : ClientStep k k') :
    Serving point k' := by
  cases hstep with
  | send data hshut =>
      refine ⟨h.not_ended, fun hbroken => ?_⟩
      rw [← List.append_assoc, ← h.sent_eq hbroken]
  | shut => exact ⟨h.not_ended, h.sent_eq⟩
  | reset => exact ⟨h.not_ended, nofun⟩

/-- What a child does keeps its connection intact. -/
theorem Intact.child_step {sockFd : Nat} (h : Intact k) (hserving : Serving child.point k)
    (hstep : ChildStep sockFd child k child' k') : Intact k' := by
  obtain ⟨taken, hsent, hechoed⟩ := h.echoed
  have hopen : ∀ {P : Prop}, k.ended = true → P := by
    intro P hended
    rw [hserving.not_ended] at hended
    cases hended
  cases hstep with
  | close => exact h
  | @read data rest hpoint hunread =>
      refine ⟨⟨taken ++ data, ?_, hechoed.trans (List.prefix_append taken data)⟩, hopen⟩
      rw [List.append_assoc, ← hunread, hsent]
  | readFails hpoint hbroken =>
      refine ⟨h.echoed, fun _ hnot => ?_⟩
      rw [hbroken] at hnot
      cases hnot
  | readEof hpoint hend =>
      refine ⟨h.echoed, fun _ hnot => ?_⟩
      rcases hend with ⟨hunread, hshut⟩ | hbroken
      · have hsent_eq := hserving.sent_eq hnot
        rw [hpoint, hunread] at hsent_eq
        exact ⟨hshut, hunread, by simpa [ChildPoint.inHand] using hsent_eq.symm⟩
      · rw [hbroken] at hnot
        cases hnot
  | @write data hpoint hbroken =>
      have hsent_eq := hserving.sent_eq hbroken
      rw [hpoint] at hsent_eq
      exact ⟨⟨k.echoed ++ data, hsent_eq, List.prefix_rfl⟩, hopen⟩
  | @writeShort data n hpoint hbroken =>
      have hsent_eq := hserving.sent_eq hbroken
      rw [hpoint] at hsent_eq
      refine ⟨⟨k.echoed ++ data, hsent_eq, ?_⟩, nofun⟩
      exact (List.prefix_append_right_inj k.echoed).mpr (List.take_prefix n data)
  | writeFails => exact h
  | killed hpoint hbroken =>
      refine ⟨h.echoed, fun _ hnot => ?_⟩
      rw [hbroken] at hnot
      cases hnot

/-- A child that goes on holds on to what it has in hand. -/
theorem Serving.child_step {sockFd : Nat} {next : Child} (h : Serving child.point k)
    (hstep : ChildStep sockFd child k (some next) k') : Serving next.point k' := by
  have hsent := h.sent_eq
  cases hstep with
  | close hpoint =>
      rw [hpoint] at hsent
      exact ⟨h.not_ended, hsent⟩
  | @read data rest hpoint hunread =>
      rw [hpoint, hunread] at hsent
      refine ⟨h.not_ended, fun hbroken => ?_⟩
      have heq := hsent hbroken
      simpa [ChildPoint.inHand] using heq
  | @write data hpoint =>
      rw [hpoint] at hsent
      refine ⟨h.not_ended, fun hbroken => ?_⟩
      have heq := hsent hbroken
      simpa [ChildPoint.inHand] using heq
  | writeShort => exact ⟨h.not_ended, nofun⟩
  | writeFails hpoint hbroken =>
      refine ⟨h.not_ended, fun hnot => ?_⟩
      rw [hbroken] at hnot
      cases hnot

/-! ## The system -/

/-- All connections: those of a child, those that wait for one, and the others. -/
structure Echoing (setup : Setup) (s : System) : Prop where
  intact : ∀ c, Intact (s.conn c)
  serving : ∀ pid ∈ s.children.running, ∀ c, (s.child pid).Holds setup c →
    Serving (s.child pid).point (s.conn c)
  waiting : ∀ c, s.forked ≤ c → Serving .started (s.conn c)

theorem Echoing.start (setup : Setup) : Echoing setup (.start setup) where
  intact _ := ⟨⟨[], rfl, List.prefix_rfl⟩, nofun⟩
  serving pid hpid := absurd hpid (Finset.notMem_empty pid)
  waiting _ _ := ⟨rfl, fun _ => rfl⟩

/-- A step that leaves the connections and the children alone. -/
theorem Echoing.keep (h : Echoing setup s) (hrunning : s'.children.running = s.children.running)
    (hchild : s'.child = s.child) (hconn : s'.conn = s.conn) (hforked : s.forked ≤ s'.forked) :
    Echoing setup s' where
  intact := hconn ▸ h.intact
  serving := by
    rw [hrunning, hchild, hconn]
    exact h.serving
  waiting d hd := hconn ▸ h.waiting d (hforked.trans hd)

@[simp] theorem set_conn_self : (s.setConn c k).conn c = k :=
  Function.update_self ..

theorem set_conn_of_ne {d : Nat} (h : d ≠ c) : (s.setConn c k).conn d = s.conn d :=
  Function.update_of_ne h ..

/-- A new child finds the connection that was accepted last as it is. -/
theorem Echoing.fork (h : Echoing setup s) (howned : Owned setup s) {fd pid : Nat}
    (hpoint : s.parent.point = .forking fd) (hexited : pid ∉ s.children.exited)
    (hrunning : pid ∉ s.children.running) : Echoing setup (s.fork fd pid hexited) where
  intact := h.intact
  serving := by
    intro p hp d hd
    rcases Finset.mem_insert.mp hp with rfl | hpold
    · rw [fork_child_self] at hd ⊢
      obtain rfl : s.accepted - 1 = d := hd.unique (howned.holds_forked hpoint)
      exact h.waiting _ (by rw [System.forked, hpoint])
    · have hne : p ≠ pid := fun heq => hrunning (heq ▸ hpold)
      rw [fork_child_of_ne hne] at hd ⊢
      exact h.serving p hpold d hd
  waiting := by
    intro d hd
    refine h.waiting d (le_trans ?_ hd)
    rw [System.forked, hpoint]
    exact Nat.sub_le s.accepted 1

/-- What `main` does. -/
theorem Echoing.main (h : Echoing setup s) (howned : Owned setup s) (hstep : MainStep s s') :
    Echoing setup s' := by
  cases hstep with
  | accept hpoint | acceptFails hpoint | forkFails hpoint | close hpoint | sigaction hpoint
  | unblock hpoint =>
      refine h.keep rfl rfl rfl ?_
      simp [System.forked, hpoint]
  | fork hpoint hexited hrunning => exact h.fork howned hpoint hexited hrunning

/-- What a child does with its connection. -/
theorem Echoing.child_step (h : Echoing setup s) (howned : Owned setup s) {pid : Nat}
    (hpid : pid ∈ s.children.running)
    (hconn : (s.child pid).files (s.child pid).fd = some (.conn c))
    (hstep : ChildStep setup.sockFd (s.child pid) (s.conn c) child' k') :
    Echoing setup ((s.setChild pid child').setConn c k') := by
  obtain ⟨a, ha, hholds⟩ := howned.child pid hpid
  obtain rfl : c = a := (hholds.conn_iff.mp hconn).2
  have hserving := h.serving pid hpid c hholds
  have hsame : ∀ d, d ≠ c → ((s.setChild pid child').setConn c k').conn d = s.conn d := by
    intro d hd
    rw [set_conn_of_ne hd, set_child_conn]
  -- the other children have other connections
  have hothers : ∀ p ∈ s.children.running, p ≠ pid → ∀ d, (s.child p).Holds setup d →
      Serving (s.child p).point (((s.setChild pid child').setConn c k').conn d) := by
    intro p hp hne d hd
    have hdc : d ≠ c := by
      rintro rfl
      exact hne (howned.exclusive p hp pid hpid d hd hholds)
    rw [hsame d hdc]
    exact h.serving p hp d hd
  constructor
  · intro d
    by_cases hdc : d = c
    · rw [hdc, set_conn_self]
      exact (h.intact c).child_step hserving hstep
    · rw [hsame d hdc]
      exact h.intact d
  · intro p hp d hd
    cases child' with
    | none =>
        obtain ⟨hne, hpold⟩ := Finset.mem_erase.mp hp
        exact hothers p hpold hne d hd
    | some next =>
        by_cases hne : p = pid
        · subst hne
          have hnext : ((s.setChild p (some next)).setConn c k').child p = next := set_child_self
          rw [hnext] at hd ⊢
          obtain rfl : d = c := (hholds.step hstep).unique hd
          rw [set_conn_self]
          exact hserving.child_step hstep
        · have hother : ((s.setChild pid (some next)).setConn c k').child p = s.child p :=
            set_child_of_ne hne
          rw [hother] at hd ⊢
          exact hothers p hp hne d hd
  · intro d hd
    have hforked : s.forked ≤ d := by
      cases child' with
      | none => exact hd
      | some next => exact hd
    rw [hsame d (by omega)]
    exact h.waiting d hforked

/-- What a client does with its connection. -/
theorem Echoing.client_step (h : Echoing setup s) (hstep : ClientStep (s.conn c) k') :
    Echoing setup (s.setConn c k') where
  intact := by
    intro d
    by_cases hdc : d = c
    · subst hdc
      rw [set_conn_self]
      exact (h.intact d).client_step hstep
    · rw [set_conn_of_ne hdc]
      exact h.intact d
  serving := by
    intro p hp d hd
    have hserving := h.serving p hp d hd
    by_cases hdc : d = c
    · subst hdc
      rw [set_conn_self]
      exact hserving.client_step hstep
    · rw [set_conn_of_ne hdc]
      exact hserving
  waiting := by
    intro d hd
    have hwaiting := h.waiting d hd
    by_cases hdc : d = c
    · subst hdc
      rw [set_conn_self]
      exact hwaiting.client_step hstep
    · rw [set_conn_of_ne hdc]
      exact hwaiting

/-- Every step keeps the connections in order. -/
theorem Echoing.step (h : Echoing setup s) (howned : Owned setup s)
    (hstep : Step setup order s s') : Echoing setup s' := by
  cases hstep with
  | main _ hmain => exact h.main howned hmain
  | signal => exact h.keep rfl rfl rfl le_rfl
  | handler => exact h.keep (fun_round_keeps_running order _) rfl rfl le_rfl
  | child hpid hconn hchild => exact h.child_step howned hpid hconn hchild
  | client hclient => exact h.client_step hclient

end UnixNet.TcpServerDemo.Processes
