import UnixNet.Lib.Source
import UnixNet.Lib.Text

/-!
# What a socket accepts

The outcomes of successive `send` calls on one socket, indexed by the number of the call. A call
accepts a nonempty part of what it is asked to send, or fails. `acceptedParts` is what arrives
when a program sends one part after the other and goes on to the next part whatever the call
returned; everything arrives exactly when every call takes its whole part
(`accepted_parts_eq_iff`).
-/

namespace NetLib

/-- The outcome of one `send` call: with `accept room` the socket takes at most `room + 1`
bytes. -/
inductive SendOutcome where
  | accept (room : Nat)
  | fail (errno : Errno)

/-- The return value of `send(fd, buf, len, 0)`, whose third parameter is a `size_t`. -/
def SendOutcome.ret (outcome : SendOutcome) (len : Int) : Int :=
  match outcome with
  | .accept room => min (len % 2 ^ 64) (room + 1)
  | .fail _ => -1

/-- The call takes all of a part of the given length. -/
def SendOutcome.takes (outcome : SendOutcome) (len : Nat) : Bool :=
  match outcome with
  | .accept room => len ≤ room + 1
  | .fail _ => false

/-- The call fails. -/
def SendOutcome.fails (outcome : SendOutcome) : Bool :=
  match outcome with
  | .accept _ => false
  | .fail _ => true

/-- What arrives of the parts sent by the calls from number `i` on. -/
def acceptedParts (outcomes : Nat → SendOutcome) : Nat → List Bytes → Bytes
  | _, [] => []
  | i, part :: rest =>
      part.take ((outcomes i).ret part.length).toNat ++ acceptedParts outcomes (i + 1) rest

/-- Every call from number `i` on takes its whole part. -/
def takesAll (outcomes : Nat → SendOutcome) : Nat → List Bytes → Bool
  | _, [] => true
  | i, part :: rest => (outcomes i).takes part.length && takesAll outcomes (i + 1) rest

variable {outcomes : Nat → SendOutcome}

theorem accepted_parts_append (i : Nat) (parts more : List Bytes) :
    acceptedParts outcomes i (parts ++ more) =
      acceptedParts outcomes i parts ++ acceptedParts outcomes (i + parts.length) more := by
  induction parts generalizing i with
  | nil => rfl
  | cons part parts ih =>
      rw [List.cons_append, acceptedParts, ih, acceptedParts, List.append_assoc,
        List.length_cons, Nat.add_right_comm, Nat.add_assoc]

/-- A negative return value is a failure. -/
theorem SendOutcome.ret_neg_iff (outcome : SendOutcome) (len : Int) :
    outcome.ret len < 0 ↔ outcome.fails = true := by
  cases outcome with
  | accept room =>
      have hmod : 0 ≤ len % 2 ^ 64 := Int.emod_nonneg len (by decide)
      simp only [ret, fails, Bool.false_eq_true, iff_false]
      omega
  | fail errno => simp [ret, fails]

/-- No call returns more than it was asked to send. -/
theorem SendOutcome.ret_le (outcome : SendOutcome) {len : Nat} (h : len < 2 ^ 64) :
    (outcome.ret len).toNat ≤ len := by
  cases outcome with
  | accept room =>
      have hmod : (len : Int) % 2 ^ 64 = len := Int.emod_eq_of_lt (by omega) (by exact_mod_cast h)
      rw [ret, hmod]
      omega
  | fail errno => exact Nat.zero_le len

/-- A call that takes a nonempty part returns its length, any other call returns less. -/
theorem SendOutcome.ret_eq_iff (outcome : SendOutcome) {len : Nat} (hpos : 0 < len)
    (h : len < 2 ^ 64) : (outcome.ret len).toNat = len ↔ outcome.takes len = true := by
  cases outcome with
  | accept room =>
      have hmod : (len : Int) % 2 ^ 64 = len := Int.emod_eq_of_lt (by omega) (by exact_mod_cast h)
      rw [ret, takes, hmod, decide_eq_true_eq]
      omega
  | fail errno =>
      simp only [ret, takes, Bool.false_eq_true, iff_false]
      omega

variable (outcomes) in
/-- Never more arrives than is sent. -/
theorem length_accepted_parts_le (i : Nat) (parts : List Bytes) :
    (acceptedParts outcomes i parts).length ≤ parts.flatten.length := by
  induction parts generalizing i with
  | nil => rfl
  | cons part parts ih =>
      have hrest := ih (i + 1)
      have hpart : (part.take ((outcomes i).ret part.length).toNat).length ≤ part.length :=
        List.length_take_le' _ _
      simp only [acceptedParts, List.flatten_cons, List.length_append]
      omega

/-- Everything arrives exactly when every call takes its whole part. -/
theorem accepted_parts_eq_iff {i : Nat} {parts : List Bytes}
    (hparts : ∀ part ∈ parts, part ≠ [] ∧ part.length < 2 ^ 64) :
    acceptedParts outcomes i parts = parts.flatten ↔ takesAll outcomes i parts = true := by
  induction parts generalizing i with
  | nil => exact iff_of_true rfl rfl
  | cons part parts ih =>
      obtain ⟨hne, hsize⟩ := hparts part (by simp)
      have hrest := ih (i := i + 1) fun p hp => hparts p (by simp [hp])
      have hret := (outcomes i).ret_eq_iff (List.length_pos_iff.mpr hne) hsize
      rw [takesAll, Bool.and_eq_true, ← hrest, ← hret, acceptedParts, List.flatten_cons]
      constructor
      · intro h
        -- both summands of the length are at most what they are without a short send
        have hlen := congrArg List.length h
        have hle := (outcomes i).ret_le hsize
        have hle' := length_accepted_parts_le outcomes (i + 1) parts
        simp only [List.length_append, List.length_take] at hlen
        have heq : ((outcomes i).ret part.length).toNat = part.length := by omega
        refine ⟨heq, ?_⟩
        rw [heq, List.take_length] at h
        exact List.append_cancel_left h
      · rintro ⟨heq, hflat⟩
        rw [heq, List.take_length, hflat]

end NetLib
