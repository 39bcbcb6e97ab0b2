import UnixNet.Lib.Endian

/-!
# The checksum of the Internet protocols

The one's complement sum of 16-bit numbers, where what is carried out of the sum is added at its
other end, and the checksum, which is its complement. `ones_sum_iff` characterizes the sum by the
ordinary one: it is congruent to it modulo 65535, and of the two representations of zero it is 0 for
a sum of zeros only. A receiver accepts a text whose sum is 65535 (`accepts_iff`).
-/

namespace NetLib

/-- The one's complement sum of two 16-bit numbers. -/
def onesAdd (a b : Nat) : Nat :=
  (a + b) % 65536 + (a + b) / 65536

/-- The one's complement sum of 16-bit numbers. -/
def onesSum (ws : List Nat) : Nat :=
  ws.foldl onesAdd 0

/-- The checksum of a text, as a number of the host. -/
def internetChecksum (e : Endian) (text : Bytes) : Nat :=
  65535 - onesSum (e.words text)

/-- The text, its checksum included, is what was sent. -/
def Accepts (e : Endian) (text : Bytes) : Prop :=
  onesSum (e.words text) = 65535

instance (e : Endian) (text : Bytes) : Decidable (Accepts e text) :=
  inferInstanceAs (Decidable (_ = _))

/-- The upper part of a sum is added to the lower 16 bits. -/
def fold (sum : Nat) : Nat :=
  sum / 65536 + sum % 65536

/-! ## The one's complement sum -/

/-- The sum with an initial value. -/
theorem ones_foldl {start : Nat} (hstart : start < 65536) {ws : List Nat}
    (h : ∀ w ∈ ws, w < 65536) :
    ws.foldl onesAdd start < 65536 ∧
      ws.foldl onesAdd start % 65535 = (start + ws.sum) % 65535 ∧
        (ws.foldl onesAdd start = 0 ↔ start + ws.sum = 0) := by
  induction ws generalizing start with
  | nil => exact ⟨hstart, rfl, Iff.rfl⟩
  | cons w ws ih =>
      have hw : w < 65536 := h w List.mem_cons_self
      have hnext : onesAdd start w < 65536 := by
        unfold onesAdd
        omega
      have hmod : (onesAdd start w + ws.sum) % 65535 = (start + w + ws.sum) % 65535 := by
        unfold onesAdd
        omega
      have hzero : onesAdd start w + ws.sum = 0 ↔ start + w + ws.sum = 0 := by
        unfold onesAdd
        omega
      obtain ⟨hlt, hih, hiff⟩ := ih hnext fun v hv => h v (List.mem_cons_of_mem w hv)
      rw [List.foldl_cons, List.sum_cons, ← Nat.add_assoc]
      exact ⟨hlt, hih.trans hmod, hiff.trans hzero⟩

/-- What the one's complement sum is. -/
theorem ones_sum_iff {ws : List Nat} (h : ∀ w ∈ ws, w < 65536) (s : Nat) :
    onesSum ws = s ↔ s < 65536 ∧ s % 65535 = ws.sum % 65535 ∧ (s = 0 ↔ ws.sum = 0) := by
  have hzero : 0 < 65536 := by decide
  obtain ⟨hlt, hmod, hzero⟩ := ones_foldl hzero h
  rw [Nat.zero_add] at hmod hzero
  refine ⟨fun heq => ?_, fun ⟨hs, hsmod, hszero⟩ => ?_⟩
  · rw [← heq]
    exact ⟨hlt, hmod, hzero⟩
  · show ws.foldl onesAdd 0 = s
    omega

/-- A text is accepted if the sum of its numbers is a multiple of 65535, but not 0. -/
theorem accepts_iff (e : Endian) (text : Bytes) :
    Accepts e text ↔ (e.words text).sum ≠ 0 ∧ (e.words text).sum % 65535 = 0 := by
  unfold Accepts
  rw [ones_sum_iff fun w => Endian.mem_words_lt]
  omega

/-- The order of the bytes does not matter to a receiver. -/
theorem accepts_other {e f : Endian} {text : Bytes} (h : Accepts e text) : Accepts f text := by
  rw [accepts_iff] at h ⊢
  rw [Ne, Endian.words_sum_eq_zero (e := f) (f := e), Endian.words_sum_mod (e := f) (f := e)]
  exact h

/-! ## The checksum -/

/-- What the checksum is. -/
theorem internet_checksum_iff (e : Endian) (text : Bytes) (s : Nat) :
    internetChecksum e text = 65535 - s % 65536 ↔
      s % 65536 % 65535 = (e.words text).sum % 65535 ∧
        (s % 65536 = 0 ↔ (e.words text).sum = 0) := by
  have hwords : ∀ w ∈ e.words text, w < 65536 := fun w => Endian.mem_words_lt
  have hsum := ones_sum_iff hwords (s % 65536)
  have hlt := ((ones_sum_iff hwords _).mp rfl).1
  unfold internetChecksum
  omega

/-- The checksum of a text that is accepted as it is. -/
theorem internet_checksum_eq_zero (e : Endian) (text : Bytes) :
    internetChecksum e text = 0 ↔ Accepts e text := by
  have hwords : ∀ w ∈ e.words text, w < 65536 := fun w => Endian.mem_words_lt
  have hlt := ((ones_sum_iff hwords _).mp rfl).1
  unfold internetChecksum Accepts
  omega

theorem internet_checksum_lt (e : Endian) (text : Bytes) : internetChecksum e text < 65536 :=
  Nat.lt_succ_of_le (Nat.sub_le _ _)

/-- A text with its checksum in a place that was zero is accepted. -/
theorem accepts_checksum (e : Endian) {text : Bytes} (heven : text.length % 2 = 0) (more : Bytes) :
    Accepts e (text ++ e.bytes (internetChecksum e (text ++ [0, 0] ++ more)) ++ more) := by
  have hsplit : ∀ c d, (e.words (text ++ [c, d] ++ more)).sum =
      (e.words text).sum + e.word c d + (e.words more).sum := by
    intro c d
    have hprefix : (text ++ [c, d]).length % 2 = 0 := by
      rw [List.length_append, List.length_cons, List.length_singleton]
      omega
    rw [Endian.words_append hprefix, Endian.words_append heven, List.sum_append, List.sum_append]
    rfl
  have hblank : e.word 0 0 = 0 := (e.word_eq_zero_iff 0 0).mpr ⟨rfl, rfl⟩
  have hwords : ∀ w ∈ e.words (text ++ [0, 0] ++ more), w < 65536 := fun w => Endian.mem_words_lt
  obtain ⟨hlt, hmod, hzero⟩ := (ones_sum_iff hwords _).mp rfl
  obtain ⟨c, d, hbytes, hword⟩ := e.word_bytes
    (internet_checksum_lt e (text ++ [0, 0] ++ more))
  rw [hbytes, accepts_iff, hsplit, hword, internetChecksum]
  rw [hsplit, hblank] at hmod hzero
  omega

/-! ## Folding -/

theorem fold_mod (sum : Nat) : fold sum % 65535 = sum % 65535 := by
  unfold fold
  omega

theorem fold_eq_zero (sum : Nat) : fold sum = 0 ↔ sum = 0 := by
  unfold fold
  omega

/-- A sum of 32 bits fits into 16 bits after it has been folded twice. -/
theorem fold_fold_lt {sum : Nat} (h : sum < 2 ^ 32) : fold (fold sum) < 65536 := by
  unfold fold
  omega

end NetLib
