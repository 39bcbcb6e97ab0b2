import UnixNet.Lib.Text

/-!
# The file system the web servers see

The answers of the file system to one request: `stat`, `open` and `read`, and the entries a
directory scan returns. A regular file gives as many bytes as are asked for until its end, unless
a read fails. `File.reads` is the list of blocks that a loop of `read` calls gets.
-/

namespace UnixNet

open NetLib

/-- The file types that `S_ISREG` and `S_ISDIR` tell apart. -/
inductive FileKind where
  | regular
  | directory
  | other
  deriving DecidableEq

/-- What the servers use of a `struct stat`. `size` is an `off_t`. -/
structure FileStat where
  kind : FileKind
  size : Int
  deriving DecidableEq

/-- An open file. `readFails pos` says that a read at offset `pos` fails. -/
structure File where
  content : Bytes
  readFails : Nat → Bool

/-- A directory entry: a file name and its `d_type`. -/
structure DirEnt where
  dName : Bytes
  dType : Nat
  short : dName.length ≤ 255
  noNul : (0 : UInt8) ∉ dName

/-- `DT_DIR` -/
def dtDir : Nat := 4

/-- `DT_REG` -/
def dtReg : Nat := 8

/-- The file system during one request. `none` is a call that fails. -/
structure Host where
  stat : Bytes → Option FileStat
  openFile : Bytes → Option File
  scandir : Bytes → Option (List DirEnt)

/-- The conversion of an `off_t` to `int`. -/
def toInt (x : Int) : Int :=
  (x + 2 ^ 31) % 2 ^ 32 - 2 ^ 31

/-- `read(fd, buf, cap)` at offset `pos`: the bytes read, none at the end of the file. -/
def File.read (file : File) (pos cap : Nat) : Option Bytes :=
  if file.readFails pos then none else some ((file.content.drop pos).take cap)

/-- `n = read(fd, buf, sizeof(buf))`, where `fd` is -1 when the file could not be opened. -/
def readInto (file : Option File) (pos : Nat) (buf : Bytes) : Int × Bytes :=
  match file.bind fun f => f.read pos buf.length with
  | none => (-1, buf)
  | some data => (data.length, overwrite data buf)

/-- A file with that path can be opened and its first read succeeds. -/
def Host.canRead (host : Host) (path : Bytes) : Bool :=
  (host.openFile path).any fun file => !file.readFails 0

/-- The blocks that successive reads of `cap` bytes from offset `pos` on return, up to the read
that returns 0 or fails. -/
def File.readsFrom (file : File) (cap : Nat) : Nat → Nat → List Bytes
  | 0, _ => []
  | fuel + 1, pos =>
      match file.read pos cap with
      | some (b :: bs) => (b :: bs) :: file.readsFrom cap fuel (pos + (b :: bs).length)
      | _ => []

/-- The blocks that reading a whole file in steps of `cap` bytes returns. -/
def File.reads (file : File) (cap : Nat) : List Bytes :=
  file.readsFrom cap (file.content.length + 1) 0

/-- A document root with one file `a` of two bytes and no other entry. -/
def smallRoot : Host where
  stat path :=
    if path = ascii "./a" then some ⟨.regular, 2⟩
    else if path = ascii "./" then some ⟨.directory, 4096⟩
    else none
  openFile path := if path = ascii "./a" then some ⟨ascii "AB", fun _ => false⟩ else none
  scandir path := if path = ascii "./" then some [] else none

/-- The conversion to `int` gives an `int`. -/
theorem toInt_bound (x : Int) : -(2 ^ 31) ≤ toInt x ∧ toInt x < 2 ^ 31 := by
  unfold toInt
  omega

/-- An `int` is not changed by the conversion. -/
theorem toInt_eq_self {x : Int} (h : -(2 ^ 31) ≤ x ∧ x < 2 ^ 31) : toInt x = x := by
  unfold toInt
  omega

/-- The first read of a file that can be read. -/
theorem read_into_first {file : File} (h : file.readFails 0 = false) (buf : Bytes) :
    readInto (some file) 0 buf =
      (((file.content.take buf.length).length : Int),
        overwrite (file.content.take buf.length) buf) := by
  simp [readInto, File.read, h]

/-- The first read of a file that cannot be opened or read. -/
theorem read_into_fails {host : Host} {path : Bytes} (h : host.canRead path = false) (buf : Bytes) :
    readInto (host.openFile path) 0 buf = (-1, buf) := by
  unfold Host.canRead at h
  cases hopen : host.openFile path with
  | none => rfl
  | some file =>
      rw [hopen, Option.any_some, Bool.not_eq_false'] at h
      simp [readInto, File.read, h]

/-- A file that can be read was opened. -/
theorem Host.canRead_iff {host : Host} {path : Bytes} :
    host.canRead path = true ↔
      ∃ file, host.openFile path = some file ∧ file.readFails 0 = false := by
  unfold canRead
  cases host.openFile path <;> simp

/-- Reading keeps the size of the buffer. -/
theorem length_read_into (file : Option File) (pos : Nat) (buf : Bytes) :
    (readInto file pos buf).2.length = buf.length := by
  unfold readInto
  cases hread : file.bind fun f => f.read pos buf.length with
  | none => rfl
  | some data =>
      obtain ⟨f, -, hdata⟩ := Option.bind_eq_some_iff.mp hread
      refine length_overwrite ?_
      unfold File.read at hdata
      split at hdata
      · cases hdata
      · rw [← Option.some.inj hdata]
        exact List.length_take_le _ _

/-- A successful read returns the next part of the file. -/
theorem File.read_eq_some {file : File} {pos cap : Nat} {data : Bytes}
    (h : file.read pos cap = some data) : data = (file.content.drop pos).take cap := by
  unfold read at h
  split at h
  · cases h
  · exact (Option.some.inj h).symm

/-- A block is a nonempty part of the file of at most `cap` bytes. -/
theorem File.reads_from_block {file : File} {cap fuel pos : Nat} {block : Bytes}
    (h : block ∈ file.readsFrom cap fuel pos) : block ≠ [] ∧ block.length ≤ cap := by
  induction fuel generalizing pos with
  | zero => cases h
  | succ fuel ih =>
      rw [readsFrom] at h
      split at h
      · next b bs hread =>
          rcases List.mem_cons.mp h with rfl | h
          · refine ⟨List.cons_ne_nil b bs, ?_⟩
            rw [read_eq_some hread]
            exact List.length_take_le cap _
          · exact ih h
      · cases h

/-- The blocks, joined, are a prefix of what is behind the offset. -/
theorem File.reads_from_flatten (file : File) (cap fuel pos : Nat) :
    (file.readsFrom cap fuel pos).flatten <+: file.content.drop pos := by
  induction fuel generalizing pos with
  | zero => exact List.nil_prefix
  | succ fuel ih =>
      rw [readsFrom]
      split
      · next b bs hread =>
          obtain ⟨rest, hrest⟩ := ih (pos + (b :: bs).length)
          obtain ⟨tail, htail⟩ := List.take_prefix cap (file.content.drop pos)
          rw [← read_eq_some hread] at htail
          refine ⟨rest, ?_⟩
          rw [List.flatten_cons, List.append_assoc, hrest, ← List.drop_drop, ← htail,
            List.drop_left]
      · exact List.nil_prefix

/-- Reading a file in steps gives a prefix of its content. -/
theorem File.reads_flatten (file : File) (cap : Nat) :
    (file.reads cap).flatten <+: file.content := by
  simpa [reads] using file.reads_from_flatten cap (file.content.length + 1) 0

/-- If no read fails, reading a file in steps gives its content. -/
theorem File.reads_flatten_eq {file : File} {cap : Nat} (hcap : 0 < cap)
    (h : ∀ pos, file.readFails pos = false) : (file.reads cap).flatten = file.content := by
  have hfrom : ∀ fuel pos, file.content.length < fuel + pos →
      (file.readsFrom cap fuel pos).flatten = file.content.drop pos := by
    intro fuel
    induction fuel with
    | zero =>
        intro pos hfuel
        rw [readsFrom, List.drop_of_length_le (by omega), List.flatten_nil]
    | succ fuel ih =>
        intro pos hfuel
        have hread : file.read pos cap = some ((file.content.drop pos).take cap) := by
          rw [read, h, if_neg Bool.false_ne_true]
        rw [readsFrom, hread]
        cases hblock : (file.content.drop pos).take cap with
        | nil =>
            rcases List.take_eq_nil_iff.mp hblock with hzero | hnil
            · omega
            · exact hnil.symm
        | cons b bs =>
            show (b :: bs) ++ (file.readsFrom cap fuel (pos + (b :: bs).length)).flatten = _
            rw [ih _ (by rw [List.length_cons]; omega), ← List.drop_drop, ← hblock,
              List.length_take]
            rcases Nat.le_total cap (file.content.drop pos).length with hle | hle
            · rw [Nat.min_eq_left hle, List.take_append_drop]
            · rw [Nat.min_eq_right hle, List.take_of_length_le hle, List.drop_length,
                List.append_nil]
  simpa [reads] using hfrom (file.content.length + 1) 0 (by omega)

end UnixNet
