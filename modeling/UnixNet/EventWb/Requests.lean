import UnixNet.Bufferevent
import UnixNet.Lib.Message
import UnixNet.Pub.Codec
import UnixNet.Pub.MimeType

/-!
# `http_request` of the libevent test server

The reply to a request as the calls it makes on the bufferevent and on the file system, with
`copy_header`, `copy_file` and `send_dir`. The lemmas say what each of these queues when libevent
queues every write.
-/

namespace UnixNet.EventWb

open NetLib UnixNet.Pub UnixNet.Bufferevent

/-- What the calls of one request return. `openDir` gives the entries in the order of `readdir`, and
`staleSize i` is what `sb.st_size` holds when the `stat` of the entry number `i` has failed. -/
structure Env extends Bufferevent.Env where
  openDir : Bytes → Option (List DirEnt)
  staleSize : Nat → Int

/-- `_DIR_PREFIX_FILE_` -/
def dirPrefixFile : Bytes := ascii "html/dir_header.html"

/-- `_DIR_TAIL_FILE_` -/
def dirTailFile : Bytes := ascii "html/dir_tail.html"

/-- `copy_header(bev, op, msg, filetype, filesize)`. The `sprintf(buf, "%s...", buf, ...)` have the
array that they write to among what they read, which the standard leaves undefined. The model is
what happens in a program built by the makefile, which does not optimise: each of them appends to
the string in `buf`, whose 4096 bytes are enough for it. -/
def copyHeader (env : Env) (op : Int) (msg filetype : Bytes) (filesize : Int) (p : Progress) :
    Progress :=
  let buf := ascii "HTTP/1.1 " ++ decimalInt op ++ ascii " " ++ msg ++ crlf
  let buf := buf ++ ascii "Content-Type: " ++ filetype ++ crlf
  let buf :=
    if filesize ≥ 0 then buf ++ ascii "Content-Length:" ++ decimalInt filesize ++ crlf else buf
  let buf := buf ++ crlf
  (p.write env.toEnv buf buf.length).2

/-- `while ((ret = read(fd, buf, sizeof(buf))) > 0)` from offset `pos` on. -/
def copyLoop (env : Env) (file : File) : Nat → Nat → Bytes → Progress → Progress
  | 0, _, _, p => p
  | fuel + 1, pos, buf, p =>
      let (ret, buf) := readInto (some file) pos buf
      if ret > 0 then copyLoop env file fuel (pos + ret.toNat) buf (p.write env.toEnv buf ret).2
      else p

/-- `copy_file(bev, strFile)`. When the file cannot be opened, the `read` fails. -/
def copyFile (env : Env) (strFile : Bytes) (p : Progress) : Progress :=
  match env.openFile strFile with
  | none => (p.call (.openFile strFile false)).call (.closeFile false)
  | some file =>
      let p := p.call (.openFile strFile true)
      -- each round reads at least one byte, so this fuel is enough
      (copyLoop env file (file.content.length + 1) 0 (zeros 1024) p).call (.closeFile true)

/-- The list item of a directory. -/
def dirLine (name : Bytes) (size : Int) : Bytes :=
  ascii "<li><a href='" ++ name ++ ascii "/'>" ++ padLeft 32 name ++ ascii "</a>   " ++
    padLeft 8 (decimalInt size) ++ ascii "</li>"

/-- The list item of a regular file. -/
def fileLine (name : Bytes) (size : Int) : Bytes :=
  ascii "<li><a href='" ++ name ++ ascii "'>" ++ padLeft 32 name ++ ascii "</a>     " ++
    padLeft 8 (decimalInt size) ++ ascii "</li>"

/-- What `sb.st_size` holds after `stat(dent->d_name, &sb)` for the entry number `i`. -/
def entrySize (env : Env) (i : Nat) (name : Bytes) : Int :=
  match env.stat name with
  | some sb => sb.size
  | none => env.staleSize i

/-- The line of an entry, which is shorter than `bufline`. Entries of other types have none. -/
def entryLine (env : Env) (i : Nat) (dent : DirEnt) : Option Bytes :=
  if dent.dType = dtDir then some (dirLine dent.dName (entrySize env i dent.dName))
  else if dent.dType = dtReg then some (fileLine dent.dName (entrySize env i dent.dName))
  else none

/-- The loop over the entries, from the entry number `i` on. -/
def sendEntries (env : Env) : Nat → List DirEnt → Progress → Progress
  | _, [], p => p
  | i, dent :: rest, p =>
      let p := p.call (.stat dent.dName)
      sendEntries env (i + 1) rest
        (match entryLine env i dent with
          | some bufline => (p.write env.toEnv bufline bufline.length).2
          | none => p)

/-- `send_dir(bev, strPath)` -/
def sendDir (env : Env) (strPath : Bytes) (p : Progress) : Progress :=
  let p := copyFile env dirPrefixFile p
  match env.openDir strPath with
  | none => p.call (.openDir strPath false)
  | some entries =>
      let p := p.call (.openDir strPath true)
      let p := (sendEntries env 0 entries p).call .closeDir
      copyFile env dirTailFile p

/-- The path handed to `stat` and `open`: `strdecode(path, path)`, and then `path + 1` unless the
string in `path` is `/` or `/.`. A request path has at least one byte. -/
def strPath (path : Bytes) : Bytes :=
  let decoded := strdecode path
  if cstr decoded = ascii "/" ∨ cstr decoded = ascii "/." then ascii "./"
  else cstr (decoded.drop 1)

/-- `http_request(bev, path)`: the calls it makes. -/
def httpRequest (env : Env) (path : Bytes) : List Call :=
  let strPath := strPath path
  let p := Progress.start.call (.stat strPath)
  (match env.stat strPath with
    | none =>
        copyFile env (ascii "error.html")
          (copyHeader env 404 (ascii "NOT FOUND") (getMimeType (ascii "error.html")) (-1) p)
    | some ⟨.directory, size⟩ =>
        sendDir env strPath
          (copyHeader env 200 (ascii "OK") (getMimeType (ascii "ww.html")) size p)
    | some ⟨.regular, size⟩ =>
        copyFile env strPath (copyHeader env 200 (ascii "OK") (getMimeType strPath) size p)
    | some ⟨.other, _⟩ => p).calls

/-! ## What is queued -/

/-- The content of a file as far as it can be opened and read. -/
def readable (env : Env) (strFile : Bytes) : Bytes :=
  match env.openFile strFile with
  | none => []
  | some file => (file.reads 1024).flatten

/-- The lines of a header, without their line ends. -/
def headerLines (op : Int) (msg filetype : Bytes) (filesize : Int) : List Bytes :=
  responseLines (ascii "HTTP/1.1 " ++ decimalInt op ++ ascii " " ++ msg)
    (ascii "Content-Type: " ++ filetype) (if filesize ≥ 0 then some filesize.natAbs else none)

variable {env : Env}

/-- A successful write of a whole text queues it. -/
theorem queued_write_text (hwrites : ∀ i, env.write i = true) (p : Progress) (data : Bytes) :
    queued (p.write env.toEnv data data.length).2.calls = queued p.calls ++ data := by
  rw [queued_write, if_pos (hwrites _), Int.toNat_natCast, List.take_length]

/-- `copy_header` queues its lines and the blank line. -/
theorem copy_header_queued (hwrites : ∀ i, env.write i = true) (op filesize : Int)
    (msg filetype : Bytes) (p : Progress) :
    queued (copyHeader env op msg filetype filesize p).calls =
      queued p.calls ++ (renderHead (headerLines op msg filetype filesize) ++ crlf) := by
  unfold copyHeader headerLines
  rw [queued_write_text hwrites]
  by_cases hsize : filesize ≥ 0
  · have hdecimal : decimalInt filesize = decimal filesize.natAbs := by
      rw [decimalInt, if_neg (by omega)]
    simp [hsize, hdecimal, responseLines, renderHead]
  · simp [hsize, responseLines, renderHead]

/-- The loop queues the blocks of the file. -/
theorem copy_loop_queued (hwrites : ∀ i, env.write i = true) (file : File) (fuel pos : Nat)
    (p : Progress) {buf : Bytes} (hbuf : buf.length = 1024) :
    queued (copyLoop env file fuel pos buf p).calls =
      queued p.calls ++ (file.readsFrom 1024 fuel pos).flatten := by
  induction fuel generalizing pos p buf with
  | zero => simp [copyLoop, File.readsFrom]
  | succ fuel ih =>
      rw [File.readsFrom]
      cases hread : file.read pos 1024 with
      | none => simp [copyLoop, readInto, hbuf, hread]
      | some data =>
          cases data with
          | nil => simp [copyLoop, readInto, hbuf, hread]
          | cons b bs =>
              have hlen : (b :: bs).length ≤ 1024 := by
                rw [File.read_eq_some hread]
                exact List.length_take_le 1024 _
              have hround : copyLoop env file (fuel + 1) pos buf p =
                  copyLoop env file fuel (pos + (b :: bs).length) (overwrite (b :: bs) buf)
                    (p.write env.toEnv (overwrite (b :: bs) buf) (b :: bs).length).2 := by
                have hpos : ((b :: bs).length : Int) > 0 := by
                  rw [List.length_cons]
                  omega
                simp only [copyLoop, readInto, Option.bind_some, hbuf, hread, hpos, if_true,
                  Int.toNat_natCast]
              rw [hround, ih _ _ (by rw [length_overwrite (hbuf.symm ▸ hlen), hbuf]), queued_write,
                if_pos (hwrites _), Int.toNat_natCast, take_overwrite (Nat.le_refl _),
                List.take_length, List.append_assoc]
              rfl

/-- `copy_file` queues what can be read of a file. -/
theorem copy_file_queued (hwrites : ∀ i, env.write i = true) (strFile : Bytes) (p : Progress) :
    queued (copyFile env strFile p).calls = queued p.calls ++ readable env strFile := by
  have hbuf : (zeros 1024).length = 1024 := List.length_replicate
  unfold copyFile readable
  cases hopen : env.openFile strFile with
  | none =>
      show queued ((p.call _).call _).calls = _
      rw [queued_call _ rfl, queued_call _ rfl, List.append_nil]
  | some file =>
      show queued ((copyLoop env file _ 0 (zeros 1024) _).call _).calls = _
      rw [queued_call _ rfl, copy_loop_queued hwrites file _ _ _ hbuf, queued_call _ rfl]
      rfl

end UnixNet.EventWb
