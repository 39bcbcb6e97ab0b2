import Mathlib.Data.List.TakeDrop
import UnixNet.Lib.Message
import UnixNet.LibeventWeb.Requests

/-!
# Framing of file responses of the libevent web server

`sendHeader` announces the size that `stat` returned, and `sendFile` queues what one `read` into
its buffer of 5060 bytes returns. The two agree for files that fit the buffer, and for no other
(`file_response_framed_iff`).
-/

namespace UnixNet.LibeventWeb

open NetLib UnixNet.Pub UnixNet.Bufferevent

/-- The lines of a header, without their line ends. -/
def headerLines (code : Int) (msg type : Bytes) (length : Int) : List Bytes :=
  responseLines (ascii "HTTP/1.1 " ++ decimalInt code ++ ascii " " ++ msg)
    (ascii "Content-Type:" ++ type) (if length > 0 then some length.natAbs else none)

/-- The texts of a header are its lines and the blank line. -/
theorem header_texts_eq (code length : Int) (msg type : Bytes) :
    headerTexts code msg type length =
      (headerLines code msg type length).map (· ++ crlf) ++ [crlf] := by
  unfold headerTexts headerLines
  by_cases hpos : length > 0
  · have hdecimal : decimalInt length = decimal length.natAbs := by
      rw [decimalInt, if_neg (by omega)]
    simp [hpos, hdecimal, responseLines, statusLine, typeLine, lengthLine]
  · simp [hpos, responseLines, statusLine, typeLine]

/-- The lines of the header of a file can stand in a header. -/
theorem header_lines_safe (path : Bytes) (length : Int) :
    ∀ line ∈ headerLines 200 (ascii "OK") (getMimeType path) length, IsHeaderLine line :=
  response_lines_safe (by decide) (.of_label (by decide) (cr_not_mem_mime_type path))

/-- A header with a positive length announces it. -/
theorem content_length_header_lines (type : Bytes) {n : Nat} (hpos : 0 < n) :
    contentLength (headerLines 200 (ascii "OK") type n) = some n := by
  have hlength : (if (n : Int) > 0 then some (n : Int).natAbs else none) = some n := by
    rw [if_pos (by omega), Int.natAbs_natCast]
  rw [headerLines, hlength]
  have hwritten : ascii "Content-Type:" = ascii "Content-Type" ++ [58] := rfl
  exact content_length_response_lines type _ (by decide) hwritten (by decide) (by decide)

/-- What the branch for regular files queues: the header up to its first failing write, and the
first 5060 bytes of the file. -/
theorem processing_requests_regular {env : Env} {path : Bytes} {size : Int} {file : File}
    (hstat : env.stat (repath path) = some ⟨.regular, size⟩)
    (hopen : env.openFile (repath path) = some file) :
    ∃ header : Progress,
      header = writeAll env (headerTexts 200 (ascii "OK") (getMimeType path) (toInt size))
        (Progress.start.call (.stat (repath path))) ∧
      queued (processingRequests env path) =
        queued header.calls ++
          (if file.readFails 0 = false ∧ env.write header.writes = true
            then file.content.take 5060 else []) := by
  have hbound := toInt_bound size
  refine ⟨_, rfl, ?_⟩
  rw [← send_header_eq env _ (by decide) (mime_type_header_safe path).2.1 (by omega),
    ← send_file_queued env hopen]
  simp only [processingRequests, hstat]
  exact queued_call _ rfl

variable (env : Env) {lines : List Bytes} {p : Progress}

/-- When all writes of a header succeed, its lines and the blank line are queued. -/
theorem write_header_queued (hstart : queued p.calls = [])
    (h : ∀ i < lines.length + 1, env.write (p.writes + i) = true) :
    (writeAll env (lines.map (· ++ crlf) ++ [crlf]) p).writes = p.writes + (lines.length + 1) ∧
      queued (writeAll env (lines.map (· ++ crlf) ++ [crlf]) p).calls =
        renderHead lines ++ crlf := by
  have hcount : (lines.map (· ++ crlf) ++ [crlf]).length = lines.length + 1 := by
    simp
  obtain ⟨hwrites, hqueued⟩ := write_all_queued env (hcount.symm ▸ h)
  refine ⟨hcount ▸ hwrites, ?_⟩
  rw [hqueued, hstart]
  simp [renderHead, List.flatMap]

/-- When a write of a header fails, only some of its lines are queued. -/
theorem write_header_stopped (hstart : queued p.calls = [])
    (h : ¬ ∀ i < lines.length + 1, env.write (p.writes + i) = true) :
    ∃ k, queued (writeAll env (lines.map (· ++ crlf) ++ [crlf]) p).calls =
      renderHead (lines.take k) := by
  have hcount : (lines.map (· ++ crlf) ++ [crlf]).length = lines.length + 1 := by
    simp
  obtain ⟨k, hk, hqueued⟩ := write_all_stopped env (hcount.symm ▸ h)
  refine ⟨k, ?_⟩
  rw [hqueued, hstart, List.take_append_of_le_length (by simp at hk ⊢; omega), ← List.map_take]
  simp [renderHead, List.flatMap]

variable {env}

/-- What `sendFile` queues of a file that is not empty is the whole content exactly if the file can
be read, the write succeeds and the content fits the buffer. -/
theorem sent_body_eq_iff {content : Bytes} {sent : Prop} [Decidable sent] (hne : content ≠ []) :
    (if sent then content.take 5060 else []) = content ↔ sent ∧ content.length ≤ 5060 := by
  by_cases hsent : sent
  · rw [if_pos hsent, List.take_eq_self_iff]
    exact ⟨fun hle => ⟨hsent, hle⟩, fun h => h.2⟩
  · rw [if_neg hsent]
    exact iff_of_false (fun hnil => hne hnil.symm) fun h => hsent h.1

/-- The lines of the header that is sent for a file. -/
def fileHeaderLines (path : Bytes) (file : File) : List Bytes :=
  headerLines 200 (ascii "OK") (getMimeType path) (toInt file.content.length)

/-- When the header of a file is queued entirely, all depends on the body and on the announced
length. -/
theorem header_queued_carries_iff {path : Bytes} {file : File}
    (hstat : env.stat (repath path) = some ⟨.regular, file.content.length⟩)
    (hopen : env.openFile (repath path) = some file) (hne : file.content ≠ [])
    (hwrites : ∀ i < (fileHeaderLines path file).length + 1, env.write i = true) :
    Carries (queued (processingRequests env path)) file.content ↔
      ((file.readFails 0 = false ∧ env.write ((fileHeaderLines path file).length + 1) = true) ∧
        file.content.length ≤ 5060) ∧
          contentLength (fileHeaderLines path file) = some file.content.length := by
  obtain ⟨header, hheader, hqueued⟩ := processing_requests_regular hstat hopen
  have hsafe : ∀ line ∈ fileHeaderLines path file, IsHeaderLine line := header_lines_safe path _
  have hnumber : ∀ i, (Progress.start.call (.stat (repath path))).writes + i = i := Nat.zero_add
  have hall : ∀ i < (fileHeaderLines path file).length + 1,
      env.write ((Progress.start.call (.stat (repath path))).writes + i) = true := by
    intro i hi
    rw [hnumber]
    exact hwrites i hi
  obtain ⟨hnext, hhead⟩ := write_header_queued env rfl hall
  rw [header_texts_eq] at hheader
  change header = writeAll env ((fileHeaderLines path file).map (· ++ crlf) ++ [crlf]) _ at hheader
  rw [← hheader] at hnext hhead
  rw [hnumber] at hnext
  rw [hqueued, hhead, List.append_assoc, carries_message_iff hsafe, hnext, sent_body_eq_iff hne]

/-- When a write of the header of a file fails, the header ends before the blank line. -/
theorem header_stopped_not_carries {path : Bytes} {file : File}
    (hstat : env.stat (repath path) = some ⟨.regular, file.content.length⟩)
    (hopen : env.openFile (repath path) = some file)
    (hstops : ¬ ∀ i < (fileHeaderLines path file).length + 1, env.write i = true) :
    ¬ Carries (queued (processingRequests env path)) file.content := by
  obtain ⟨header, hheader, hqueued⟩ := processing_requests_regular hstat hopen
  have hsafe : ∀ line ∈ fileHeaderLines path file, IsHeaderLine line := header_lines_safe path _
  have hnumber : ∀ i, (Progress.start.call (.stat (repath path))).writes + i = i := Nat.zero_add
  have hnot : ¬ ∀ i < (fileHeaderLines path file).length + 1,
      env.write ((Progress.start.call (.stat (repath path))).writes + i) = true := by
    simpa only [hnumber] using hstops
  obtain ⟨k, hhead⟩ := write_header_stopped env rfl hnot
  rw [header_texts_eq] at hheader
  change header = writeAll env ((fileHeaderLines path file).map (· ++ crlf) ++ [crlf]) _ at hheader
  rw [← hheader] at hhead
  rw [hqueued, hhead]
  refine not_carries_of_no_blank (fun line hline => hsafe line (List.mem_of_mem_take hline)) ?_
  split
  · exact List.length_take_le' 5060 _
  · exact Nat.zero_le _

/-- A file that fits the buffer is announced with its length, in the third of three lines. -/
theorem file_header_lines_spec (path : Bytes) {file : File} (hne : file.content ≠ [])
    (hle : file.content.length ≤ 5060) :
    (fileHeaderLines path file).length = 3 ∧
      contentLength (fileHeaderLines path file) = some file.content.length := by
  have hpos : 0 < file.content.length := List.length_pos_iff.mpr hne
  have hint : toInt file.content.length = file.content.length := toInt_eq_self (by omega)
  rw [fileHeaderLines, hint]
  exact ⟨by simp [headerLines, responseLines, hpos], content_length_header_lines _ hpos⟩

/-- A file response is framed exactly when the file fits the buffer of `sendFile`. For every
regular file that can be opened and is not empty: the queued bytes are a header that announces the
length of the body, and a body that is the content of the file, if and only if the file has at most
5060 bytes, can be read, and none of the five writes fails. -/
theorem file_response_framed_iff {path : Bytes} {file : File}
    (hstat : env.stat (repath path) = some ⟨.regular, file.content.length⟩)
    (hopen : env.openFile (repath path) = some file) (hne : file.content ≠ []) :
    Carries (queued (processingRequests env path)) file.content ↔
      file.content.length ≤ 5060 ∧ file.readFails 0 = false ∧ ∀ i < 5, env.write i = true := by
  by_cases hwrites : ∀ i < (fileHeaderLines path file).length + 1, env.write i = true
  · rw [header_queued_carries_iff hstat hopen hne hwrites]
    constructor
    · rintro ⟨⟨⟨hread, hlast⟩, hle⟩, -⟩
      obtain ⟨hthree, -⟩ := file_header_lines_spec path hne hle
      refine ⟨hle, hread, ?_⟩
      intro i hi
      rcases Nat.lt_or_ge i 4 with hlt | hge
      · exact hwrites i (by omega)
      · rw [show i = (fileHeaderLines path file).length + 1 by omega]
        exact hlast
    · rintro ⟨hle, hread, hall⟩
      obtain ⟨hthree, hannounced⟩ := file_header_lines_spec path hne hle
      exact ⟨⟨⟨hread, hall _ (by omega)⟩, hle⟩, hannounced⟩
  · refine iff_of_false (header_stopped_not_carries hstat hopen hwrites) ?_
    rintro ⟨hle, -, hall⟩
    obtain ⟨hthree, -⟩ := file_header_lines_spec path hne hle
    exact hwrites fun i hi => hall i (by omega)

/-- The host of `smallRoot`, where every write succeeds. -/
def smallEnv : Env where
  toHost := smallRoot
  write _ := true

/-- A file with one byte more than the buffer of `sendFile`. -/
def largeFile : File :=
  ⟨List.replicate 5061 65, fun _ => false⟩

/-- A document root in which every name is that file. -/
def largeEnv : Env where
  stat _ := some ⟨.regular, 5061⟩
  openFile _ := some largeFile
  scandir _ := none
  write _ := true

/-- A file of two bytes is framed. -/
theorem small_file_framed :
    Carries (queued (processingRequests smallEnv (ascii "/a"))) (ascii "AB") := by
  have hopen : smallEnv.openFile (repath (ascii "/a")) = some ⟨ascii "AB", fun _ => false⟩ := rfl
  exact (file_response_framed_iff (by decide) hopen (by decide)).mpr
    ⟨by decide, rfl, fun _ _ => rfl⟩

/-- A file of 5061 bytes is not: its last byte is announced and not queued. -/
theorem large_file_not_framed :
    ¬ ∀ (env : Env) (path : Bytes) (file : File),
      env.stat (repath path) = some ⟨.regular, file.content.length⟩ →
      env.openFile (repath path) = some file → file.content ≠ [] →
      Carries (queued (processingRequests env path)) file.content := by
  intro h
  have hlength : largeFile.content.length = 5061 := List.length_replicate
  have hne : largeFile.content ≠ [] := List.ne_nil_of_length_pos (by omega)
  have hcarries := h largeEnv (ascii "/a") largeFile (by rw [hlength]; rfl) rfl hne
  rw [header_queued_carries_iff (by rw [hlength]; rfl) rfl hne fun _ _ => rfl, hlength] at hcarries
  exact absurd hcarries.1.2 (by decide)

end UnixNet.LibeventWeb
