import UnixNet.Lib.Text

/-!
# Messages with a header

A message is a sequence of header lines, each closed by CRLF, a blank line, and a body. `parseHead`
is what a receiver does with the bytes of a connection: it reads lines up to the blank line. A
message on a connection that stays open is delimited by the `Content-Length` field of its header:
`SelfDelimiting` says that this field exists and is the length of the rest, `Carries` that the rest
is a given content besides.
-/

namespace NetLib

/-- Header lines on the wire. -/
def renderHead (lines : List Bytes) : Bytes :=
  lines.flatMap fun line => line ++ crlf

/-- A line that can stand in a header: it is neither blank nor interrupted. -/
def IsHeaderLine (line : Bytes) : Prop :=
  line ≠ [] ∧ (13 : UInt8) ∉ line

/-- The header of a response: a status line, a line for another field, and a line that announces
the length, if there is one. -/
def responseLines (status other : Bytes) (length : Option Nat) : List Bytes :=
  [status, other] ++ (length.map fun n => ascii "Content-Length:" ++ decimal n).toList

/-- Read header lines up to the blank line. `line` is the part of the current line that was
read. -/
def parseHeadFrom : Bytes → Bytes → Option (List Bytes × Bytes)
  | _, [] => none
  | line, 13 :: 10 :: rest =>
      if line = [] then some ([], rest)
      else (parseHeadFrom [] rest).map fun head => (line :: head.1, head.2)
  | line, c :: rest => parseHeadFrom (line ++ [c]) rest

/-- The header lines of a message, and what follows its first blank line. -/
def parseHead (message : Bytes) : Option (List Bytes × Bytes) :=
  parseHeadFrom [] message

/-- The lower-case form of an ASCII letter. -/
def lower (c : UInt8) : UInt8 :=
  if 65 ≤ c ∧ c ≤ 90 then c + 32 else c

/-- The value of a header line whose name, in any case, is `name`. -/
def field (name line : Bytes) : Option Bytes :=
  match line.dropWhile (· ≠ 58) with
  | [] => none
  | _ :: value =>
      if (line.takeWhile (· ≠ 58)).map lower = name then some (value.dropWhile (· = 32)) else none

/-- The number in the `Content-Length` field of a header. -/
def contentLength (lines : List Bytes) : Option Nat :=
  (lines.findSome? (field (ascii "content-length"))).bind parseDecimal

/-- The numbers in all `Content-Length` fields of a header. -/
def announcedLengths (lines : List Bytes) : List (Option Nat) :=
  (lines.filterMap (field (ascii "content-length"))).map parseDecimal

/-- The block is a header, and it announces the length `n`, unless that is 0: then it announces
none. -/
def Announces (block : Bytes) (n : Nat) : Prop :=
  ∃ lines, parseHead block = some (lines, []) ∧
    announcedLengths lines = if 0 < n then [some n] else []

/-- A receiver can tell where the message ends: the header announces the length of the body. -/
def SelfDelimiting (message : Bytes) : Prop :=
  ∃ lines body, parseHead message = some (lines, body) ∧ contentLength lines = some body.length

/-- The message is delimited and its body is the given content. -/
def Carries (message content : Bytes) : Prop :=
  ∃ lines, parseHead message = some (lines, content) ∧ contentLength lines = some content.length

/-- A message is delimited exactly if its header can be read and announces the length of the
rest. -/
theorem self_delimiting_iff (message : Bytes) :
    ((parseHead message).any fun head => contentLength head.1 = some head.2.length) = true ↔
      SelfDelimiting message := by
  unfold SelfDelimiting
  cases parseHead message with
  | none => simp
  | some head =>
      obtain ⟨lines, body⟩ := head
      simp

instance (line : Bytes) : Decidable (IsHeaderLine line) :=
  inferInstanceAs (Decidable (_ ∧ _))

instance (message : Bytes) : Decidable (SelfDelimiting message) :=
  decidable_of_iff _ (self_delimiting_iff message)

/-! ## Reading what was written -/

/-- A line that contains no carriage return is read as it was written. -/
theorem parse_head_from_line (line : Bytes) {text : Bytes} (h : (13 : UInt8) ∉ text)
    (rest : Bytes) :
    parseHeadFrom line (text ++ crlf ++ rest) =
      if line ++ text = [] then some ([], rest)
      else (parseHeadFrom [] rest).map fun head => ((line ++ text) :: head.1, head.2) := by
  induction text generalizing line with
  | nil => simp [crlf, parseHeadFrom]
  | cons c text ih =>
      have hc : c ≠ 13 := fun heq => h (by simp [heq])
      have hstep : parseHeadFrom line (c :: (text ++ crlf ++ rest)) =
          parseHeadFrom (line ++ [c]) (text ++ crlf ++ rest) := by
        rw [parseHeadFrom]
        intro tail heq
        exact absurd heq hc
      rw [List.cons_append, List.cons_append, hstep,
        ih (line ++ [c]) (fun hmem => h (List.mem_cons_of_mem c hmem))]
      simp only [List.append_assoc, List.singleton_append]

/-- Header lines are read back in front of what follows them. -/
theorem parse_head_render {lines : List Bytes} (rest : Bytes)
    (h : ∀ line ∈ lines, IsHeaderLine line) :
    parseHead (renderHead lines ++ rest) =
      (parseHead rest).map fun head => (lines ++ head.1, head.2) := by
  induction lines with
  | nil => simp [renderHead]
  | cons line lines ih =>
      obtain ⟨hne, hcr⟩ := h line List.mem_cons_self
      have hrest := ih fun l hl => h l (List.mem_cons_of_mem line hl)
      have hsplit : renderHead (line :: lines) ++ rest =
          line ++ crlf ++ (renderHead lines ++ rest) := by
        simp [renderHead]
      rw [parseHead, hsplit, parse_head_from_line [] hcr, List.nil_append, if_neg hne]
      show (parseHead (renderHead lines ++ rest)).map _ = _
      rw [hrest, Option.map_map]
      rfl

/-- The blank line ends the header. -/
@[simp] theorem parse_head_blank (body : Bytes) : parseHead (crlf ++ body) = some ([], body) := by
  simp [parseHead, crlf, parseHeadFrom]

/-- Reading a header takes at least the blank line. -/
theorem parse_head_from_length {line message body : Bytes} {lines : List Bytes}
    (h : parseHeadFrom line message = some (lines, body)) : body.length + 2 ≤ message.length := by
  fun_induction parseHeadFrom line message generalizing lines with
  | case1 => cases h
  | case2 rest =>
      obtain ⟨-, rfl⟩ := Prod.mk.inj (Option.some.inj h)
      simp
  | case3 line rest hne ih =>
      obtain ⟨head, hhead, heq⟩ := Option.map_eq_some_iff.mp h
      obtain ⟨-, rfl⟩ := Prod.mk.inj heq
      have := ih hhead
      simp only [List.length_cons]
      omega
  | case4 line c rest _ ih =>
      have := ih h
      simp only [List.length_cons]
      omega

/-- A message with header lines, the blank line and a body is read back. -/
theorem parse_head_message {lines : List Bytes} (body : Bytes)
    (h : ∀ line ∈ lines, IsHeaderLine line) :
    parseHead (renderHead lines ++ (crlf ++ body)) = some (lines, body) := by
  rw [parse_head_render _ h, parse_head_blank]
  simp

/-- What a message carries is its body, if the header announces the length of that. -/
theorem carries_message_iff {lines : List Bytes} {body content : Bytes}
    (h : ∀ line ∈ lines, IsHeaderLine line) :
    Carries (renderHead lines ++ (crlf ++ body)) content ↔
      body = content ∧ contentLength lines = some content.length := by
  rw [Carries, parse_head_message body h]
  constructor
  · rintro ⟨found, hfound, hlength⟩
    obtain ⟨rfl, rfl⟩ := Prod.mk.inj (Option.some.inj hfound)
    exact ⟨rfl, hlength⟩
  · rintro ⟨rfl, hlength⟩
    exact ⟨lines, rfl, hlength⟩

/-- What a header announces is in its lines. -/
theorem announces_lines_iff {lines : List Bytes} {n : Nat} (h : ∀ line ∈ lines, IsHeaderLine line) :
    Announces (renderHead lines ++ crlf) n ↔
      announcedLengths lines = if 0 < n then [some n] else [] := by
  have hparse := parse_head_message [] h
  rw [List.append_nil] at hparse
  unfold Announces
  rw [hparse]
  constructor
  · intro hannounces
    obtain ⟨found, hfound, hlengths⟩ := hannounces
    obtain ⟨rfl, -⟩ := Prod.mk.inj (Option.some.inj hfound)
    exact hlengths
  · intro hlengths
    exact ⟨lines, rfl, hlengths⟩

/-- Without the blank line there is no header that announces anything. -/
theorem not_announces_of_no_blank {lines : List Bytes} {n : Nat}
    (h : ∀ line ∈ lines, IsHeaderLine line) : ¬ Announces (renderHead lines) n := by
  intro hannounces
  obtain ⟨found, hfound, -⟩ := hannounces
  have hparse := parse_head_render [] h
  rw [List.append_nil, hfound] at hparse
  cases hparse

/-- Without the blank line, the rest of a message is too short to carry a content of its length:
some of it is read as header. -/
theorem not_carries_of_no_blank {lines : List Bytes} {rest content : Bytes}
    (h : ∀ line ∈ lines, IsHeaderLine line) (hlen : rest.length ≤ content.length) :
    ¬ Carries (renderHead lines ++ rest) content := by
  rintro ⟨found, hfound, -⟩
  rw [parse_head_render rest h] at hfound
  obtain ⟨head, hhead, heq⟩ := Option.map_eq_some_iff.mp hfound
  obtain ⟨-, rfl⟩ := Prod.mk.inj heq
  have := parse_head_from_length hhead
  omega

/-! ## Fields -/

/-- A line without a colon has no field. -/
theorem field_of_no_colon (name : Bytes) {line : Bytes} (h : (58 : UInt8) ∉ line) :
    field name line = none := by
  have hdrop : line.dropWhile (· ≠ 58) = [] :=
    List.dropWhile_eq_nil_iff.mpr (decide_ne_of_not_mem h)
  rw [field, hdrop]

/-- The field of a line that is a label, a colon and a value. -/
theorem field_of_label (name label value : Bytes) (h : (58 : UInt8) ∉ label) :
    field name (label ++ 58 :: value) =
      if label.map lower = name then some (value.dropWhile (· = 32)) else none := by
  have hall : ∀ c ∈ label, decide (c ≠ 58) = true := decide_ne_of_not_mem h
  have htake : (label ++ 58 :: value).takeWhile (· ≠ 58) = label := by
    rw [List.takeWhile_append_of_pos hall, List.takeWhile_cons_of_neg (by decide),
      List.append_nil]
  have hdrop : (label ++ 58 :: value).dropWhile (· ≠ 58) = 58 :: value := by
    rw [List.dropWhile_append_of_pos hall, List.dropWhile_cons_of_neg (by decide)]
  rw [field, htake, hdrop]

/-- The same for a label that is written with its colon. -/
theorem field_of_written (name value : Bytes) {label written : Bytes}
    (hwritten : written = label ++ [58]) (h : (58 : UInt8) ∉ label) :
    field name (written ++ value) =
      if label.map lower = name then some (value.dropWhile (· = 32)) else none := by
  rw [hwritten, List.append_assoc, List.singleton_append, field_of_label name label value h]

/-- A numeral has no leading blanks. -/
theorem drop_blanks_decimal (n : Nat) : (decimal n).dropWhile (· = 32) = decimal n := by
  cases hdigits : decimal n with
  | nil => rfl
  | cons c rest =>
      have hdigit : isdigit c = true :=
        isdigit_of_mem_decimal (n := n) (hdigits ▸ List.mem_cons_self)
      have hne : ¬ (decide (c = 32) = true) := by
        intro heq
        rw [decide_eq_true_iff.mp heq] at hdigit
        exact absurd hdigit (by decide)
      exact List.dropWhile_cons_of_neg hne

/-- The field of a line that announces a length, under any form of the name. -/
theorem field_length_label {label written : Bytes} (hwritten : written = label ++ [58])
    (hcolon : (58 : UInt8) ∉ label) (hname : label.map lower = ascii "content-length") (n : Nat) :
    field (ascii "content-length") (written ++ decimal n) = some (decimal n) := by
  rw [field_of_written _ _ hwritten hcolon, if_pos hname, drop_blanks_decimal]

theorem field_content_length (n : Nat) :
    field (ascii "content-length") (ascii "Content-Length:" ++ decimal n) = some (decimal n) := by
  have hwritten : ascii "Content-Length:" = ascii "Content-Length" ++ [58] := rfl
  exact field_length_label hwritten (by decide) (by decide) n

/-- A numeral contains no carriage return. -/
theorem cr_not_mem_decimal (n : Nat) : (13 : UInt8) ∉ decimal n :=
  fun h => absurd (isdigit_of_mem_decimal h) (by decide)

/-- A label in front of a value makes a header line. -/
theorem IsHeaderLine.of_label {label value : Bytes} (hlabel : IsHeaderLine label)
    (hvalue : (13 : UInt8) ∉ value) : IsHeaderLine (label ++ value) := by
  refine ⟨List.append_ne_nil_of_left_ne_nil hlabel.1 value, ?_⟩
  rw [List.mem_append, not_or]
  exact ⟨hlabel.2, hvalue⟩

/-- The lines of a response header can stand in a header. -/
theorem response_lines_safe {status other : Bytes} {length : Option Nat}
    (hstatus : IsHeaderLine status) (hother : IsHeaderLine other) :
    ∀ line ∈ responseLines status other length, IsHeaderLine line := by
  intro line hline
  simp only [responseLines, List.mem_append, List.mem_cons, List.not_mem_nil, or_false,
    Option.mem_toList, Option.map_eq_some_iff] at hline
  rcases hline with (rfl | rfl) | ⟨n, -, rfl⟩
  · exact hstatus
  · exact hother
  · exact .of_label (by decide) (cr_not_mem_decimal n)

/-- A response header announces what it is told to announce. -/
theorem content_length_response_lines {status label written : Bytes} (value : Bytes)
    (length : Option Nat) (hstatus : (58 : UInt8) ∉ status) (hwritten : written = label ++ [58])
    (hlabel : (58 : UInt8) ∉ label) (hname : label.map lower ≠ ascii "content-length") :
    contentLength (responseLines status (written ++ value) length) = length := by
  have hother : field (ascii "content-length") (written ++ value) = none := by
    rw [field_of_written _ value hwritten hlabel, if_neg hname]
  cases length with
  | none => simp [contentLength, responseLines, field_of_no_colon _ hstatus, hother]
  | some n =>
      simp [contentLength, responseLines, field_of_no_colon _ hstatus, hother,
        field_content_length, parse_decimal]

/-- The lengths that a response header announces: that of its line `label`, if it has one. -/
theorem announced_lengths_eq {status other label : Bytes} (length : Option Nat)
    (hstatus : field (ascii "content-length") status = none)
    (hother : field (ascii "content-length") other = none)
    (hlabel : ∀ n, field (ascii "content-length") (label ++ decimal n) = some (decimal n)) :
    announcedLengths ([status, other] ++ (length.map fun n => label ++ decimal n).toList) =
      (length.map some).toList := by
  have hfields : [status, other].filterMap (field (ascii "content-length")) = [] := by
    rw [List.filterMap_cons_none hstatus, List.filterMap_cons_none hother, List.filterMap_nil]
  rw [announcedLengths, List.filterMap_append, hfields, List.nil_append]
  cases length with
  | none => rfl
  | some n => simp [hlabel n, parse_decimal]

end NetLib
