import UnixNet.Lib.Text

/-!
# `get_mime_type`

The content type that goes with a file name: the text from the last dot on is looked up among
the suffixes the function knows.
-/

namespace UnixNet.Pub

open NetLib

/-- `strrchr(s, c)`: the part of `s` from the last `c` on. -/
def strrchr (c : UInt8) : Bytes → Option Bytes
  | [] => none
  | b :: rest =>
      match strrchr c rest with
      | some found => some found
      | none => if b = c then some (b :: rest) else none

/-- The suffixes of `get_mime_type` with their types, in the order of its comparisons. -/
def mimeTypes : List (Bytes × Bytes) :=
  [(ascii ".html", ascii "text/html; charset=utf-8"),
    (ascii ".htm", ascii "text/html; charset=utf-8"),
    (ascii ".jpg", ascii "image/jpeg"),
    (ascii ".jpeg", ascii "image/jpeg"),
    (ascii ".gif", ascii "image/gif"),
    (ascii ".png", ascii "image/png"),
    (ascii ".css", ascii "text/css"),
    (ascii ".au", ascii "audio/basic"),
    (ascii ".wav", ascii "audio/wav"),
    (ascii ".avi", ascii "video/x-msvideo"),
    (ascii ".mov", ascii "video/quicktime"),
    (ascii ".qt", ascii "video/quicktime"),
    (ascii ".mpeg", ascii "video/mpeg"),
    (ascii ".mpe", ascii "video/mpeg"),
    (ascii ".vrml", ascii "model/vrml"),
    (ascii ".wrl", ascii "model/vrml"),
    (ascii ".midi", ascii "audio/midi"),
    (ascii ".mid", ascii "audio/midi"),
    (ascii ".mp3", ascii "audio/mpeg"),
    (ascii ".ogg", ascii "application/ogg"),
    (ascii ".pac", ascii "application/x-ns-proxy-autoconfig")]

/-- The type of a name without a known suffix. -/
def defaultMimeType : Bytes :=
  ascii "text/plain; charset=utf-8"

/-- `get_mime_type(name)` -/
def getMimeType (name : Bytes) : Bytes :=
  match strrchr 46 name with
  | none => defaultMimeType
  | some dot => (mimeTypes.lookup dot).getD defaultMimeType

example : getMimeType (ascii "/index.tar.htm") = ascii "text/html; charset=utf-8" := by decide

/-- The last `c` of a joined text is in its second part, if it has one. -/
theorem strrchr_append (c : UInt8) (s t : Bytes) :
    strrchr c (s ++ t) = (strrchr c t).or ((strrchr c s).map (· ++ t)) := by
  induction s with
  | nil => exact (Option.or_none).symm
  | cons b s ih =>
      rw [List.cons_append, strrchr, ih, strrchr]
      cases strrchr c t with
      | some found => rfl
      | none =>
          cases strrchr c s with
          | some found => rfl
          | none =>
              show (if b = c then some (b :: (s ++ t)) else none) = _
              split <;> rfl

/-- No suffix in the table contains a slash. -/
theorem slash_not_mem_suffix : ∀ entry ∈ mimeTypes, (47 : UInt8) ∉ entry.1 := by
  decide +kernel

/-- A text with a slash in it is not in the table. -/
theorem lookup_slash {dot : Bytes} (h : (47 : UInt8) ∈ dot) : mimeTypes.lookup dot = none := by
  rw [List.lookup_eq_none_iff]
  intro entry hentry
  have hne : dot ≠ entry.1 := by
    rintro rfl
    exact slash_not_mem_suffix entry hentry h
  exact bne_iff_ne.mpr hne

/-- The directory does not matter: a path has the content type of what stands behind any slash in
it, so that of its base name. Where the base name has no dot, the last dot of the path may be in the
directory; from there on the text has a slash in it, and is no suffix of the table. -/
theorem mime_type_base_name (d b : Bytes) : getMimeType (d ++ 47 :: b) = getMimeType b := by
  have hslash : strrchr 46 (47 :: b) = strrchr 46 b := by
    rw [strrchr]
    cases strrchr 46 b with
    | none => rfl
    | some found => rfl
  unfold getMimeType
  rw [strrchr_append, hslash]
  cases strrchr 46 b with
  | some dot => rfl
  | none =>
      cases strrchr 46 d with
      | none => rfl
      | some dot =>
          have hnone : mimeTypes.lookup (dot ++ 47 :: b) = none :=
            lookup_slash (List.mem_append_right dot List.mem_cons_self)
          show (mimeTypes.lookup (dot ++ 47 :: b)).getD defaultMimeType = defaultMimeType
          rw [hnone]
          rfl

example : getMimeType (ascii "/site.html/readme") = getMimeType (ascii "readme") := by decide

/-- A property of all types in the table and of the default holds of every type returned. -/
theorem getMimeType_induction {P : Bytes → Prop} (hdefault : P defaultMimeType)
    (htable : ∀ entry ∈ mimeTypes, P entry.2) (name : Bytes) : P (getMimeType name) := by
  unfold getMimeType
  split
  · exact hdefault
  · next dot _ =>
      cases hfound : mimeTypes.lookup dot with
      | none => exact hdefault
      | some type =>
          obtain ⟨front, back, hsplit, -⟩ := List.lookup_eq_some_iff.mp hfound
          exact htable (dot, type) (by simp [hsplit])

/-- A content type is nonempty, short, and contains no control character, so that it can stand in
a header line. -/
theorem mime_type_header_safe (name : Bytes) :
    getMimeType name ≠ [] ∧ (getMimeType name).length ≤ 40 ∧
      ∀ c ∈ getMimeType name, 32 ≤ c :=
  getMimeType_induction (P := fun type => type ≠ [] ∧ type.length ≤ 40 ∧ ∀ c ∈ type, 32 ≤ c)
    (by decide +kernel) (by decide +kernel) name

/-- A content type contains no carriage return. -/
theorem cr_not_mem_mime_type (name : Bytes) : (13 : UInt8) ∉ getMimeType name :=
  fun h => absurd ((mime_type_header_safe name).2.2 13 h) (by decide)

end UnixNet.Pub
