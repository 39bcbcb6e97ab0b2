import UnixNet.EpollWeb.SendData
import UnixNet.EventWb.Requests
import UnixNet.Lib.Path
import UnixNet.LibeventWeb.Requests

/-!
# Which request paths stay below the document root

Each server changes into its document root when it starts, and makes a relative path out of the
path of a request: two by a dot in front of it, the third by decoding it and dropping its first
byte. None of them looks for dot-dot segments. `path_confined_iff` says for each server from which
request paths it makes a path that stays below the document root.
-/

namespace UnixNet

open NetLib UnixNet.Pub

/-- What follows the first byte of a decoded request path. -/
def decodedRest (path : Bytes) : Bytes :=
  cstr ((strdecode path).drop 1)

/-- The two paths that are replaced by `./` stay in the document root with or without that. -/
theorem confined_str_path_iff (path : Bytes) :
    Confined 47 46 (EventWb.strPath path) ↔ Confined 47 46 (decodedRest path) := by
  unfold EventWb.strPath decodedRest
  by_cases hroot : cstr (strdecode path) = ascii "/"
  · rw [if_pos (.inl hroot), cstr_drop_one hroot]
    decide
  · by_cases hdot : cstr (strdecode path) = ascii "/."
    · rw [if_pos (.inr hdot), cstr_drop_one hdot]
      decide
    · rw [if_neg (not_or.mpr ⟨hroot, hdot⟩)]

/-- Which request paths stay below the document root. The path that the epoll server hands to
`stat` and `open` is confined if and only if in the first 1022 bytes of the request path the first
segment is no dot segment, and among no number of segments behind it are there more dot-dot
segments than names, with one more name if the first segment is not empty. The same holds of the
libevent server with the first 254 bytes. For the libevent test server the decoded request path
without its first byte must not start with a slash, and among no number of its leading segments may
there be more dot-dot segments than names. -/
theorem path_confined_iff (path : Bytes) :
    (Confined 47 46 (EpollWeb.repath path) ↔ DotConfined 47 46 (path.take 1022)) ∧
      (Confined 47 46 (LibeventWeb.repath path) ↔ DotConfined 47 46 (path.take 254)) ∧
      (Confined 47 46 (EventWb.strPath path) ↔
        (decodedRest path).head? ≠ some 47 ∧ Balanced 46 0 ((decodedRest path).splitOn 47)) := by
  refine ⟨?_, ?_, ?_⟩
  · show Confined 47 46 (46 :: path.take 1022) ↔ _
    exact confined_dot_iff (by decide) (path.take 1022)
  · show Confined 47 46 (46 :: path.take 254) ↔ _
    exact confined_dot_iff (by decide) (path.take 254)
  · rw [confined_str_path_iff, confined_iff]

/-- The path `/../x` leads all three servers out of their document root. -/
theorem path_not_confined :
    ¬ Confined 47 46 (EpollWeb.repath (ascii "/../x")) ∧
      ¬ Confined 47 46 (LibeventWeb.repath (ascii "/../x")) ∧
      ¬ Confined 47 46 (EventWb.strPath (ascii "/../x")) := by
  decide

end UnixNet
