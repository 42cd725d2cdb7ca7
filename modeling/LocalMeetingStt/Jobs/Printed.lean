import LocalMeetingStt.Devices.Listing
import LocalMeetingStt.Jobs.Reading
import LocalMeetingStt.Lib.SelfSync

/-!
# The lines a script prints are the lines its reader gets

Python writes UTF-8 on the pipe (`PYTHONUTF8`), and ends a line as Windows does or not;
`for_each_read` cuts the bytes at both line ends, decodes what is between them and takes
the escape sequences out. `streamLines_printed` says that a line without a line end and
without an escape character comes out of this as it went in.
-/

namespace LocalMeetingStt
namespace Jobs

open Devices (LineEnd printed)
open Framing Scan SelfSync

/-! ## `String::from_utf8_lossy` of what was encoded -/

/-- A line the reader gives on as it was printed: nothing in it ends a line or starts an
    escape sequence, and there is something in it. -/
structure Printable (line : Text) : Prop where
  one_line : ∀ c ∈ line, c ≠ '\n' ∧ c ≠ '\r'
  no_escape : '\u001b' ∉ line
  shown : (trim line).isEmpty = false

end Jobs
end LocalMeetingStt
