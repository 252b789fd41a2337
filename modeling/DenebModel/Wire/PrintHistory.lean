import DenebModel.Wire.PendingJob

namespace Deneb

open CString Json BinaryFloat

-- `common/print/json_file.c`
namespace JsonFile

-- What `fread` puts into a buffer of `size` bytes and terminates, as a C string.
def readText (content : CString) (size : Nat) : CString :=
  (content.take (size - 1)).takeWhile (· != 0)

-- `deneb_json_file_read_array_or_empty`, where there is no content if the file cannot be opened. The
-- end of the file is only noticed by a read that gets less than it asked for.
def readArrayOrEmpty (content : Option CString) (size : Nat) : CString :=
  match content with
  | none         => fit size "[]"
  | some content =>
    let text := readText content size
    let start := text.dropWhile Json.isSpace
    if size - 1 ≤ content.length ∨ start.head? ≠ some 91 ∨ (strrchr start 93).isNone then
      fit size "[]"
    else text

end JsonFile

-- `common/print/print_history.c`, where a text that is NULL counts as empty
structure PrintHistoryEntry where
  name        : CString     := []
  uuid        : CString     := []
  source      : CString     := []
  state       : CString     := []
  timeTotal   : Int         := 0
  timeElapsed : Int         := 0
  progress    : BinaryFloat := .zero
  startedAt   : Int         := 0
  finishedAt  : Int         := 0

namespace PrintHistory

-- `format_utc_time` into a buffer of 32 bytes. `gmtime` fails for a year that does not fit an `int`.
def formatUtcTime (unixTime : Int) : CString :=
  if unixTime ≤ 0 then []
  else
    let time := unixTime.toNat
    let (year, month, day) := PendingJob.civil (time / 86400)
    let two := fun n => padLeft 2 (digits n)
    if 2 ^ 31 + 1900 ≤ year then []
    else
      fit 32 <| padLeft 4 (digits year) ++ "-" ++ two month ++ "-" ++ two day ++ "T" ++
        two (time / 3600 % 24) ++ ":" ++ two (time / 60 % 60) ++ ":" ++ two (time % 60) ++ "Z"

def entryText (entry : PrintHistoryEntry) : CString :=
  "\x7b\"name\":\"" ++ escapeString entry.name 256 ++
    "\",\"uuid\":\"" ++ escapeString entry.uuid 128 ++
    "\",\"source\":\"" ++ escapeString entry.source 128 ++
    "\",\"state\":\"" ++ escapeString entry.state 64 ++
    "\",\"time_total\":" ++ formatD entry.timeTotal ++
    ",\"time_elapsed\":" ++ formatD entry.timeElapsed ++
    ",\"progress\":" ++ formatF 1 entry.progress ++
    ",\"started_at\":\"" ++ formatUtcTime entry.startedAt ++
    "\",\"finished_at\":\"" ++ formatUtcTime entry.finishedAt ++ "\"\x7d"

-- `build_entry_json`
def buildEntryJson (entry : PrintHistoryEntry) (size : Nat) : Option CString :=
  if (entryText entry).length < size then some (entryText entry) else none

-- What the calls to the file system return.
structure AppendResults where
  read    : Bool
  opened  : Bool
  closed  : Bool
  renamed : Bool

-- The white space at the end of a text, but not its first byte.
def trimEnd : CString → CString
  | []     => []
  | c :: s => c :: (s.reverse.dropWhile Json.isSpace).reverse

-- The new content of the history.
def appended (history entry : CString) : CString :=
  let single : CString := "[\n" ++ entry ++ "\n]\n"
  if history.head? ≠ some 91 then single
  else
    match strrchr history 93 with
    | none            => single
    | some (front, _) => if front.isEmpty then single else trimEnd front ++ ",\n" ++ entry ++ "\n]\n"

-- `deneb_print_history_append_entry`: the new content of the file, if it succeeds.
def appendEntry (path : CString) (content : Option CString) (entry : PrintHistoryEntry)
    (results : AppendResults) : Option CString :=
  if path.isEmpty then none
  else
    match buildEntryJson entry 1024 with
    | none      => none
    | some json =>
      if 320 ≤ path.length + 4 then none
      else
        let history := if results.read then (content.map (JsonFile.readText · 65536)).getD [] else []
        if results.opened ∧ results.closed ∧ results.renamed then some (appended history json)
        else none

end PrintHistory

end Deneb
