import DenebModel.Wire.JsonField

-- `common/print/command_format.c`
namespace Deneb.Command

open CString Json

-- A text is appended to what a buffer of `size` bytes holds, if there is room for the terminator.
def append (size : Nat) (text out : CString) : Option CString :=
  if out.length < size ∧ text.length < size - out.length then some (out ++ text) else none

def appendEscaped (size : Nat) : CString → CString → Option CString
  | [], out        => some out
  | c :: text, out =>
    if c = 34 ∨ c = 92 then append size [92, c] out >>= appendEscaped size text
    else if 32 ≤ c then append size [c] out >>= appendEscaped size text
    else appendEscaped size text out

-- The loop over the lines of `deneb_command_format_gcode` from the line with that index on.
def appendLines (size : Nat) : Nat → List CString → CString → Option CString
  | _, [], out            => some out
  | i, line :: lines, out => do
    let out ← if 0 < i then append size "," out else some out
    let out ← append size "\"" out
    let out ← appendEscaped size line out
    let out ← append size "\"" out
    appendLines size (i + 1) lines out

-- `deneb_command_format_gcode`
def formatGcode (lines : List CString) (size : Nat) : Option CString :=
  if lines.isEmpty ∨ size = 0 then none
  else append size "GCODE<[" [] >>= appendLines size 0 lines >>= append size "]"

-- `deneb_command_format_macro`
def formatMacro (m : CString) (size : Nat) : Option CString :=
  if m.isEmpty ∨ size = 0 then none
  else
    append size "MACRO<\x7b\"macro\":\"" [] >>= appendEscaped size m >>= append size "\"\x7d"

-- An optional text of a JOB frame.
def appendField (size : Nat) (key value out : CString) : Option CString :=
  if value.isEmpty then some out
  else
    append size (",\"" ++ key ++ "\":\"") out >>= appendEscaped size value >>= append size "\""

-- An optional temperature of a JOB frame.
def appendTarget (size : Nat) (key : CString) (target : BinaryFloat) (out : CString) :
    Option CString :=
  if BinaryFloat.lt .zero target then
    append size (fit 96 (",\"" ++ key ++ "\":" ++ BinaryFloat.formatF 1 target)) out
  else some out

-- `deneb_command_format_job`
def formatJob (path source uuid cloudJobId : CString) (bedTarget headTarget : BinaryFloat)
    (size : Nat) : Option CString :=
  if path.isEmpty ∨ size = 0 then none
  else do
    let out ← append size "JOB<\x7b\"file\":\"" [] >>= appendEscaped size path >>= append size "\""
    let out ← appendField size "source" source out
    let out ← appendField size "uuid" uuid out
    let out ← appendField size "cloud_job_id" cloudJobId out
    let out ← appendTarget size "bedTset" bedTarget out
    let out ← appendTarget size "headTset" headTarget out
    append size "\x7d" out

end Deneb.Command
