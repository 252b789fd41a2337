import DenebModel.Wire.CommandFormat
import DenebModel.Objects.MotionPolicy

-- `printsvc/src/command.c`
namespace Deneb.Command

open CString Json

inductive Kind
  | unknown
  | gcode
  | macroName
  | job
  | abort
  | pause
  | resume
  deriving DecidableEq, Repr

end Deneb.Command

-- `deneb_command_t`
structure Deneb.Command where
  kind       : Command.Kind
  verb       : CString
  payload    : CString
  file       : CString          := []
  source     : CString          := []
  uuid       : CString          := []
  cloudJobId : CString          := []
  macroText  : CString          := []
  bedTarget  : BinaryFloat      := .zero
  headTarget : BinaryFloat      := .zero
  gcode      : List CString     := []
  deriving DecidableEq

namespace Deneb.Command

open CString Json

-- `command_type_from_verb`
def kindFromVerb (verb : CString) : Kind :=
  if verb = "GCODE" then .gcode
  else if verb = "MACRO" then .macroName
  else if verb = "JOB" then .job
  else if verb = "ABORT" then .abort
  else if verb = "PAUSE" then .pause
  else if verb = "RESUME" then .resume
  else .unknown

-- The text up to the next quote that has no backslash in front of it, and what is behind the quote.
-- The flag says whether the byte in front of the text is a backslash.
def scanLine : Bool → CString → Option (CString × CString)
  | _, []              => none
  | escaped, c :: text =>
    if c = 34 ∧ !escaped then some ([], text)
    else (scanLine (c == 92) text).map fun (line, rest) => (c :: line, rest)

-- The loop of `parse_gcode_array` with room for that many more lines.
def gcodeLoop : Nat → CString → Option (List CString)
  | 0, _        => some []
  | room + 1, p =>
    match strchr p 34 with
    | none   => some []
    | some p =>
      match scanLine false (p.drop 1) with
      | none              => none
      | some (line, rest) => (gcodeLoop room rest).map (fit 256 line :: ·)

-- `parse_gcode_array`
def parseGcodeArray (payload : CString) : Option (List CString) :=
  (gcodeLoop maxCommands payload).filter (!·.isEmpty)

-- `deneb_command_extract_json_string` into a buffer that is empty.
def extractJsonString (json key : CString) (size : Nat) : CString :=
  (getValue json key size).2

-- The file name is looked for under a second key in the buffer of the first attempt. A value that
-- lacks its closing quote is not terminated there either.
def extractFile (json : CString) : CString :=
  let (rc, old) := getValue json "file" 256
  if rc = 0 then old
  else
    let (rc, new) := getValue json "path" 256
    if rc = 0 ∨ new.isEmpty then new else new ++ old.drop new.length

-- A temperature with the key that is tried second.
def extractTarget (json key other : CString) : BinaryFloat :=
  let target := getFloatValue json key .zero
  if BinaryFloat.le target .zero then getFloatValue json other target else target

-- `deneb_command_parse`
def parse (frame : CString) : Option Command :=
  let verb := frame.takeWhile (· != 60)
  match frame.dropWhile (· != 60) with
  | []           => none
  | _ :: payload =>
    if verb.isEmpty ∨ 16 ≤ verb.length then none
    else
      let payload := fit 512 payload
      let kind := kindFromVerb verb
      match kind with
      | .job =>
        some {
          kind, verb, payload
          file       := extractFile payload
          source     := extractJsonString payload "source" 32
          uuid       := extractJsonString payload "uuid" 64
          cloudJobId := extractJsonString payload "cloud_job_id" 96
          bedTarget  := extractTarget payload "bedTset" "bed_temperature"
          headTarget := extractTarget payload "headTset" "nozzle_temperature"
        }
      | .macroName =>
        some { kind, verb, payload, macroText := extractJsonString payload "macro" 128 }
      | .gcode => (parseGcodeArray payload).map fun gcode => { kind, verb, payload, gcode }
      | _      => some { kind, verb, payload }

end Deneb.Command
