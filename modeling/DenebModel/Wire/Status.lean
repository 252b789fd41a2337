import DenebModel.Objects.Status
import DenebModel.Wire.JsonField

-- `printsvc/src/status.c`
namespace Deneb

open CString BinaryFloat Json

namespace PrintControl

-- `deneb_print_control_phase_name`
def phaseName : PrintPhase → CString
  | .preparing => "pre_print"
  | .printing  => "printing"
  | .pausing   => "pausing"
  | .paused    => "paused"
  | .aborting  => "aborting"
  | .complete  => "finished"
  | .error     => "error"
  | .idle      => "idle"

-- `deneb_print_control_phase_stop_allowed`
def phaseStopAllowed (phase : PrintPhase) : Bool :=
  phase == .preparing || phase == .printing || phase == .pausing || phase == .paused

end PrintControl

namespace Status

-- `deneb_status_state_name`
def stateName : PrintState → CString
  | .preparing => "PREPARE"
  | .printing  => "Printing"
  | .pausing   => "Pausing"
  | .paused    => "Paused"
  | .aborting  => "Aborting"
  | .complete  => "Complete"
  | .error     => "Error"
  | .idle      => "Idle"

-- `safe_file` and `safe_value`
def safeValue (value : CString) : CString :=
  if value.isEmpty then "none" else value

-- What stands in for a missing request.
def safeReq (status : Status) : CString :=
  if status.req.isEmpty then stateName status.state else status.req

-- The conversions of the format, each with the text that goes with it.
def quotedValue (value : CString) : CString :=
  34 :: value ++ [34]

def boolValue (value : Bool) : CString :=
  if value then "true" else "false"

def formatU (n : UInt32) : CString :=
  digits n.toNat

-- The keys of the payload with the texts of their values, in the order of the format.
def reportFields (status : Status) : List (CString × CString) :=
  let file := quotedValue (escapeString (safeValue status.file) 256)
  [("file",              file),
   ("name",              file),
   ("headTset",          formatF 1 status.headTSet),
   ("headTcur",          formatF 1 status.headTCur),
   ("bedTset",           formatF 1 status.bedTSet),
   ("bedTcur",           formatF 1 status.bedTCur),
   ("topcapIsPresent",   boolValue status.topcapPresent),
   ("topcapTemperature", formatF 1 status.topcapTCur),
   ("X",                 formatF 3 status.x),
   ("Y",                 formatF 3 status.y),
   ("Z",                 formatF 3 status.z),
   ("E",                 formatF 3 status.e),
   ("homeDistanceX",     formatF 3 status.homeX),
   ("homeDistanceY",     formatF 3 status.homeY),
   ("homeDistanceZ",     formatF 3 status.homeZ),
   ("homeDistanceValid", boolValue status.homeDistanceValid)]

-- No code sets the two finish counters to anything but 0.
def counterFields (status : Status) : List (CString × CString) :=
  [("flowInflight",           formatU status.flowInflight),
   ("flowSent",               formatU status.flowSent),
   ("flowAck",                formatU status.flowAck),
   ("flowResend",             formatU status.flowResend),
   ("flowReject",             formatU status.flowReject),
   ("flowLastResponse",       quotedValue (escapeString status.flowLastResponse 192)),
   ("jobQueueDepth",          formatU status.jobQueueDepth),
   ("jobLineNumber",          formatU status.jobLineNumber),
   ("commandLatencyMs",       formatU status.commandLatencyMs),
   ("plannerStarvationCount", formatU status.plannerStarvationCount),
   ("positionReportCount",    formatU status.positionReportCount),
   ("finishDrainTicks",       formatU 0),
   ("finishStableReports",    formatU 0)]

def phaseFields (status : Status) : List (CString × CString) :=
  let phase := PrintControl.phaseFromState status.state
  [("denebState",         quotedValue (PrintControl.phaseName phase)),
   ("denebActive",        boolValue status.hasActivePrint),
   ("denebStopAllowed",   boolValue (PrintControl.phaseStopAllowed phase)),
   ("denebErrorKey",      quotedValue status.error.key),
   ("denebErrorCategory", quotedValue status.error.category),
   ("denebErrorDetail",   quotedValue (escapeString status.error.detail 256))]

def jobFields (status : Status) : List (CString × CString) :=
  [("firmware",        quotedValue (escapeString (safeValue status.firmware) 128)),
   ("machineType",     quotedValue (escapeString (safeValue status.machineType) 48)),
   ("pcbId",           formatD status.pcbId),
   ("pcbIdValid",      boolValue status.pcbIdValid),
   ("uuid",            quotedValue (escapeString status.uuid 128)),
   ("source",          quotedValue (escapeString status.source 80)),
   ("cloud_job_id",    quotedValue (escapeString status.cloudJobId 192)),
   ("Ttot",            formatD status.timeTotal),
   ("Tleft",           formatD status.timeLeft),
   ("req",             quotedValue (escapeString status.safeReq 80)),
   ("received_faults", if status.fault then "[1]" else "[]")]

def fields (status : Status) : List (CString × CString) :=
  status.reportFields ++ status.counterFields ++ status.phaseFields ++ status.jobFields

def member (field : CString × CString) : CString :=
  34 :: field.1 ++ [34, 58] ++ field.2

def payload (status : Status) : CString :=
  123 :: List.intercalate [44] (status.fields.map member) ++ [125]

-- `snprintf` into a buffer of `size` bytes, where a text that does not fit is an error.
def snprintf (size : Nat) (text : CString) : Option CString :=
  if text.length < size then some text else none

-- `deneb_status_serialize_payload`
def serializePayload (status : Status) (size : Nat) : Option CString :=
  snprintf size status.payload

-- `deneb_status_serialize_frame`
def serializeFrame (status : Status) (size : Nat) : Option CString := do
  let payload ← status.serializePayload 1536
  snprintf size ("10001<" ++ payload)

end Status

end Deneb
