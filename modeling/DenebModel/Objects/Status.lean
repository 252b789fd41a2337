import DenebModel.Primitives.BinaryFloat

namespace Deneb

open CString

inductive ErrorCode
  | none
  | marlinFault
  | thermal
  | endstop
  | serial
  | storage
  | command
  | unknown
  deriving DecidableEq

namespace ErrorCode

-- `deneb_error_code_key`
def key : ErrorCode → CString
  | marlinFault => "marlin_fault"
  | thermal     => "thermal_fault"
  | endstop     => "endstop_fault"
  | serial      => "serial_fault"
  | storage     => "storage_fault"
  | command     => "command_fault"
  | unknown     => "unknown_fault"
  | none        => "none"

-- `deneb_error_code_category`
def category : ErrorCode → CString
  | thermal     => "thermal"
  | endstop     => "motion"
  | serial      => "serial"
  | storage     => "storage"
  | command     => "command"
  | marlinFault => "firmware"
  | unknown     => "unknown"
  | none        => "none"

end ErrorCode

structure Error where
  code     : ErrorCode := .none
  key      : CString   := ErrorCode.none.key
  category : CString   := ErrorCode.none.category
  detail   : CString   := []
  deriving DecidableEq

namespace Error

def make (code : ErrorCode) (detail : CString) : Error where
  code     := code
  key      := code.key
  category := code.category
  detail   := fit 128 detail

-- The loop of `contains_ci`; no needle of its callers is empty.
def containsCi : CString → CString → Bool
  | [], _            => false
  | c :: cs, needle =>
    startsWith ((c :: cs).map toLower) (needle.map toLower) || containsCi cs needle

def lineIsRecoverableSerial (line : CString) : Bool :=
  !line.isEmpty &&
    (containsCi line "line number" ||
     containsCi line "checksum" ||
     containsCi line "resend" ||
     containsCi line "protoerror:sequence number is unexpected" ||
     containsCi line "expected line" ||
     containsCi line "last line number")

def fromMarlinLine (line : CString) : Error :=
  if line.isEmpty then make .none []
  else if containsCi line "thermal" || containsCi line "temp" || containsCi line "heater" ||
      containsCi line "mintemp" || containsCi line "maxtemp" then make .thermal line
  else if containsCi line "endstop" || containsCi line "homing failed" ||
      containsCi line "home failed" then make .endstop line
  else if containsCi line "serial" || lineIsRecoverableSerial line then make .serial line
  else if containsCi line "unknown command" || containsCi line "bad command" then
    make .command line
  else if containsCi line "error:" || containsCi line "fault" || containsCi line "halted" ||
      containsCi line "!!" then make .marlinFault line
  else make .unknown line

end Error

inductive PrintState
  | idle
  | preparing
  | printing
  | pausing
  | paused
  | aborting
  | complete
  | error
  deriving DecidableEq

inductive PrintPhase
  | idle
  | preparing
  | printing
  | pausing
  | paused
  | aborting
  | complete
  | error
  deriving DecidableEq

namespace PrintControl

def phaseFromState : PrintState → PrintPhase
  | .preparing => .preparing
  | .printing  => .printing
  | .pausing   => .pausing
  | .paused    => .paused
  | .aborting  => .aborting
  | .complete  => .complete
  | .error     => .error
  | .idle      => .idle

def stateForPhase : PrintPhase → PrintState
  | .preparing => .preparing
  | .printing  => .printing
  | .pausing   => .pausing
  | .paused    => .paused
  | .aborting  => .aborting
  | .complete  => .complete
  | .error     => .error
  | .idle      => .idle

def reqForPhase : PrintPhase → CString
  | .preparing => "PREPARE"
  | .printing  => "JOB"
  | .pausing   => "Pausing"
  | .paused    => "Paused"
  | .aborting  => "ABORT"
  | .complete  => "Complete"
  | .error     => "Error"
  | .idle      => "Idle"

def phaseActive (phase : PrintPhase) : Bool :=
  phase == .preparing || phase == .printing || phase == .pausing || phase == .paused ||
  phase == .aborting

end PrintControl

structure Status where
  state                  : PrintState  := .idle
  file                   : CString     := "none"
  source                 : CString     := []
  uuid                   : CString     := []
  cloudJobId             : CString     := []
  req                    : CString     := []
  firmware               : CString     := []
  machineType            : CString     := []
  pcbId                  : Int         := 0
  pcbIdValid             : Bool        := false
  headTSet               : BinaryFloat := .zero
  headTCur               : BinaryFloat := .zero
  bedTSet                : BinaryFloat := .zero
  bedTCur                : BinaryFloat := .zero
  topcapTCur             : BinaryFloat := .zero
  topcapPresent          : Bool        := false
  x                      : BinaryFloat := .zero
  y                      : BinaryFloat := .zero
  z                      : BinaryFloat := .zero
  e                      : BinaryFloat := .zero
  r0                     : BinaryFloat := .zero
  homeX                  : BinaryFloat := .zero
  homeY                  : BinaryFloat := .zero
  homeZ                  : BinaryFloat := .zero
  homeDistanceValid      : Bool        := false
  flowInflight           : UInt32      := 0
  flowSent               : UInt32      := 0
  flowAck                : UInt32      := 0
  flowResend             : UInt32      := 0
  flowReject             : UInt32      := 0
  flowLastResponse       : CString     := []
  jobQueueDepth          : UInt32      := 0
  jobLineNumber          : UInt32      := 0
  commandLatencyMs       : UInt32      := 0
  plannerStarvationCount : UInt32      := 0
  positionReportCount    : UInt32      := 0
  timeTotal              : Int         := 0
  timeLeft               : Int         := 0
  fault                  : Bool        := false
  error                  : Error       := {}
  deriving DecidableEq

namespace Status

def hasActivePrint (status : Status) : Bool :=
  PrintControl.phaseActive (PrintControl.phaseFromState status.state)

-- `set_phase`, which the source repeats in each file that uses it.
def setPhase (status : Status) (phase : PrintPhase) : Status :=
  { status with
    state := PrintControl.stateForPhase phase
    req   := PrintControl.reqForPhase phase }

end Status

namespace JobLifecycle

def start (status : Status) (file source uuid cloudJobId : CString)
    (bedTarget headTarget : BinaryFloat) : Status :=
  { status.setPhase .preparing with
    fault      := false
    error      := {}
    file       := fit 128 (if file.isEmpty then ("none" : CString) else file)
    source     := fit 32 (if source.isEmpty then ("USB" : CString) else source)
    uuid       := fit 64 uuid
    cloudJobId := fit 96 cloudJobId
    bedTSet    := if BinaryFloat.lt .zero bedTarget then bedTarget else status.bedTSet
    headTSet   := if BinaryFloat.lt .zero headTarget then headTarget else status.headTSet
    timeTotal  := 0
    timeLeft   := 0 }

def streaming (status : Status) : Status :=
  status.setPhase .printing

def complete (status : Status) : Status :=
  { status.setPhase .complete with
    file       := "none"
    source     := []
    uuid       := []
    cloudJobId := []
    bedTSet    := .zero
    headTSet   := .zero }

def aborting (status : Status) : Status :=
  status.setPhase .aborting

def abort (status : Status) : Status :=
  { status.setPhase .idle with
    fault      := false
    error      := {}
    file       := "none"
    source     := []
    uuid       := []
    cloudJobId := []
    bedTSet    := .zero
    headTSet   := .zero
    timeTotal  := 0
    timeLeft   := 0 }

def error (status : Status) (error : Error) : Status :=
  { status.setPhase .error with
    fault := true
    error := error }

end JobLifecycle

namespace PauseResume

-- `deneb_pause_resume_pause`
def pause (status : Status) : Int × Status :=
  match status.state with
  | .preparing | .printing | .pausing        => (1, status.setPhase .paused)
  | .paused                                  => (0, status.setPhase .paused)
  | .idle | .aborting | .complete | .error => (-1, status)

-- `deneb_pause_resume_resume`
def resume (status : Status) (heaterWaitActive : Bool) : Int × Status :=
  if status.state ≠ .paused then (-1, status)
  else (1, status.setPhase (if heaterWaitActive then .preparing else .printing))

end PauseResume
end Deneb
