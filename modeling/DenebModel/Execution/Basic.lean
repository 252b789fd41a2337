import DenebModel.Execution.GcodeControl
import DenebModel.Execution.JobControl
import DenebModel.Execution.JobStreamer
import DenebModel.Execution.MotionRuntime
import DenebModel.Execution.PauseResumeControl

namespace Deneb.Service

open CString BinaryFloat

-- `DENEB_PRINTSVC_TEMP_POLL_TICKS`, `DENEB_PRINTSVC_FIRMWARE_PROBE_*`
def tempPollTicks : UInt32 := 4
def firmwareProbeIntervalTicks : UInt32 := 20
def firmwareProbeMaxAttempts : UInt32 := 6

-- `send_status_probe`, with the probes it sends.
def sendStatusProbe : List CString → Service → Int × Service
  | [], s                => (0, s)
  | command :: probes, s =>
    if !s.flow.canSend then (0, s)
    else
      let (rc, s) := s.send .statusProbe command
      if rc = 0 then sendStatusProbe probes s
      else if rc = MotionSender.flowFull then (0, s)
      else (rc, s)

def pollStartupProbe (s : Service) (rc : Int) : Int × Service :=
  if s.serialReady && s.startupStatusProbePending && s.flow.inflight == 0 then
    let (probeRc, s) := sendStatusProbe ["M115", "M105", "M114"] s
    let s := if probeRc = 0 then { s with
      startupStatusProbePending := false
      temperaturePollTicks      := 0
      firmwareProbeTicks        := 0
      firmwareProbeAttempts     := s.firmwareProbeAttempts + 1 } else s
    (if probeRc ≠ 0 && rc = 0 then probeRc else rc, s)
  else (rc, s)

def sendVersionProbe (s : Service) (rc : Int) : Int × Service :=
  let (versionRc, s) := s.send .statusProbe "M115"
  let s := if versionRc = 0 then { s with
    firmwareProbeTicks    := 0
    firmwareProbeAttempts := s.firmwareProbeAttempts + 1 } else s
  (if versionRc ≠ 0 && rc = 0 then versionRc else rc, s)

def pollFirmwareProbe (s : Service) (rc : Int) : Int × Service :=
  if s.serialReady && s.firmwareProbePending && !s.startupStatusProbePending && !s.jobActive &&
      !s.abortCleanup.pending && !s.finishCleanup.pending && s.flow.inflight == 0 then
    if !s.status.firmware.isEmpty || firmwareProbeMaxAttempts ≤ s.firmwareProbeAttempts then
      (rc, { s with firmwareProbePending := false })
    else
      let s := { s with firmwareProbeTicks := s.firmwareProbeTicks + 1 }
      if firmwareProbeIntervalTicks ≤ s.firmwareProbeTicks then s.sendVersionProbe rc else (rc, s)
  else (rc, s)

def pollTemperatures (s : Service) (rc : Int) : Int × Service :=
  if s.serialReady && !s.startupStatusProbePending && s.flow.inflight == 0 then
    let s := { s with temperaturePollTicks := s.temperaturePollTicks + 1 }
    if tempPollTicks ≤ s.temperaturePollTicks then
      let (pollRc, s) := sendStatusProbe ["M105", "M114"] s
      (if pollRc ≠ 0 && rc = 0 then pollRc else rc, { s with temperaturePollTicks := 0 })
    else (rc, s)
  else (rc, s)

-- The probes at the end of `deneb_print_service_poll_motion`.
def pollProbes (s : Service) (rc : Int) : Int × Service :=
  let s := if !s.status.firmware.isEmpty then { s with firmwareProbePending := false } else s
  let (rc, s) := s.pollStartupProbe rc
  let (rc, s) := s.pollFirmwareProbe rc
  s.pollTemperatures rc

-- The errors for which an active job is aborted.
def isAutoAbort : ErrorCode → Bool
  | .thermal | .endstop | .marlinFault | .storage     => true
  | .serial | .command | .unknown | .none => false

def needsAbort (s : Service) : Bool :=
  s.jobActive && s.status.state == .error && s.status.fault && s.status.error.code != .none &&
  isAutoAbort s.status.error.code

-- The policies that `deneb_print_service_poll_motion` works off, and the status of manual heating.
def servePolicies (s : Service) : Service :=
  let s := s.pollPauseResume.2
  let s := (s.pollPolicy .abort).2
  let s := (s.pollPolicy .finish).2
  s.refreshManualStatus

-- What follows the reading of the controller's lines in `deneb_print_service_poll_motion`.
def pollPolicies (s : Service) : Service :=
  let s := if s.needsAbort then s.abort.2 else s
  s.servePolicies

-- `deneb_print_service_poll_motion`
def pollMotion (s : Service) : Int × Service :=
  let (rc, s) := s.pollRuntime
  s.pollPolicies.pollProbes rc

-- `deneb_print_service_poll_job`
def pollJob (s : Service) (env : PollEnv) : Int × Service :=
  if s.abortRequested then
    let (reply, s) := s.abort
    (reply.rc, s)
  else if s.pauseResumeBusy then (0, s)
  else if s.gcodeQueueActive then s.pollGcode
  else s.pollStreamer env

-- `deneb_macro_name_is_safe`
def macroNameIsSafe (name : CString) : Bool :=
  !contains name ".." && (strchr name 47).isNone && (strchr name 92).isNone &&
  6 < name.length && name.drop (name.length - 6) == (".gcode" : CString)

-- A MACRO command, and what happens while it runs: the file of the macro if it is readable, the
-- contents of the line buffer at each line, and for each wait of 10 ms whether the deadline has
-- passed (it has when the list has run out).
structure MacroCommand where
  macroName : CString
  file      : Option JobFile   := none
  buffers   : Nat → LineBuffer := fun _ => .blank
  expired   : List Bool        := []

-- The return code of a failed poll in a macro.
def macroPollError (s : Service) (rc : Int) : Int :=
  if s.status.error.code = .serial then MotionSender.serialError else rc

def macroWindowOpen (s : Service) : Bool :=
  s.flow.canSend && s.flow.inflight < streamWindow

-- A wait of the macro runner: rounds of `round` until it yields a return code or the deadline has
-- passed.
def waitLoop (round : Service → Option Int × Service) :
    List Bool → Service → Int × List Bool × Service
  | [], s =>
    let (rc, s) := round s
    (rc.getD (-1), [], s)
  | true :: rest, s =>
    match round s with
    | (some rc, s) => (rc, true :: rest, s)
    | (none, s)    => (-1, rest, s)
  | false :: rest, s =>
    match round s with
    | (some rc, s) => (rc, false :: rest, s)
    | (none, s)    => waitLoop round rest s

def windowRound (s : Service) : Option Int × Service :=
  if s.macroWindowOpen then (some 0, s)
  else if s.abortRequested then (some (-2), s)
  else
    let (rc, s) := s.pollMotion
    (if rc < 0 then some (s.macroPollError (-1)) else none, s)

-- `macro_control_wait_for_stream_window`
def waitForStreamWindow : List Bool → Service → Int × List Bool × Service :=
  waitLoop windowRound

def heaterRound (s : Service) : Option Int × Service :=
  if s.heaterWait.ready s.status then (some 0, s.clearWait)
  else if s.applyWait.abortRequested then (some (-2), s.applyWait)
  else
    let (rc, s) := s.applyWait.pollMotion
    (if rc < 0 then some (s.macroPollError rc) else none, s)

-- The loop of `macro_control_wait_for_heater_cb`.
def waitForHeater : List Bool → Service → Int × List Bool × Service :=
  waitLoop heaterRound

-- The wait that the last line of a macro asks for.
def startMacroWait (s : Service) (stream : GcodeStream) : Service :=
  let target := stream.lastWaitTarget
  if stream.lastWaitForBed then { s with
    status     := { s.status with bedTSet := target }
    heaterWait := .startBed target (ofNat 1) }
  else { s with
    status     := { s.status with headTSet := target }
    heaterWait := .startHead target (ofNat 1) }

-- What `deneb_macro_runner_run_file` does after a line was sent.
def afterMacroLine (s : Service) (stream : GcodeStream) (expired : List Bool) :
    Int × List Bool × Service :=
  let (rc, expired, s) :=
    if stream.asksWait then
      waitForHeater expired (s.startMacroWait stream)
    else (0, expired, s)
  if rc ≠ 0 then (rc, expired, s)
  else
    let (rc, s) := s.pollMotion
    (if rc < 0 then s.macroPollError rc else 0, expired, s)

-- The loop of `deneb_macro_runner_run_file` over the lines of the file.
def runMacroLines (buffers : Nat → LineBuffer) :
    Nat → GcodeStream → List Bool → Service → Int × List Bool × Service
  | 0, _, expired, s               => waitForStreamWindow expired s
  | rounds + 1, stream, expired, s =>
    let (rc, line, stream) := stream.next (buffers rounds)
    if rc < 0 then (-1, expired, s)
    else if rc = 0 then waitForStreamWindow expired s
    else if s.abortRequested then (-2, expired, s)
    else
      let (rc, expired, s) := waitForStreamWindow expired s
      if rc ≠ 0 then (rc, expired, s)
      else
        let (rc, s) := s.send .macroRunner line
        if rc ≠ 0 then (rc, expired, s)
        else
          let (rc, expired, s) := s.afterMacroLine stream expired
          if rc ≠ 0 then (rc, expired, s) else runMacroLines buffers rounds stream expired s

-- `deneb_macro_runner_run_macro`. A line of a file makes at most 16 commands.
def runMacroFile (s : Service) (cmd : MacroCommand) : Int × Service :=
  if !macroNameIsSafe cmd.macroName then (-1, s)
  else
    match cmd.file with
    | none      => (-1, s)
    | some file =>
      let rounds := maxCommands * (file.reads.length + 1)
      let (rc, _, s) := runMacroLines cmd.buffers rounds (.open file) cmd.expired s
      (rc, s)

-- `deneb_macro_control_run`
def runMacro (s : Service) (cmd : MacroCommand) : Reply × Service :=
  let (rc, s) := s.runMacroFile cmd
  if rc ≠ 0 then (.error "macro failed", { s with
    status := { s.status with error := Error.make (sendErrorCode rc) "macro failed" } })
  else (.ok "macro complete", s)

inductive Command
  | gcode (lines : List CString)
  | runMacro (cmd : MacroCommand)
  | job (cmd : JobCommand)
  | abort
  | pause
  | resume
  | unknown

-- `deneb_command_dispatch_handle`
def dispatch (s : Service) : Command → Reply × Service
  | .gcode lines  => s.runGcode lines
  | .runMacro cmd => s.runMacro cmd
  | .job cmd      => s.accept cmd
  | .abort        => s.abort
  | .pause        => s.pause
  | .resume       => s.resume
  | .unknown      => (.error "unknown command", s)

-- `deneb_service_context_refresh_diagnostics`
def refreshDiagnostics (s : Service) : Service :=
  let active := s.jobActive || s.finishCleanup.pending || s.abortCleanup.pending
  { s with status := { s.status with
      flowInflight           := s.flow.inflight.toUInt32
      flowSent               := s.flow.sentCount
      flowAck                := s.flow.ackCount
      flowResend             := s.flow.resendCount
      flowReject             := s.flow.rejectCount
      jobQueueDepth          := if active then 1 else 0
      jobLineNumber          := if active then s.jobStream.lineNumber.toUInt32 else 0
      plannerStarvationCount := s.plannerStarvationCount } }

-- `deneb_print_service_handle_command`, with the time the command took.
def handleCommand (s : Service) (cmd : Command) (latencyMs : UInt32) : Reply × Service :=
  let (reply, s) := s.dispatch cmd
  (reply, refreshDiagnostics { s with status := { s.status with commandLatencyMs := latencyMs } })

-- `deneb_print_service_open_motion`, if the serial device can be opened.
def openMotion (s : Service) (success : Bool) : Service :=
  if success then { s with
    serial                    := { isOpen := true }
    serialReady               := true
    startupStatusProbePending := true
    firmwareProbePending      := true
    firmwareProbeTicks        := 0
    firmwareProbeAttempts     := 0
    temperaturePollTicks      := 0 }
  else { s with serial := {}, serialReady := false }

-- What the serial device does during one call of the service.
structure SerialEnv where
  input  : List SerialRead := []
  writes : List Bool       := []

def connect (s : Service) (env : SerialEnv) : Service :=
  { s with serial := { s.serial with input := env.input, writes := env.writes } }

-- The calls that the main loop makes.
inductive Op
  | openMotion (success : Bool)
  | command (cmd : Command) (env : SerialEnv) (latencyMs : UInt32)
  | pollMotion (env : SerialEnv)
  | pollJob (env : SerialEnv) (poll : PollEnv)
  | refreshDiagnostics

def exec (s : Service) : Op → Service
  | .openMotion success       => s.openMotion success
  | .command cmd env latencyMs => ((s.connect env).handleCommand cmd latencyMs).2
  | .pollMotion env           => (s.connect env).pollMotion.2
  | .pollJob env poll         => ((s.connect env).pollJob poll).2
  | .refreshDiagnostics       => s.refreshDiagnostics

def run (s : Service) (ops : List Op) : Service :=
  ops.foldl exec s

-- `deneb_service_context_init`
def init : Service := {}

end Deneb.Service
