import DenebModel.Objects.GcodeStream
import DenebModel.Objects.HeaterWait
import DenebModel.Objects.MotionSender
import DenebModel.Objects.StatusParser

namespace Deneb

open CString

-- The parts of the service that hand commands to `deneb_motion_sender_send_gcode`.
inductive Producer
  | streamer
  | gcodeQueue
  | macroRunner
  | statusProbe
  | pauseProbe
  | policy (kind : PolicyKind)
  deriving DecidableEq

-- What the service does and observes, for the record of a run.
inductive Event
  -- A command was handed to the flow control and took a slot of its window, with or without an
  -- active job.
  | handed (producer : Producer) (command : CString) (slot : Nat) (jobActive : Bool)
  -- The serial write of the packet of the last handed command failed.
  | writeFailed
  -- A line of the controller was read.
  | line (text : CString)
  -- A pending slot was acknowledged by a response, or its packet was dropped: by
  -- `deneb_flow_resync_to_expected` or by `deneb_flow_clear_inflight`.
  | acknowledged (slot : Nat)
  | resynced (slot : Nat)
  | cleared (slot : Nat)
  -- The job streamer found that nothing was in flight at the end of a prepare stage.
  | drained
  | jobAccepted (stream : GcodeStream)
  | aborted
  -- All commands of a policy are acknowledged, or the policy was given up.
  | policyDone (kind : PolicyKind)
  | policyFailed (kind : PolicyKind)
  deriving DecidableEq

structure GcodeQueueEntry where
  command    : CString
  waitBed    : Bool
  waitNozzle : Bool
  waitTarget : BinaryFloat
  deriving DecidableEq

inductive PrepareStage
  | done
  | home
  | homeDrain
  | heat
  | startup
  | startupDrain
  deriving DecidableEq

structure JobTimer where
  startedAt         : Int  := 0
  elapsedSeconds    : Int  := 0
  progressStarted   : Bool := false
  originalTimeTotal : Int  := 0
  deriving DecidableEq

-- `deneb_print_service_t`. The commands of the G-code queue are those up to `gcode_queue_count`, and
-- each policy stands with its index and its pending flag. `trace` is the record of what happened.
structure Service where
  status                    : Status          := {}
  serial                    : SerialTransport := {}
  flow                      : FlowControl     := {}
  jobStream                 : GcodeStream     := {}
  heaterWait                : HeaterWait      := {}
  gcodeQueue                : List GcodeQueueEntry := []
  gcodeQueueIndex           : Nat             := 0
  gcodeQueueActive          : Bool            := false
  serialReady               : Bool            := false
  jobActive                 : Bool            := false
  jobTimer                  : JobTimer        := {}
  jobPrepareStage           : PrepareStage    := .done
  jobPrepareIndex           : Nat             := 0
  jobStartupIndex           : Nat             := 0
  abortRequested            : Bool            := false
  abortCleanup              : PolicyRun       := {}
  finishCleanup             : PolicyRun       := {}
  pausePolicy               : PolicyRun       := {}
  resumePolicy              : PolicyRun       := {}
  pausePositionProbePending : Bool            := false
  pausePositionProbeSent    : Bool            := false
  pausePositionReportStart  : UInt32          := 0
  pausedPositionValid       : Bool            := false
  pausedX                   : BinaryFloat     := .zero
  pausedY                   : BinaryFloat     := .zero
  pausedZ                   : BinaryFloat     := .zero
  pausedE                   : BinaryFloat     := .zero
  pausedR0                  : BinaryFloat     := .zero
  pausedNozzleSetpoint      : BinaryFloat     := .zero
  jobNozzleResumeSetpoint   : BinaryFloat     := .zero
  plannerStarvationCount    : UInt32          := 0
  temperaturePollTicks      : UInt32          := 0
  startupStatusProbePending : Bool            := false
  firmwareProbePending      : Bool            := false
  firmwareProbeTicks        : UInt32          := 0
  firmwareProbeAttempts     : UInt32          := 0
  trace                     : List Event      := []
  deriving DecidableEq

-- `deneb_motion_send_error_code`
def sendErrorCode (rc : Int) : ErrorCode :=
  if rc = MotionSender.serialError then .serial else .command

-- `deneb_motion_send_error_name`
def sendErrorName (rc : Int) : CString :=
  if rc = MotionSender.invalid then "invalid_packet"
  else if rc = MotionSender.flowFull then "flow_full"
  else if rc = MotionSender.serialError then "serial_write"
  else if rc = 0 then "ok"
  else "unknown"

-- The slots whose packets wait for an acknowledgement.
def FlowControl.pendingSlots (flow : FlowControl) : List Nat :=
  (List.range flowWindow).filter fun i => (flow.slot i).pending

namespace Service

def policy (s : Service) : PolicyKind → PolicyRun
  | .abort  => s.abortCleanup
  | .finish => s.finishCleanup
  | .pause  => s.pausePolicy
  | .resume => s.resumePolicy

def setPolicy (s : Service) (kind : PolicyKind) (run : PolicyRun) : Service :=
  match kind with
  | .abort  => { s with abortCleanup := run }
  | .finish => { s with finishCleanup := run }
  | .pause  => { s with pausePolicy := run }
  | .resume => { s with resumePolicy := run }

def record (s : Service) (events : List Event) : Service :=
  { s with trace := s.trace ++ events }

-- `deneb_motion_sender_send_gcode` on the parts of the service.
def send (s : Service) (producer : Producer) (command : CString) : Int × Service :=
  let sent := MotionSender.sendGcode s.flow s.serial s.serialReady command
  let events := match sent.slot with
    | none   => []
    | some i => .handed producer command i s.jobActive ::
      if sent.rc = MotionSender.serialError then [.writeFailed] else []
  (sent.rc, { s with flow := sent.flow, serial := sent.serial, trace := s.trace ++ events })

-- The condition under which the producers other than the probes hold back a command.
def windowClosed (s : Service) : Bool :=
  s.flow.hasPendingBarrier || !s.flow.canSend || streamWindow ≤ s.flow.inflight

def clearInflight (s : Service) : Service :=
  { s with
    flow  := s.flow.clearInflight
    trace := s.trace ++ s.flow.pendingSlots.map .cleared }

def resyncToExpected (s : Service) : Service :=
  { s with
    flow  := s.flow.resyncToExpected
    trace := s.trace ++ s.flow.pendingSlots.map .resynced }

def clearWait (s : Service) : Service :=
  { s with heaterWait := s.heaterWait.clear }

def applyWait (s : Service) : Service :=
  { s with status := s.heaterWait.applyStatus s.status }

def setError (s : Service) (error : Error) : Service :=
  { s with status := JobLifecycle.error s.status error }

def resetLineNumber (s : Service) : Service :=
  { s with jobStream := { s.jobStream with lineNumber := 0 } }

-- Takes the next command of a policy as handed over.
def advancePolicy (s : Service) (kind : PolicyKind) : Service :=
  s.setPolicy kind { s.policy kind with index := (s.policy kind).index + 1 }

def stopPolicy (s : Service) (kind : PolicyKind) : Service :=
  s.setPolicy kind { s.policy kind with pending := false, index := 0 }

def policyErrorDetail : PolicyKind → CString
  | .abort  => "abort cleanup failed"
  | .finish => "finish cleanup failed"
  | .pause  => "pause cleanup failed"
  | .resume => "resume cleanup failed"

-- A command of the policy could not be sent.
def failPolicy (s : Service) (kind : PolicyKind) (rc : Int) : Service :=
  let s := (s.stopPolicy kind).record [.policyFailed kind]
  let s := s.setError (Error.make (sendErrorCode rc) (policyErrorDetail kind))
  match kind with
  | .abort          => { s.clearWait with abortRequested := false }
  | .finish         => s.clearWait
  | .pause | .resume => s

-- All commands of the policy are acknowledged. The two branches of the source for `finish`, with and
-- without a serial port, do the same.
def completePolicy (s : Service) (kind : PolicyKind) : Service :=
  let s := (s.stopPolicy kind).record [.policyDone kind]
  match kind with
  | .abort =>
    let s := s.clearWait.clearInflight.resetLineNumber
    { s with
      abortRequested          := false
      status                  := JobLifecycle.abort s.status
      jobTimer                := {}
      jobNozzleResumeSetpoint := .zero }
  | .finish =>
    let s := s.clearWait.clearInflight.resetLineNumber
    { s with
      abortRequested          := false
      status                  := { JobLifecycle.complete s.status with timeLeft := 0 }
      jobNozzleResumeSetpoint := .zero
      jobActive               := false
      jobTimer                := {} }
  | .pause  => { s with status := (PauseResume.pause s.status).2 }
  | .resume => { s with
      pausedPositionValid := false
      status              := JobLifecycle.streaming s.status }

-- The loop that works off a policy: 0 if it has to wait, -1 if a command could not be sent, and 1 if
-- all commands are handed over.
def sendPolicy (kind : PolicyKind) : Nat → Service → Int × Service
  | 0, s          => (1, s)
  | rounds + 1, s =>
    match (s.policy kind).policy[(s.policy kind).index]? with
    | none         => (1, s)
    | some command =>
      if s.windowClosed then (0, s)
      else
        let (rc, s) := s.send (.policy kind) command
        if rc = 0 then sendPolicy kind rounds (s.advancePolicy kind)
        else if rc = MotionSender.flowFull then (0, s)
        else (-1, s.failPolicy kind rc)

-- `poll_policy`, and the body of `deneb_job_control_poll_abort_cleanup` and
-- `deneb_job_control_poll_finish_cleanup`.
def pollPolicy (s : Service) (kind : PolicyKind) : Int × Service :=
  if !(s.policy kind).pending then (0, s)
  else
    let (rc, s) := sendPolicy kind (s.policy kind).policy.length s
    if rc ≠ 1 then (rc, s)
    else if s.flow.inflight ≠ 0 then (0, s)
    else (1, s.completePolicy kind)

end Service

-- The reply to a command, with its message.
inductive Reply
  | ok (message : CString)
  | error (message : CString)
  deriving DecidableEq

def Reply.rc : Reply → Int
  | ok _    => 0
  | error _ => -1

end Deneb
