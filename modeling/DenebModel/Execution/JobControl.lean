import DenebModel.Execution.Service

namespace Deneb.Service

open CString BinaryFloat

-- A JOB command, and what the files of the printer yield for it: the job file if it can be opened, the
-- print time if its metadata can be loaded, and the message of a failed build volume check.
structure JobCommand where
  file             : CString
  source           : CString        := []
  uuid             : CString        := []
  cloudJobId       : CString        := []
  bedTarget        : BinaryFloat    := zero
  headTarget       : BinaryFloat    := zero
  jobFile          : Option JobFile := none
  printTime        : Option Int     := none
  buildVolumeError : Option CString := none

def jobBusy (s : Service) : Bool :=
  s.jobActive || s.finishCleanup.pending || s.abortCleanup.pending || s.gcodeQueueActive ||
  s.pausePolicy.pending || s.pausePositionProbePending || s.resumePolicy.pending

-- The time fields that the metadata of the job file sets.
def applyMetadata (s : Service) (printTime : Option Int) : Service :=
  match printTime with
  | some t =>
    if 0 < t then { s with
      status   := { s.status with timeTotal := t, timeLeft := t }
      jobTimer := { s.jobTimer with originalTimeTotal := t } }
    else s
  | none => s

-- The fields that `deneb_job_control_accept` sets once it has accepted the job.
def resetForJob (s : Service) (cmd : JobCommand) : Service :=
  let s := s.clearInflight
  { s with
    abortRequested            := false
    abortCleanup              := { s.abortCleanup with pending := false }
    pausePolicy               := { s.pausePolicy with pending := false, index := 0 }
    pausePositionProbePending := false
    pausePositionProbeSent    := false
    pausePositionReportStart  := 0
    resumePolicy              := { s.resumePolicy with pending := false, index := 0 }
    pausedPositionValid       := false
    pausedNozzleSetpoint      := zero
    jobNozzleResumeSetpoint   := if lt zero cmd.headTarget then cmd.headTarget else zero
    finishCleanup             := { s.finishCleanup with pending := false, index := 0 }
    jobPrepareStage           := .home
    jobPrepareIndex           := 0
    jobStartupIndex           := 0
    jobActive                 := true
    jobTimer                  := {}
    status                    := JobLifecycle.start s.status cmd.file cmd.source cmd.uuid
      cmd.cloudJobId cmd.bedTarget cmd.headTarget
    trace                     := s.trace ++ [Event.jobAccepted s.jobStream] }

def startJob (s : Service) (cmd : JobCommand) : Service :=
  let s := (s.resetForJob cmd).applyMetadata cmd.printTime
  { s with heaterWait := .start s.status.bedTSet s.status.headTSet (ofNat 1) }

-- `deneb_job_control_accept`
def accept (s : Service) (cmd : JobCommand) : Reply × Service :=
  if cmd.file.isEmpty then (.error "missing job file", s)
  else if s.jobBusy then (.error "job already active", s)
  else
    match cmd.jobFile with
    | none => (.error "failed to open job file", { s with
        jobStream := {}
        status    := { s.status with error := Error.make .storage "failed to open job file" } })
    | some file =>
      let s := { s with jobStream := .open file }
      match cmd.buildVolumeError with
      | some message => (.error message, { s with jobStream := s.jobStream.close })
      | none         => (.ok "job accepted", s.startJob cmd)

def abortable (s : Service) : Bool :=
  s.jobActive || s.gcodeQueueActive || lt zero s.status.bedTSet || lt zero s.status.headTSet ||
  s.status.state == .preparing || s.status.state == .printing || s.status.state == .paused ||
  s.status.state == .aborting

-- What `deneb_job_control_abort` does once it has found something to abort.
def startAbort (s : Service) : Service :=
  let s := { s with
    jobStream                 := if s.jobActive then s.jobStream.close else s.jobStream
    jobActive                 := false
    jobTimer                  := {}
    jobPrepareStage           := .done
    jobPrepareIndex           := 0
    jobStartupIndex           := 0
    abortRequested            := false
    finishCleanup             := { s.finishCleanup with pending := false, index := 0 }
    pausePolicy               := { s.pausePolicy with pending := false, index := 0 }
    pausePositionProbePending := false
    pausePositionProbeSent    := false
    pausePositionReportStart  := 0
    resumePolicy              := { s.resumePolicy with pending := false, index := 0 }
    pausedPositionValid       := false
    pausedNozzleSetpoint      := zero
    jobNozzleResumeSetpoint   := zero
    gcodeQueue                := []
    gcodeQueueIndex           := 0
    gcodeQueueActive          := false
    abortCleanup              := { pending := true, policy := .abort, index := 0 }
    heaterWait                := s.heaterWait.clear
    status                    := JobLifecycle.aborting
      { s.status with bedTSet := zero, headTSet := zero }
    trace                     := s.trace ++ [Event.aborted] }
  if s.serialReady then s
  else
    let s := s.clearInflight.resetLineNumber
    { s with
      abortCleanup := { s.abortCleanup with pending := false, index := 0 }
      status       := JobLifecycle.abort s.status }

-- `deneb_job_control_abort`
def abort (s : Service) : Reply × Service :=
  if !s.abortable then (.error "no active print to abort", { s with abortRequested := false })
  else (.ok "abort accepted", s.startAbort)

end Deneb.Service
