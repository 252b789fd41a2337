import DenebModel.Execution.Service

namespace Deneb.Service

open CString BinaryFloat

def savePauseState (s : Service) : Service :=
  let setpoint := if lt zero s.status.headTSet then s.status.headTSet else s.jobNozzleResumeSetpoint
  { s with
    pausedPositionValid     := 0 < s.status.positionReportCount
    pausedX                 := s.status.x
    pausedY                 := s.status.y
    pausedZ                 := s.status.z
    pausedE                 := s.status.e
    pausedR0                := s.status.r0
    pausedNozzleSetpoint    := setpoint
    jobNozzleResumeSetpoint := if lt zero setpoint then setpoint else s.jobNozzleResumeSetpoint }

def beginPauseCleanupFromCurrentPosition (s : Service) : Service :=
  let s := s.savePauseState
  if s.pausedPositionValid then { s with
    pausePolicy := { pending := true, policy := .pause s.pausedX s.pausedY s.pausedZ, index := 0 } }
  else s

-- The position report that the probe waited for has come.
def endPauseProbe (s : Service) : Service :=
  beginPauseCleanupFromCurrentPosition { s with
    pausePositionProbePending := false
    pausePositionProbeSent    := false
    pausePositionReportStart  := 0 }

def failPauseProbe (s : Service) (rc : Int) : Service :=
  setError { s with pausePositionProbePending := false }
    (Error.make (sendErrorCode rc) "pause position probe failed")

def pollPausePositionProbe (s : Service) : Int × Service :=
  if !s.pausePositionProbePending then (0, s)
  else if !s.pausePositionProbeSent then
    if s.windowClosed then (0, s)
    else
      let (rc, s) := s.send .pauseProbe "M114"
      if rc = 0 then (0, { s with pausePositionProbeSent := true })
      else if rc = MotionSender.flowFull then (0, s)
      else (-1, s.failPauseProbe rc)
  else if s.flow.inflight ≠ 0 then (0, s)
  else if s.status.positionReportCount ≤ s.pausePositionReportStart then (0, s)
  else
    let s := s.endPauseProbe
    (if s.pausePolicy.pending then 0 else 1, s)

-- The first command of a resume policy is handed over, and the service waits for the nozzle.
def startResumeHeat (s : Service) : Service :=
  applyWait { s with
    resumePolicy := { s.resumePolicy with index := 1 }
    heaterWait   := .startHead s.pausedNozzleSetpoint (ofNat 1) }

def failResumeHeat (s : Service) (rc : Int) : Service :=
  let s := (s.stopPolicy .resume).record [.policyFailed .resume]
  s.setError (Error.make (sendErrorCode rc) "resume heat failed")

def sendResumeHeatCommand (s : Service) : Int × Service :=
  if !s.resumePolicy.pending || s.resumePolicy.index ≠ 0 then (0, s)
  else
    match s.resumePolicy.policy with
    | []           => (0, s)
    | command :: _ =>
      if le s.pausedNozzleSetpoint zero then (0, s)
      else if s.windowClosed then (0, s)
      else
        let (rc, s) := s.send (.policy .resume) command
        if rc = 0 then (1, s.startResumeHeat)
        else if rc = MotionSender.flowFull then (0, s)
        else (-1, s.failResumeHeat rc)

-- `deneb_pause_resume_control_busy`
def pauseResumeBusy (s : Service) : Bool :=
  s.pausePositionProbePending || s.pausePolicy.pending || s.resumePolicy.pending

-- The nozzle setpoint that a later resume falls back to.
def keepSetpoint (s : Service) : Service :=
  { s with
    pausedPositionValid     := false
    jobNozzleResumeSetpoint :=
      if lt zero s.status.headTSet then s.status.headTSet else s.jobNozzleResumeSetpoint }

def startPauseProbe (s : Service) : Service :=
  { s with
    pausePositionProbePending := true
    pausePositionProbeSent    := false
    pausePositionReportStart  := s.status.positionReportCount }

-- `deneb_pause_resume_control_pause`
def pause (s : Service) : Reply × Service :=
  if s.pauseResumeBusy then (.error "pause/resume already pending", s)
  else if s.jobActive && (s.status.state == .preparing || s.status.state == .printing) then
    let s := s.keepSetpoint
    (.ok "pause accepted", startPauseProbe { s with status := s.status.setPhase .pausing })
  else
    let (rc, status) := PauseResume.pause s.status
    if rc < 0 then (.error "no active print to pause", s)
    else
      let s := keepSetpoint { s with status := status }
      (.ok "pause accepted",
        if s.jobActive && s.status.state == .paused then s.startPauseProbe else s.savePauseState)

-- `deneb_pause_resume_control_resume`
def resume (s : Service) : Reply × Service :=
  if s.pauseResumeBusy then (.error "pause/resume already pending", s)
  else if !s.pausedPositionValid then
    let (rc, status) := PauseResume.resume s.status s.heaterWait.active
    if rc < 0 then (.error "print is not paused", s)
    else (.ok "resume accepted", { s with status := status })
  else if s.status.state ≠ .paused then (.error "print is not paused", s)
  else
    let policy := .resume s.pausedX s.pausedY s.pausedZ s.pausedE s.pausedR0 s.pausedNozzleSetpoint
    let status := { s.status with headTSet := s.pausedNozzleSetpoint }
    let s := { s with resumePolicy := { pending := true, policy := policy, index := 0 } }
    let (rc, status) := PauseResume.resume status (lt zero s.pausedNozzleSetpoint)
    if rc < 0 then
      (.error "print is not paused", { s.clearWait with
        resumePolicy := { s.resumePolicy with pending := false }
        status       := status })
    else (.ok "resume accepted", { s with status := status })

-- The part of `deneb_pause_resume_control_poll` after the pause policy.
def pollResume (s : Service) : Int × Service :=
  let (rc, s) :=
    if s.resumePolicy.pending && !s.heaterWait.active && s.resumePolicy.index == 0 &&
        lt zero s.pausedNozzleSetpoint then s.sendResumeHeatCommand
    else (1, s)
  if rc ≤ 0 then (rc, s)
  else if s.resumePolicy.pending && s.heaterWait.active then
    if !s.heaterWait.ready s.status then (0, s.applyWait)
    else s.clearWait.pollPolicy .resume
  else s.pollPolicy .resume

-- `deneb_pause_resume_control_poll`
def pollPauseResume (s : Service) : Int × Service :=
  let (rc, s) := if s.pausePositionProbePending then s.pollPausePositionProbe else (1, s)
  if rc ≤ 0 then (rc, s)
  else
    let hadPause := s.pausePolicy.pending
    let (rc, s) := s.pollPolicy .pause
    if rc < 0 || hadPause then (rc, s) else s.pollResume

end Deneb.Service
