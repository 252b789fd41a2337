import DenebModel.Execution.Service

namespace Deneb.Service

open CString BinaryFloat

-- The conversion to a 32 bit `int`.
def toInt32 (n : Int) : Int :=
  (n + 2 ^ 31) % 2 ^ 32 - 2 ^ 31

-- `DENEB_JOB_STREAM_WINDOW`
def jobStreamWindow : Nat := 1

def prepareHomeCommands : List CString :=
  ["G28", "G0 X105 Y0 F9000"]

def primeFilamentCommands : List CString :=
  ["G10 S-6.5 F1500", "G10 S0 F300"]

def startupCommands : List CString :=
  ["G90", "M82", "G92 E0", "G0 F9000"]

def setTimeLeft (s : Service) (elapsed : Int) : Service :=
  { s with status := { s.status with
      timeLeft := if s.status.timeTotal ≤ elapsed then 0 else toInt32 (s.status.timeTotal - elapsed) } }

-- Adds the time since the timer was started to the elapsed time and stops the timer.
def bookElapsed (s : Service) (now : Int) : Service :=
  let timer := s.jobTimer
  let elapsed := if 0 < timer.startedAt && timer.startedAt < now
    then toInt32 (timer.elapsedSeconds + toInt32 (now - timer.startedAt)) else timer.elapsedSeconds
  { s with jobTimer := { timer with startedAt := 0, elapsedSeconds := elapsed } }.setTimeLeft elapsed

def updateJobTiming (s : Service) (now : Int) : Service :=
  if s.status.timeTotal ≤ 0 then s
  else if s.status.state == .paused || s.status.state == .pausing || s.status.state == .aborting ||
      s.status.state == .complete || s.status.state == .error || !s.jobActive then s.bookElapsed now
  else if s.status.state ≠ .printing then s
  else if !s.jobTimer.progressStarted then
    { s with
      jobTimer := { s.jobTimer with startedAt := 0 }
      status   := { s.status with timeLeft := s.status.timeTotal } }
  else if s.heaterWait.active then s.bookElapsed now
  else
    let started := if s.jobTimer.startedAt ≤ 0 then now else s.jobTimer.startedAt
    let elapsed :=
      if now ≤ started then s.jobTimer.elapsedSeconds
      else if 2147483647 < now - started then s.status.timeTotal
      else toInt32 (s.jobTimer.elapsedSeconds + toInt32 (now - started))
    { s with jobTimer := { s.jobTimer with startedAt := started } }.setTimeLeft elapsed

def currentBookedElapsed (timer : JobTimer) (now : Int) : Int :=
  if timer.startedAt ≤ 0 || now ≤ timer.startedAt then timer.elapsedSeconds
  else if 2147483647 < now - timer.startedAt then 2147483647
  else toInt32 (timer.elapsedSeconds + toInt32 (now - timer.startedAt))

-- A `;LAYER:0` comment starts the progress of the job.
def applyLayerMarker (s : Service) (now : Int) : Service :=
  if s.jobStream.lastLayerZero && !s.jobTimer.progressStarted then { s with
    jobTimer := { s.jobTimer with progressStarted := true, startedAt := now, elapsedSeconds := 0 }
    status   := { s.status with timeLeft := s.status.timeTotal } }
  else s

-- A `;TIME_ELAPSED:` comment corrects the total time.
def applyElapsedMarker (s : Service) (now : Int) : Service :=
  if !s.jobStream.lastTimeElapsedValid then s
  else
    let elapsed := max 0 (currentBookedElapsed s.jobTimer now)
    let marker := (add single s.jobStream.lastTimeElapsed (literal 1 2)).toInt
    let total := max 1 (toInt32 (toInt32 (s.jobTimer.originalTimeTotal + elapsed) - marker))
    let elapsed := min elapsed total
    { s with
      status   := { s.status with timeTotal := total, timeLeft := toInt32 (total - elapsed) }
      jobTimer := { s.jobTimer with
        progressStarted := true
        elapsedSeconds  := elapsed
        startedAt       := now } }

def applyGcodeTimingMarkers (s : Service) (now : Int) : Service :=
  if s.status.timeTotal ≤ 0 then s
  else
    let s := if s.jobTimer.originalTimeTotal ≤ 0
      then { s with jobTimer := { s.jobTimer with originalTimeTotal := s.status.timeTotal } } else s
    (s.applyLayerMarker now).applyElapsedMarker now

-- The two indices of the streamer into its command lists.
inductive JobIndex
  | prepare
  | startup
  deriving DecidableEq

def jobIndex (s : Service) : JobIndex → Nat
  | .prepare => s.jobPrepareIndex
  | .startup => s.jobStartupIndex

def advanceJobIndex (s : Service) : JobIndex → Service
  | .prepare => { s with jobPrepareIndex := s.jobPrepareIndex + 1 }
  | .startup => { s with jobStartupIndex := s.jobStartupIndex + 1 }

def failPrepare (s : Service) (rc : Int) : Service :=
  s.setError (Error.make (sendErrorCode rc) (fit 96 ("job prepare send failed: " ++ sendErrorName rc)))

-- `send_command_list`. While it sends the startup commands, the source has the index of the prime
-- commands subtracted from the startup index; `offset` stands for that.
def sendCommandList (commands : List CString) (which : JobIndex) (offset : Nat) :
    Nat → Bool → Service → Int × Service
  | 0, _, s                => (2, s)
  | rounds + 1, sentAny, s =>
    match commands[s.jobIndex which - offset]? with
    | none         => (2, s)
    | some command =>
      if s.windowClosed then (if sentAny then 1 else 0, s)
      else
        let (rc, s) := s.send .streamer command
        if rc = 0 then
          sendCommandList commands which offset rounds true (s.advanceJobIndex which)
        else if rc = MotionSender.flowFull then (0, s)
        else (-1, s.failPrepare rc)

def sendStartup (s : Service) : Int × Service :=
  let offset := if s.jobStream.hasPrimeCmd then 0 else primeFilamentCommands.length
  sendCommandList startupCommands .startup offset startupCommands.length false s

def sendJobStartup (s : Service) : Int × Service :=
  if !s.jobStream.hasPrimeCmd && s.jobStartupIndex < primeFilamentCommands.length then
    let (rc, s) := sendCommandList primeFilamentCommands .startup 0 primeFilamentCommands.length
      false s
    if rc ≤ 1 then (rc, s) else s.sendStartup
  else s.sendStartup

def setStage (s : Service) (stage : PrepareStage) : Service :=
  { s with jobPrepareStage := stage }

def pollJobPrepare (s : Service) : Int × Service :=
  match s.jobPrepareStage with
  | .home =>
    let (rc, s) := sendCommandList prepareHomeCommands .prepare 0 prepareHomeCommands.length false s
    if rc ≤ 1 then (rc, s)
    else (1, setStage { s with jobPrepareIndex := 0 } .homeDrain)
  | .homeDrain =>
    if s.flow.inflight ≠ 0 then (0, s) else (0, (s.record [.drained]).setStage .heat)
  | .heat =>
    if s.heaterWait.ready s.status then (0, s.clearWait.setStage .startup)
    else if s.heaterWait.active then (0, s.applyWait)
    else (0, s.setStage .startup)
  | .startup =>
    let (rc, s) := s.sendJobStartup
    if rc ≤ 1 then (rc, s)
    else (1, setStage { s with jobStartupIndex := 0 } .startupDrain)
  | .startupDrain =>
    if s.flow.inflight ≠ 0 then (0, s) else (0, (s.record [.drained]).setStage .done)
  | .done => (0, s)

-- What all exits of the streamer have in common. A finish cleanup is dropped.
def endJob (s : Service) : Service :=
  let s := s.record (if s.finishCleanup.pending then [.policyFailed .finish] else [])
  let s := { s with jobStream := s.jobStream.close }
  let s := s.clearInflight.resetLineNumber.clearWait
  { s with
    jobActive     := false
    jobTimer      := {}
    finishCleanup := { s.finishCleanup with pending := false } }

def resetPrepare (s : Service) : Service :=
  { s with
    abortRequested  := false
    jobPrepareStage := .done
    jobPrepareIndex := 0
    jobStartupIndex := 0 }

def failRead (s : Service) : Service :=
  s.endJob.setError (Error.make .storage "job stream read failed")

def failStream (s : Service) (rc : Int) : Service :=
  s.endJob.setError
    (Error.make (sendErrorCode rc) (fit 96 ("job stream send failed: " ++ sendErrorName rc)))

def setStreaming (s : Service) : Service :=
  { s with status := JobLifecycle.streaming s.status }

-- The end of the file: the finish cleanup begins.
def beginFinish (s : Service) : Service :=
  setStreaming { s.clearWait with
    jobStream     := s.jobStream.close
    finishCleanup := { pending := true, policy := .finish, index := 0 } }

-- The heater wait that the last line of the file asks for.
def startLineWait (s : Service) : Service :=
  let target := s.jobStream.lastWaitTarget
  if s.jobStream.lastWaitForBed then
    applyWait { s with
      status     := { s.status with bedTSet := target }
      heaterWait := .startBed target (ofNat 1) }
  else if s.jobStream.lastWaitForNozzle then
    applyWait { s with
      status                  := { s.status with headTSet := target }
      jobNozzleResumeSetpoint := if lt zero target then target else s.jobNozzleResumeSetpoint
      heaterWait              := .startHead target (ofNat 1) }
  else s

-- `deneb_gcode_stream_next` on the job file.
def readStream (s : Service) (buffer : LineBuffer) : Int × CString × Service :=
  let (rc, line, stream) := s.jobStream.next buffer
  (rc, line, { s with jobStream := stream })

-- What one poll of the job takes from outside: the readings of the wall clock in their order, and the
-- contents of the line buffer on the stack.
structure PollEnv where
  clock  : Nat → Int := fun _ => 0
  buffer : LineBuffer := .blank

-- A line is sent while nothing is in flight.
def countStarvation (s : Service) : Service :=
  if s.flow.inflight = 0
  then { s with plannerStarvationCount := s.plannerStarvationCount + 1 } else s

-- A line of the file is handed over.
def streamLine (s : Service) (env : PollEnv) (line : CString) : Int × Service :=
  let s := s.setStreaming.countStarvation
  let (rc, s) := s.send .streamer line
  if rc = 0 then
    (1, (s.startLineWait.applyGcodeTimingMarkers (env.clock 1)).updateJobTiming (env.clock 2))
  else if rc = MotionSender.flowFull then (0, s)
  else (-1, s.failStream rc)

-- The part of the poll that reads the file.
def pollStream (s : Service) (env : PollEnv) : Int × Service :=
  if s.flow.hasPendingBarrier || !s.flow.canSend || jobStreamWindow ≤ s.flow.inflight then (0, s)
  else
    let (rc, line, s) := s.readStream env.buffer
    if rc < 0 then (-1, s.failRead)
    else if rc = 0 then
      if s.flow.inflight ≠ 0 then (0, s.setStreaming) else (1, s.beginFinish)
    else s.streamLine env line

-- `deneb_job_streamer_poll`
def pollStreamer (s : Service) (env : PollEnv) : Int × Service :=
  if !s.jobActive then (0, { s.clearWait with abortRequested := false })
  else
    let s := s.updateJobTiming (env.clock 0)
    if s.status.state = .error then (-1, s.endJob.resetPrepare)
    else if s.status.state == .paused || s.status.state == .pausing then
      (0, s.updateJobTiming (env.clock 1))
    else if s.finishCleanup.pending then (0, s.setStreaming)
    else if s.abortRequested then
      let s := s.endJob.resetPrepare
      (-2, { s with status := JobLifecycle.abort s.status })
    else if s.jobPrepareStage ≠ .done then s.pollJobPrepare
    else if s.heaterWait.ready s.status then s.clearWait.pollStream env
    else (0, s.applyWait)

end Deneb.Service
