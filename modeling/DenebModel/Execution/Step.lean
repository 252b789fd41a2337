import DenebModel.Execution.Basic
import Mathlib.Logic.Relation

-- The calls of the service, taken apart into steps. A step changes the service in one way only, so
-- that an invariant of all runs is shown once for each step.
namespace Deneb.Service

open CString BinaryFloat

-- The commands of the startup stage as one list.
def startupList (s : Service) : List CString :=
  if s.jobStream.hasPrimeCmd then startupCommands else primeFilamentCommands ++ startupCommands

-- The commands of a prepare stage, and the index into them.
def prepareList (s : Service) : List CString :=
  match s.jobPrepareStage with
  | .home    => prepareHomeCommands
  | .startup => s.startupList
  | _        => []

def prepareIndex (s : Service) : JobIndex :=
  match s.jobPrepareStage with
  | .home => .prepare
  | _     => .startup

def prepareCommand (s : Service) : Option CString :=
  s.prepareList[s.jobIndex s.prepareIndex]?

def advancePrepare (s : Service) : Service :=
  s.advanceJobIndex s.prepareIndex

-- Fields that are not read by what decides which commands are handed over, and when.
inductive Quiet : Service → Service → Prop
  | serial (serial) : Quiet s { s with serial := serial }
  | timing (timer timeTotal timeLeft) :
    Quiet s { s with
      jobTimer := timer
      status   := { s.status with timeTotal := timeTotal, timeLeft := timeLeft } }
  | starvation (count) : Quiet s { s with plannerStarvationCount := count }
  | probes (ticks startup firmware firmwareTicks attempts) :
    Quiet s { s with
      temperaturePollTicks      := ticks
      startupStatusProbePending := startup
      firmwareProbePending      := firmware
      firmwareProbeTicks        := firmwareTicks
      firmwareProbeAttempts     := attempts }

-- Steps of `deneb_motion_runtime_poll`.
inductive RuntimeStep : Service → Service → Prop
  | line (text) : RuntimeStep s (s.handleLine text).2
  | resync : RuntimeStep s s.resyncToExpected
  | error (detail) : s.status.hasActivePrint → RuntimeStep s (s.setSerialError detail)

-- Steps of the pollers that work off a policy.
inductive PolicyStep : Service → Service → Prop
  | send (kind) :
    (s.policy kind).pending → (s.policy kind).policy[(s.policy kind).index]? = some command →
    (kind = .resume → ¬s.heaterWait.active ∧
      ((s.policy kind).index = 0 → lt zero s.pausedNozzleSetpoint = false)) →
    s.send (.policy kind) command = (0, s₁) → PolicyStep s (s₁.advancePolicy kind)
  | fail (kind) :
    (s.policy kind).pending → (s.policy kind).policy[(s.policy kind).index]? = some command →
    (kind = .resume → ¬s.heaterWait.active ∧
      ((s.policy kind).index = 0 → lt zero s.pausedNozzleSetpoint = false)) →
    s.send (.policy kind) command = (rc, s₁) → rc ≠ 0 → rc ≠ MotionSender.flowFull → PolicyStep s (s₁.failPolicy kind rc)
  | done (kind) :
    (s.policy kind).pending → (s.policy kind).policy.length ≤ (s.policy kind).index →
    (kind = .resume → ¬s.heaterWait.active) → s.flow.inflight = 0 →
    PolicyStep s (s.completePolicy kind)
  | heat :
    s.resumePolicy.pending → s.resumePolicy.index = 0 → ¬s.heaterWait.active →
    lt zero s.pausedNozzleSetpoint → s.resumePolicy.policy.head? = some command →
    s.send (.policy .resume) command = (0, s₁) → PolicyStep s s₁.startResumeHeat
  | heatFail :
    s.resumePolicy.pending → s.resumePolicy.index = 0 → ¬s.heaterWait.active →
    lt zero s.pausedNozzleSetpoint → s.resumePolicy.policy.head? = some command →
    s.send (.policy .resume) command = (rc, s₁) → rc ≠ 0 → rc ≠ MotionSender.flowFull → PolicyStep s (s₁.failResumeHeat rc)
  -- A heater wait from before the resume ends, and the policy starts without a wait of its own.
  | leftover :
    s.resumePolicy.pending → s.resumePolicy.index = 0 → s.heaterWait.active →
    s.heaterWait.ready s.status → s.resumePolicy.policy[0]? = some command →
    s.clearWait.send (.policy .resume) command = (0, s₁) → PolicyStep s (s₁.advancePolicy .resume)
  | leftoverFail :
    s.resumePolicy.pending → s.resumePolicy.index = 0 → s.heaterWait.active →
    s.heaterWait.ready s.status → s.resumePolicy.policy[0]? = some command →
    s.clearWait.send (.policy .resume) command = (rc, s₁) → rc ≠ 0 → rc ≠ MotionSender.flowFull →
    PolicyStep s (s₁.failPolicy .resume rc)
  | probe :
    s.pausePositionProbePending → s.send .pauseProbe "M114" = (0, s₁) →
    PolicyStep s { s₁ with pausePositionProbeSent := true }
  | probeFail :
    s.pausePositionProbePending → s.send .pauseProbe "M114" = (rc, s₁) → rc ≠ 0 → rc ≠ MotionSender.flowFull →
    PolicyStep s (s₁.failPauseProbe rc)
  | probed :
    s.pausePositionProbePending → s.pausePositionProbeSent → s.flow.inflight = 0 →
    PolicyStep s s.endPauseProbe

-- Steps of the G-code queue.
inductive QueueStep : Service → Service → Prop
  | send :
    s.gcodeQueueActive → ¬s.heaterWait.active → s.gcodeQueue[s.gcodeQueueIndex]? = some entry →
    s.send .gcodeQueue entry.command = (0, s₁) → QueueStep s (s₁.advanceQueue entry)
  | fail :
    s.gcodeQueueActive → ¬s.heaterWait.active → s.gcodeQueue[s.gcodeQueueIndex]? = some entry →
    s.send .gcodeQueue entry.command = (rc, s₁) → rc ≠ 0 → rc ≠ MotionSender.flowFull → QueueStep s (s₁.failQueue rc)
  | done : s.gcodeQueueActive → ¬s.heaterWait.active → QueueStep s s.clearQueue

-- Steps of `deneb_gcode_control_poll`.
inductive GcodeStep : Service → Service → Prop
  | queue : QueueStep s s' → GcodeStep s s'
  | applyWait : s.heaterWait.active → ¬s.heaterWait.ready s.status → GcodeStep s s.applyWait
  | waitOver : s.heaterWait.ready s.status → GcodeStep s s.clearWait
  | manualStatus : GcodeStep s s.refreshManualStatus

-- The streamer gets to its job: nothing else is to be done first.
structure Streams (s : Service) : Prop where
  active    : s.jobActive
  notBusy   : ¬s.pauseResumeBusy
  notQueue  : ¬s.gcodeQueueActive
  notError  : s.status.state ≠ .error
  notPaused : s.status.state ≠ .paused ∧ s.status.state ≠ .pausing
  notFinish : ¬s.finishCleanup.pending

-- Steps of the job streamer.
inductive StreamStep : Service → Service → Prop
  | prepare :
    s.prepareCommand = some command → s.send .streamer command = (0, s₁) →
    StreamStep s s₁.advancePrepare
  | prepareFail :
    s.prepareCommand = some command → s.send .streamer command = (rc, s₁) → rc ≠ 0 → rc ≠ MotionSender.flowFull →
    StreamStep s (s₁.failPrepare rc)
  | homeSent :
    s.jobPrepareStage = .home → prepareHomeCommands.length ≤ s.jobPrepareIndex →
    StreamStep s { s with jobPrepareIndex := 0, jobPrepareStage := .homeDrain }
  | homeDrained :
    s.jobPrepareStage = .homeDrain → s.flow.inflight = 0 →
    StreamStep s ((s.record [.drained]).setStage .heat)
  | heated :
    s.jobPrepareStage = .heat → s.heaterWait.ready s.status →
    StreamStep s (s.clearWait.setStage .startup)
  | startupSent :
    s.jobPrepareStage = .startup → s.startupList.length ≤ s.jobStartupIndex →
    StreamStep s { s with jobStartupIndex := 0, jobPrepareStage := .startupDrain }
  | startupDrained :
    s.jobPrepareStage = .startupDrain → s.flow.inflight = 0 →
    StreamStep s ((s.record [.drained]).setStage .done)
  | readFail (buffer) :
    s.jobPrepareStage = .done → ¬s.heaterWait.active →
    (s.readStream buffer).1 < 0 → StreamStep s (s.readStream buffer).2.2.failRead
  | readEnd (buffer) :
    s.jobPrepareStage = .done → ¬s.heaterWait.active → s.flow.inflight = 0 →
    (s.readStream buffer).1 = 0 → StreamStep s (s.readStream buffer).2.2.beginFinish
  | stream (buffer) :
    s.jobPrepareStage = .done → ¬s.heaterWait.active → 0 < (s.readStream buffer).1 →
    (s.readStream buffer).2.2.setStreaming.send .streamer (s.readStream buffer).2.1 = (0, s₁) →
    StreamStep s s₁.startLineWait
  | streamFail (buffer) :
    s.jobPrepareStage = .done → ¬s.heaterWait.active → 0 < (s.readStream buffer).1 →
    (s.readStream buffer).2.2.setStreaming.send .streamer (s.readStream buffer).2.1 = (rc, s₁) →
    rc ≠ 0 → rc ≠ MotionSender.flowFull → StreamStep s (s₁.failStream rc)

-- Steps of `deneb_print_service_poll_motion` after the lines of the controller are read, and of the
-- heater waits that are checked between two polls.
inductive MotionStep : Service → Service → Prop
  | quiet : Quiet s s' → MotionStep s s'
  | policy : PolicyStep s s' → MotionStep s s'
  | manualStatus : MotionStep s s.refreshManualStatus
  | statusProbe (command) : command ∈ (["M115", "M105", "M114"] : List CString) →
    MotionStep s (s.send .statusProbe command).2
  | applyWait : s.heaterWait.active → ¬s.heaterWait.ready s.status → MotionStep s s.applyWait
  | waitOver : s.heaterWait.ready s.status → MotionStep s s.clearWait

-- Steps of `deneb_print_service_poll_motion`.
inductive PollStep : Service → Service → Prop
  | motion : MotionStep s s' → PollStep s s'
  | runtime : RuntimeStep s s' → PollStep s s'
  | abort : s.needsAbort ∨ s.abortRequested → PollStep s s.startAbort
  | dropAbort : PollStep s { s with abortRequested := false }

-- Steps of `deneb_print_service_poll_job`.
inductive JobStep : Service → Service → Prop
  | poll : PollStep s s' → JobStep s s'
  -- The streamer drops a heater wait when there is no job.
  | dropWait : ¬s.jobActive → ¬s.pauseResumeBusy → ¬s.gcodeQueueActive → JobStep s s.clearWait
  | queue : ¬s.pauseResumeBusy → QueueStep s s' → JobStep s s'
  | errorExit :
    s.jobActive → ¬s.pauseResumeBusy → ¬s.gcodeQueueActive → s.status.state = .error →
    JobStep s s.endJob.resetPrepare
  | streaming :
    s.jobActive → ¬s.pauseResumeBusy → ¬s.gcodeQueueActive → s.finishCleanup.pending →
    s.status.state ≠ .error → s.status.state ≠ .paused ∧ s.status.state ≠ .pausing →
    JobStep s s.setStreaming
  | stream : Streams s → StreamStep s s' → JobStep s s'

-- Steps of a macro, besides those of the polls that it makes.
inductive MacroStep (cmd : MacroCommand) : Service → Service → Prop
  | poll : PollStep s s' → MacroStep cmd s s'
  | send (line) : MacroStep cmd s (s.send .macroRunner line).2
  | startWait :
    cmd.file = some file → GcodeStream.Emits (.open file) lines stream → stream.asksWait →
    MacroStep cmd s (s.startMacroWait stream)
  | fail (rc detail) :
    MacroStep cmd s { s with
      status := { s.status with error := Error.make (sendErrorCode rc) detail } }

abbrev MotionSteps : Service → Service → Prop :=
  Relation.ReflTransGen MotionStep

abbrev PollSteps : Service → Service → Prop :=
  Relation.ReflTransGen PollStep

abbrev JobSteps : Service → Service → Prop :=
  Relation.ReflTransGen JobStep

abbrev GcodeSteps : Service → Service → Prop :=
  Relation.ReflTransGen GcodeStep

abbrev MacroSteps (cmd : MacroCommand) : Service → Service → Prop :=
  Relation.ReflTransGen (MacroStep cmd)

end Deneb.Service
