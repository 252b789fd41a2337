import DenebModel.Execution.Theorems.Run

namespace Deneb.Service

open CString BinaryFloat

variable {s s' : Service} {kind : PolicyKind}

-- The fields that the timing of a job reads and writes.
structure Timing where
  timer     : JobTimer
  timeTotal : Int
  timeLeft  : Int

def timing (s : Service) : Timing where
  timer     := s.jobTimer
  timeTotal := s.status.timeTotal
  timeLeft  := s.status.timeLeft

-- What a call does to the timing besides the timing code itself: nothing, or the job has ended.
inductive Timing.Change : Timing → Timing → Prop
  | keep : Change t t
  | stop : Change t { t with timer := {} }
  | finish : Change t { t with timer := {}, timeLeft := 0 }
  | reset : Change t { timer := {}, timeTotal := 0, timeLeft := 0 }

section Frame

theorem Timing.Change.trans {t t' t'' : Timing} (h : Change t t') (h' : Change t' t'') :
    Change t t'' := by
  cases h <;> cases h' <;> constructor

theorem Timing.Change.of_eq {t t' : Timing} (h : t' = t) : Change t t' :=
  h ▸ .keep

abbrev Calm (s s' : Service) : Prop :=
  Timing.Change s.timing s'.timing

def sameTime (status status' : Status) : Prop :=
  status'.timeTotal = status.timeTotal ∧ status'.timeLeft = status.timeLeft

theorem parseMarlinLine_sameTime {status : Status} {line : CString} :
    sameTime status (StatusParser.parseMarlinLine status line).2 := by
  unfold StatusParser.parseMarlinLine
  split
  case isTrue  => exact ⟨rfl, rfl⟩
  case isFalse =>
    split
    case isTrue  => exact ⟨rfl, rfl⟩
    case isFalse =>
      split
      case h_1 status' h =>
        unfold StatusParser.parseVersionLine at h
        split at h
        case h_1 => cases h; exact ⟨rfl, rfl⟩
        case h_2 =>
          split at h
          case h_1 => cases h; exact ⟨rfl, rfl⟩
          case h_2 => split at h <;> cases h; exact ⟨rfl, rfl⟩
      case h_2 =>
        split
        case h_1 status' h =>
          unfold StatusParser.parseTemperatures at h
          dsimp only at h
          split at h <;> cases h
          exact ⟨rfl, rfl⟩
        case h_2 =>
          split
          case h_1 status' h =>
            unfold StatusParser.parseHomeDistance at h
            dsimp only at h
            split at h <;> try cases h
            split at h <;> cases h
            exact ⟨rfl, rfl⟩
          case h_2 => split <;> exact ⟨rfl, rfl⟩

theorem applyStatus_sameTime {wait : HeaterWait} {status : Status} :
    sameTime status (wait.applyStatus status) := by
  unfold HeaterWait.applyStatus
  split <;> exact ⟨rfl, rfl⟩

theorem timing_applyWait : s.applyWait.timing = s.timing := by
  have ⟨total, left⟩ := @applyStatus_sameTime s.heaterWait s.status
  simp only [timing, applyWait, total, left]

theorem timing_handleLine {line : CString} : (s.handleLine line).2.timing = s.timing := by
  have ⟨total, left⟩ := @parseMarlinLine_sameTime s.status line
  have ⟨total', left'⟩ :=
    @applyStatus_sameTime s.heaterWait (StatusParser.parseMarlinLine s.status line).2
  unfold handleLine timing
  dsimp only
  split <;> split <;> simp only [total, left, total', left']

theorem timing_reactToResponse {allow : Bool} {rc : Int} :
    (s.reactToResponse allow rc).2.timing = s.timing := by
  unfold reactToResponse
  split
  case isTrue => dsimp only; split <;> rfl
  case isFalse =>
    split
    case isTrue  => dsimp only; split <;> rfl
    case isFalse => split <;> rfl

theorem timing_runtimeLoop {allow : Bool} {rounds : Nat} {handled : Int} :
    (runtimeLoop allow rounds handled s).2.timing = s.timing := by
  induction rounds generalizing s handled
  case zero => rfl
  case succ rounds ih =>
    unfold runtimeLoop
    dsimp only
    split
    case isTrue  => rfl
    case isFalse =>
      split
      case isTrue  => rfl
      case isFalse =>
        split
        case isTrue  => exact ih.trans (timing_reactToResponse.trans timing_handleLine)
        case isFalse => exact timing_reactToResponse.trans timing_handleLine

theorem timing_pollRuntime : s.pollRuntime.2.timing = s.timing := by
  unfold pollRuntime
  split
  case isTrue  => rfl
  case isFalse => exact timing_runtimeLoop

theorem timing_setPolicy {run : PolicyRun} : (s.setPolicy kind run).timing = s.timing := by
  cases kind <;> rfl

theorem timing_failPolicy {rc : Int} : (s.failPolicy kind rc).timing = s.timing := by
  cases kind <;> rfl

theorem calm_completePolicy : Calm s (s.completePolicy kind) := by
  cases kind
  case abort  => exact .reset
  case finish => exact .finish
  case pause  =>
    refine .of_eq ?_
    unfold completePolicy PauseResume.pause
    dsimp only
    split <;> rfl
  case resume => exact .keep

theorem timing_sendPolicy {rounds : Nat} : (sendPolicy kind rounds s).2.timing = s.timing := by
  induction rounds generalizing s
  case zero => rfl
  case succ rounds ih =>
    unfold sendPolicy
    split
    case h_1 => rfl
    case h_2 command _ =>
      split
      case isTrue  => rfl
      case isFalse =>
        dsimp only
        split
        case isTrue  => exact ih.trans timing_setPolicy
        case isFalse =>
          split
          case isTrue  => rfl
          case isFalse => exact timing_failPolicy

theorem calm_pollPolicy : Calm s (s.pollPolicy kind).2 := by
  unfold pollPolicy
  split
  case isTrue  => exact .keep
  case isFalse =>
    have sent : Calm s (sendPolicy kind (s.policy kind).policy.length s).2 :=
      .of_eq timing_sendPolicy
    dsimp only
    split
    case isTrue  => exact sent
    case isFalse =>
      split
      case isTrue  => exact sent
      case isFalse => exact sent.trans calm_completePolicy

theorem timing_endPauseProbe : s.endPauseProbe.timing = s.timing := by
  unfold endPauseProbe beginPauseCleanupFromCurrentPosition
  dsimp only
  split <;> rfl

theorem timing_pollPausePositionProbe : s.pollPausePositionProbe.2.timing = s.timing := by
  unfold pollPausePositionProbe
  split
  case isTrue  => rfl
  case isFalse =>
    split
    case isTrue =>
      split
      case isTrue  => rfl
      case isFalse =>
        dsimp only
        split
        case isTrue  => rfl
        case isFalse => split <;> rfl
    case isFalse =>
      split
      case isTrue  => rfl
      case isFalse =>
        split
        case isTrue  => rfl
        case isFalse => exact timing_endPauseProbe

theorem timing_sendResumeHeatCommand : s.sendResumeHeatCommand.2.timing = s.timing := by
  unfold sendResumeHeatCommand
  split
  case isTrue  => rfl
  case isFalse =>
    split
    case h_1 => rfl
    case h_2 =>
      split
      case isTrue  => rfl
      case isFalse =>
        split
        case isTrue  => rfl
        case isFalse =>
          dsimp only
          split
          case isTrue  => exact timing_applyWait
          case isFalse => split <;> rfl

theorem calm_pollResume : Calm s s.pollResume.2 := by
  unfold pollResume
  -- The command that heats the nozzle again comes first.
  have heat : Calm s (if s.resumePolicy.pending && !s.heaterWait.active &&
      s.resumePolicy.index == 0 && lt zero s.pausedNozzleSetpoint then s.sendResumeHeatCommand
    else (1, s)).2 := by
    split
    case isTrue  => exact .of_eq timing_sendResumeHeatCommand
    case isFalse => exact .keep
  generalize (if s.resumePolicy.pending && !s.heaterWait.active &&
      s.resumePolicy.index == 0 && lt zero s.pausedNozzleSetpoint then s.sendResumeHeatCommand
    else (1, s)) = r at heat
  obtain ⟨rc, s₁⟩ := r
  dsimp only at heat ⊢
  split
  case isTrue  => exact heat
  case isFalse =>
    split
    case isTrue =>
      split
      case isTrue  => exact heat.trans (.of_eq timing_applyWait)
      case isFalse => exact heat.trans (calm_pollPolicy (s := s₁.clearWait))
    case isFalse => exact heat.trans calm_pollPolicy

theorem calm_pollPauseResume : Calm s s.pollPauseResume.2 := by
  unfold pollPauseResume
  have probe : Calm s (if s.pausePositionProbePending then s.pollPausePositionProbe else (1, s)).2 := by
    split
    case isTrue  => exact .of_eq timing_pollPausePositionProbe
    case isFalse => exact .keep
  generalize (if s.pausePositionProbePending then s.pollPausePositionProbe else (1, s)) = r at probe
  obtain ⟨rc, s₁⟩ := r
  dsimp only at probe ⊢
  split
  case isTrue  => exact probe
  case isFalse =>
    have pause := probe.trans (@calm_pollPolicy s₁ .pause)
    split
    case isTrue  => exact pause
    case isFalse => exact pause.trans calm_pollResume

theorem timing_refreshManualStatus : s.refreshManualStatus.timing = s.timing := by
  unfold refreshManualStatus
  split
  case isTrue  => rfl
  case isFalse => split <;> rfl

theorem calm_startAbort : Calm s s.startAbort := by
  unfold startAbort
  dsimp only
  split
  case isTrue  => exact .stop
  case isFalse => exact .reset

theorem calm_abort : Calm s s.abort.2 := by
  unfold abort
  split
  case isTrue  => exact .keep
  case isFalse => exact calm_startAbort

theorem calm_pollPolicies : Calm s s.pollPolicies := by
  unfold pollPolicies servePolicies
  have fault : Calm s (if s.needsAbort then s.abort.2 else s) := by
    split
    case isTrue  => exact calm_abort
    case isFalse => exact .keep
  exact fault.trans <| calm_pollPauseResume.trans <| calm_pollPolicy.trans <|
    calm_pollPolicy.trans <| .of_eq timing_refreshManualStatus

theorem timing_sendStatusProbe {probes : List CString} :
    (sendStatusProbe probes s).2.timing = s.timing := by
  induction probes generalizing s
  case nil => rfl
  case cons command probes ih =>
    unfold sendStatusProbe
    split
    case isTrue  => rfl
    case isFalse =>
      dsimp only
      split
      case isTrue  => exact ih
      case isFalse => split <;> rfl

theorem timing_pollProbes {rc : Int} : (s.pollProbes rc).2.timing = s.timing := by
  have startup {s : Service} {rc : Int} : (s.pollStartupProbe rc).2.timing = s.timing := by
    unfold pollStartupProbe
    split
    case isTrue  => dsimp only; split <;> exact timing_sendStatusProbe
    case isFalse => rfl
  have firmware {s : Service} {rc : Int} : (s.pollFirmwareProbe rc).2.timing = s.timing := by
    unfold pollFirmwareProbe
    split
    case isTrue =>
      split
      case isTrue  => rfl
      case isFalse =>
        dsimp only
        split
        case isTrue  => unfold sendVersionProbe; dsimp only; split <;> rfl
        case isFalse => rfl
    case isFalse => rfl
  have temperatures {s : Service} {rc : Int} : (s.pollTemperatures rc).2.timing = s.timing := by
    unfold pollTemperatures
    split
    case isTrue =>
      dsimp only
      split
      case isTrue  => exact timing_sendStatusProbe
      case isFalse => rfl
    case isFalse => rfl
  unfold pollProbes
  refine temperatures.trans <| firmware.trans <| startup.trans ?_
  split <;> rfl

theorem calm_pollMotion : Calm s s.pollMotion.2 :=
  (Timing.Change.of_eq timing_pollRuntime).trans <| calm_pollPolicies.trans <| .of_eq timing_pollProbes

theorem timing_foldl_applyAcceptedHeaterTarget {queue : List GcodeQueueEntry} {status : Status} :
    sameTime status
      (queue.foldl (fun status entry => applyAcceptedHeaterTarget status entry.command) status) := by
  induction queue generalizing status
  case nil => exact ⟨rfl, rfl⟩
  case cons entry queue ih =>
    have ⟨total, left⟩ := @ih (applyAcceptedHeaterTarget status entry.command)
    refine ⟨total.trans ?_, left.trans ?_⟩
    all_goals
      unfold applyAcceptedHeaterTarget
      split <;> rfl

theorem timing_advanceQueue {entry : GcodeQueueEntry} : (s.advanceQueue entry).timing = s.timing := by
  have ⟨total, left⟩ : sameTime s.status (applyAcceptedHeaterTarget s.status entry.command) := by
    unfold applyAcceptedHeaterTarget
    split <;> exact ⟨rfl, rfl⟩
  unfold advanceQueue
  dsimp only
  split
  case isTrue  => rw [timing_applyWait]; simp only [timing, total, left]
  case isFalse =>
    split
    case isTrue  => rw [timing_applyWait]; simp only [timing, total, left]
    case isFalse => simp only [timing, total, left]

theorem timing_sendQueue {rounds : Nat} : (sendQueue rounds s).2.timing = s.timing := by
  induction rounds generalizing s
  case zero => exact timing_refreshManualStatus
  case succ rounds ih =>
    unfold sendQueue
    split
    case h_1 => exact timing_refreshManualStatus
    case h_2 =>
      split
      case isTrue  => rfl
      case isFalse =>
        dsimp only
        split
        case isTrue =>
          split
          case isTrue  => exact timing_advanceQueue
          case isFalse => exact ih.trans timing_advanceQueue
        case isFalse => split <;> rfl

theorem timing_pollGcode : s.pollGcode.2.timing = s.timing := by
  unfold pollGcode
  split
  case isTrue  => rfl
  case isFalse =>
    split
    case isTrue =>
      split
      case isTrue  => exact timing_applyWait
      case isFalse => exact @timing_sendQueue s.clearWait _
    case isFalse => exact timing_sendQueue

theorem timing_runGcode {lines : List CString} : (s.runGcode lines).2.timing = s.timing := by
  unfold runGcode
  split
  case isTrue  => rfl
  case isFalse =>
    split
    case h_1 => rfl
    case h_2 queue _ =>
      have targets : (applyQueuedHeaterTargets { s.clearQueue with gcodeQueue := queue }).timing =
          s.timing := by
        have ⟨total, left⟩ := @timing_foldl_applyAcceptedHeaterTarget queue s.status
        refine timing_refreshManualStatus.trans ?_
        exact congr_arg₂ (Timing.mk s.jobTimer) total left
      dsimp only
      split
      case isTrue  => exact timing_refreshManualStatus.trans targets
      case isFalse =>
        have polled := (@timing_pollGcode { applyQueuedHeaterTargets
          { s.clearQueue with gcodeQueue := queue } with gcodeQueueActive := true }).trans targets
        split
        case isTrue  => exact polled
        case isFalse => exact timing_refreshManualStatus.trans polled

theorem calm_waitLoop {round : Service → Option Int × Service} (hr : ∀ s, Calm s (round s).2)
    {expired : List Bool} : Calm s (waitLoop round expired s).2.2 := by
  induction expired generalizing s
  case nil => exact hr s
  case cons late expired ih =>
    have once := hr s
    cases late <;> unfold waitLoop <;> generalize round s = r at once <;> obtain ⟨rc, s₁⟩ := r
    case true  => cases rc <;> exact once
    case false =>
      cases rc
      case none => exact once.trans ih
      case some => exact once

theorem calm_waitForStreamWindow {expired : List Bool} :
    Calm s (waitForStreamWindow expired s).2.2 := by
  refine calm_waitLoop fun s => ?_
  unfold windowRound
  split
  case isTrue  => exact .keep
  case isFalse =>
    split
    case isTrue  => exact .keep
    case isFalse => exact calm_pollMotion

theorem calm_waitForHeater {expired : List Bool} : Calm s (waitForHeater expired s).2.2 := by
  refine calm_waitLoop fun s => ?_
  unfold heaterRound
  split
  case isTrue  => exact .keep
  case isFalse =>
    split
    case isTrue  => exact .of_eq timing_applyWait
    case isFalse => exact (Timing.Change.of_eq timing_applyWait).trans calm_pollMotion

theorem calm_afterMacroLine {stream : GcodeStream} {expired : List Bool} :
    Calm s (s.afterMacroLine stream expired).2.2 := by
  unfold afterMacroLine
  have waited : Calm s (if stream.asksWait then waitForHeater expired (s.startMacroWait stream)
      else (0, expired, s)).2.2 := by
    split
    case isTrue =>
      have started : (s.startMacroWait stream).timing = s.timing := by
        unfold startMacroWait
        dsimp only
        split <;> rfl
      exact (Timing.Change.of_eq started).trans calm_waitForHeater
    case isFalse => exact .keep
  generalize (if stream.asksWait then waitForHeater expired (s.startMacroWait stream)
    else (0, expired, s)) = r at waited
  obtain ⟨rc, expired, s₁⟩ := r
  dsimp only at waited ⊢
  split
  case isTrue  => exact waited
  case isFalse => exact waited.trans calm_pollMotion

theorem calm_runMacroLines {buffers : Nat → LineBuffer} {rounds : Nat} {stream : GcodeStream}
    {expired : List Bool} : Calm s (runMacroLines buffers rounds stream expired s).2.2 := by
  induction rounds generalizing s stream expired
  case zero => exact calm_waitForStreamWindow
  case succ rounds ih =>
    unfold runMacroLines
    dsimp only
    split
    case isTrue  => exact .keep
    case isFalse =>
      split
      case isTrue  => exact calm_waitForStreamWindow
      case isFalse =>
        split
        case isTrue  => exact .keep
        case isFalse =>
          have waited := @calm_waitForStreamWindow s expired
          generalize waitForStreamWindow expired s = r at waited
          obtain ⟨rc, expired, s₁⟩ := r
          dsimp only at waited ⊢
          split
          case isTrue  => exact waited
          case isFalse =>
            split
            case isTrue  => exact waited
            case isFalse =>
              have line := waited.trans <|
                @calm_afterMacroLine (s₁.send .macroRunner (stream.next (buffers rounds)).2.1).2
                  (stream.next (buffers rounds)).2.2 expired
              split
              case isTrue  => exact line
              case isFalse => exact line.trans ih

theorem calm_runMacro {cmd : MacroCommand} : Calm s (s.runMacro cmd).2 := by
  have file : Calm s (s.runMacroFile cmd).2 := by
    unfold runMacroFile
    split
    case isTrue  => exact .keep
    case isFalse =>
      split
      case h_1 => exact .keep
      case h_2 => exact calm_runMacroLines
  unfold runMacro
  dsimp only
  split
  case isTrue  => exact file
  case isFalse => exact file

theorem timing_pause : s.pause.2.timing = s.timing := by
  unfold pause
  split
  case isTrue  => rfl
  case isFalse =>
    split
    case isTrue  => rfl
    case isFalse =>
      unfold PauseResume.pause
      cases s.status.state <;> dsimp only <;> split <;> first | rfl | (split <;> rfl)

theorem timing_resume : s.resume.2.timing = s.timing := by
  have kept {status : Status} {active : Bool} :
      sameTime status (PauseResume.resume status active).2 := by
    unfold PauseResume.resume
    split <;> exact ⟨rfl, rfl⟩
  unfold resume
  split
  case isTrue  => rfl
  case isFalse =>
    split
    case isTrue =>
      dsimp only
      split
      case isTrue  => rfl
      case isFalse => exact congr_arg₂ (Timing.mk s.jobTimer) kept.1 kept.2
    case isFalse =>
      split
      case isTrue  => rfl
      case isFalse =>
        dsimp only
        split <;> exact congr_arg₂ (Timing.mk s.jobTimer) kept.1 kept.2

theorem timing_sendCommandList {commands : List CString} {which : JobIndex} {offset rounds : Nat}
    {sentAny : Bool} : (sendCommandList commands which offset rounds sentAny s).2.timing = s.timing := by
  induction rounds generalizing s sentAny
  case zero => rfl
  case succ rounds ih =>
    unfold sendCommandList
    split
    case h_1 => rfl
    case h_2 =>
      split
      case isTrue  => rfl
      case isFalse =>
        dsimp only
        split
        case isTrue  => exact ih.trans (by cases which <;> rfl)
        case isFalse => split <;> rfl

theorem timing_sendJobStartup : s.sendJobStartup.2.timing = s.timing := by
  unfold sendJobStartup sendStartup
  split
  case isTrue =>
    dsimp only
    split
    case isTrue  => exact timing_sendCommandList
    case isFalse => exact timing_sendCommandList.trans timing_sendCommandList
  case isFalse => exact timing_sendCommandList

theorem timing_pollJobPrepare : s.pollJobPrepare.2.timing = s.timing := by
  unfold pollJobPrepare
  split
  case h_1 => dsimp only; split <;> exact timing_sendCommandList
  case h_2 => split <;> rfl
  case h_3 =>
    split
    case isTrue  => rfl
    case isFalse =>
      split
      case isTrue  => exact timing_applyWait
      case isFalse => rfl
  case h_4 => dsimp only; split <;> exact timing_sendJobStartup
  case h_5 => split <;> rfl
  case h_6 => rfl

theorem timing_startLineWait : s.startLineWait.timing = s.timing := by
  unfold startLineWait
  dsimp only
  split
  case isTrue  => exact timing_applyWait
  case isFalse =>
    split
    case isTrue  => exact timing_applyWait
    case isFalse => rfl

theorem timing_countStarvation : s.countStarvation.timing = s.timing := by
  unfold countStarvation
  split <;> rfl

end Frame

section Calls

-- The numbers that a 32 bit `int` holds.
def InInt (n : Int) : Prop :=
  -2 ^ 31 ≤ n ∧ n < 2 ^ 31

-- A call of `update_job_timing` or of `apply_gcode_timing_markers`, with its reading of the clock.
inductive TimingCall
  | update (s : Service) (now : Int)
  | markers (s : Service) (now : Int)

-- The calls that `deneb_job_streamer_poll` makes when it reads the file.
def streamCalls (s : Service) (env : PollEnv) : List TimingCall :=
  if s.flow.hasPendingBarrier || !s.flow.canSend || jobStreamWindow ≤ s.flow.inflight then []
  else
    let (rc, line, s) := s.readStream env.buffer
    if rc ≤ 0 then []
    else
      let (rc, s) := s.setStreaming.countStarvation.send .streamer line
      if rc ≠ 0 then []
      else
        let s := s.startLineWait
        [.markers s (env.clock 1), .update (s.applyGcodeTimingMarkers (env.clock 1)) (env.clock 2)]

-- The calls of one poll in their order.
def timingCalls (s : Service) (env : PollEnv) : List TimingCall :=
  if !s.jobActive then []
  else .update s (env.clock 0) :: rest (s.updateJobTiming (env.clock 0))
where
  rest (s : Service) : List TimingCall :=
    if s.status.state = .error then []
    else if s.status.state == .paused || s.status.state == .pausing then [.update s (env.clock 1)]
    else if s.finishCleanup.pending || s.abortRequested || s.jobPrepareStage ≠ .done ||
        !s.heaterWait.ready s.status then []
    else s.clearWait.streamCalls env

-- The result of the subtraction that yields the time left, if there is one.
def leftSums (total elapsed : Int) : List Int :=
  if total ≤ elapsed then [] else [total - elapsed]

def bookSums (s : Service) (now : Int) : List Int :=
  let timer := s.jobTimer
  (if 0 < timer.startedAt && timer.startedAt < now
    then [timer.elapsedSeconds + toInt32 (now - timer.startedAt)] else []) ++
  leftSums s.status.timeTotal (s.bookElapsed now).jobTimer.elapsedSeconds

-- The states in which the time of the job does not run on.
def timeStands (s : Service) : Bool :=
  s.status.state == .paused || s.status.state == .pausing || s.status.state == .aborting ||
    s.status.state == .complete || s.status.state == .error || !s.jobActive

def updateSums (s : Service) (now : Int) : List Int :=
  let timer := s.jobTimer
  if s.status.timeTotal ≤ 0 then []
  else if s.timeStands then s.bookSums now
  else if s.status.state ≠ .printing then []
  else if !timer.progressStarted then []
  else if s.heaterWait.active then s.bookSums now
  else
    let started := if timer.startedAt ≤ 0 then now else timer.startedAt
    if now ≤ started then leftSums s.status.timeTotal timer.elapsedSeconds
    else if 2147483647 < now - started then leftSums s.status.timeTotal s.status.timeTotal
    else
      (timer.elapsedSeconds + toInt32 (now - started)) ::
        leftSums s.status.timeTotal (toInt32 (timer.elapsedSeconds + toInt32 (now - started)))

-- What a `;TIME_ELAPSED:` comment adds to its second, before the conversion to an `int`.
def elapsedMarker (s : Service) : BinaryFloat :=
  add single s.jobStream.lastTimeElapsed (literal 1 2)

def elapsedSums (s : Service) (now : Int) : List Int :=
  if !s.jobStream.lastTimeElapsedValid then []
  else
    let timer := s.jobTimer
    let elapsed := max 0 (currentBookedElapsed timer now)
    let total := (s.applyElapsedMarker now).status.timeTotal
    (if timer.startedAt ≤ 0 || now ≤ timer.startedAt || 2147483647 < now - timer.startedAt then []
      else [timer.elapsedSeconds + toInt32 (now - timer.startedAt)]) ++
    [timer.originalTimeTotal + elapsed,
      toInt32 (timer.originalTimeTotal + elapsed) - s.elapsedMarker.toInt,
      total - min elapsed total]

-- The total time that the markers go back to.
def keepOriginal (s : Service) : Service :=
  if s.jobTimer.originalTimeTotal ≤ 0
  then { s with jobTimer := { s.jobTimer with originalTimeTotal := s.status.timeTotal } } else s

def markerSums (s : Service) (now : Int) : List Int :=
  if s.status.timeTotal ≤ 0 then [] else (s.keepOriginal.applyLayerMarker now).elapsedSums now

-- The exact results of all additions and subtractions of `int`s in a call.
def TimingCall.sums : TimingCall → List Int
  | update s now  => s.updateSums now
  | markers s now => s.markerSums now

-- The time since the timer was started.
def sinceStart (timer : JobTimer) (now : Int) : Int :=
  if 0 < timer.startedAt ∧ timer.startedAt < now then now - timer.startedAt else 0

def FitsInt : BinaryFloat → Prop
  | .fin s m e => 0 ≤ toInt (.fin s m e) ∧ toInt (.fin s m e) < 2 ^ 31
  | _          => False

-- The elapsed time with the time since the timer was started fits an `int`, or the call checks the
-- latter alone and it is too large by itself; a `;TIME_ELAPSED:` comment is rounded to an `int`, and
-- the elapsed time fits one together with the total time.
def TimingCall.Fits : TimingCall → Prop
  | update s now =>
    0 < s.status.timeTotal →
    s.timeStands ∨ s.status.state = .printing ∧ s.jobTimer.progressStarted →
    s.jobTimer.elapsedSeconds + sinceStart s.jobTimer now < 2 ^ 31 ∨
      ¬s.timeStands ∧ ¬s.heaterWait.active ∧ 2147483647 < sinceStart s.jobTimer now
  | markers s now =>
    0 < s.status.timeTotal → s.jobStream.lastTimeElapsedValid →
    FitsInt s.elapsedMarker ∧
      (if s.jobTimer.originalTimeTotal ≤ 0 then s.status.timeTotal
        else s.jobTimer.originalTimeTotal) +
      (if s.jobStream.lastLayerZero && !s.jobTimer.progressStarted then 0
        else s.jobTimer.elapsedSeconds + sinceStart s.jobTimer now) < 2 ^ 31

end Calls

section Range

structure Timing.InRange (t : Timing) : Prop where
  left     : 0 ≤ t.timeLeft ∧ t.timeLeft ≤ t.timeTotal
  total    : t.timeTotal < 2 ^ 31
  elapsed  : 0 ≤ t.timer.elapsedSeconds ∧ t.timer.elapsedSeconds < 2 ^ 31
  original : 0 ≤ t.timer.originalTimeTotal ∧ t.timer.originalTimeTotal < 2 ^ 31

theorem Timing.Change.inRange {t t' : Timing} (h : Change t t') (range : t.InRange) : t'.InRange := by
  have ⟨⟨_, _⟩, _, _, _⟩ := range
  cases h
  case keep => exact range
  all_goals constructor <;> simp <;> omega

theorem toInt32_of_inInt {n : Int} (h : InInt n) : toInt32 n = n := by
  have ⟨_, _⟩ := h
  rw [toInt32]
  omega

variable {now elapsed total : Int} {n : Int}

theorem leftSums_inInt (ht : total < 2 ^ 31) (he : 0 ≤ elapsed) (h : n ∈ leftSums total elapsed) :
    InInt n := by
  unfold leftSums at h
  split at h
  case isTrue  => contradiction
  case isFalse =>
    rw [List.mem_singleton.mp h, InInt]
    omega

-- The time left after a call that sets it.
theorem timeLeft_inRange (ht : 0 ≤ total) (ht' : total < 2 ^ 31) (he : 0 ≤ elapsed) :
    0 ≤ (if total ≤ elapsed then 0 else toInt32 (total - elapsed)) ∧
    (if total ≤ elapsed then 0 else toInt32 (total - elapsed)) ≤ total := by
  split
  case isTrue  => omega
  case isFalse =>
    rw [toInt32_of_inInt ⟨by omega, by omega⟩]
    omega

theorem sinceStart_nonneg {timer : JobTimer} : 0 ≤ sinceStart timer now := by
  unfold sinceStart
  split <;> omega

variable {timer : JobTimer}

theorem sinceStart_of_pos (h : 0 < timer.startedAt ∧ timer.startedAt < now) :
    sinceStart timer now = now - timer.startedAt :=
  if_pos h

theorem sinceStart_of_neg (h : ¬(0 < timer.startedAt ∧ timer.startedAt < now)) :
    sinceStart timer now = 0 :=
  if_neg h

-- The sum that adds the time since the start, when it fits.
theorem elapsedSum_eq (he : 0 ≤ timer.elapsedSeconds)
    (fits : timer.elapsedSeconds + sinceStart timer now < 2 ^ 31)
    (h : 0 < timer.startedAt ∧ timer.startedAt < now) :
    timer.elapsedSeconds + toInt32 (now - timer.startedAt) =
      timer.elapsedSeconds + sinceStart timer now := by
  rw [sinceStart_of_pos h] at fits ⊢
  rw [toInt32_of_inInt ⟨by omega, by omega⟩]

theorem elapsedSum_inInt (he : 0 ≤ timer.elapsedSeconds)
    (fits : timer.elapsedSeconds + sinceStart timer now < 2 ^ 31) :
    InInt (timer.elapsedSeconds + sinceStart timer now) := by
  have := @sinceStart_nonneg now timer
  exact ⟨by omega, fits⟩

theorem bookElapsed_elapsed (he : 0 ≤ s.jobTimer.elapsedSeconds)
    (fits : s.jobTimer.elapsedSeconds + sinceStart s.jobTimer now < 2 ^ 31) :
    (s.bookElapsed now).jobTimer.elapsedSeconds =
      s.jobTimer.elapsedSeconds + sinceStart s.jobTimer now := by
  unfold bookElapsed setTimeLeft
  simp only [Bool.and_eq_true, decide_eq_true_eq]
  by_cases h : 0 < s.jobTimer.startedAt ∧ s.jobTimer.startedAt < now
  case pos => rw [if_pos h, elapsedSum_eq he fits h, toInt32_of_inInt (elapsedSum_inInt he fits)]
  case neg => rw [if_neg h, sinceStart_of_neg h, Int.add_zero]

theorem bookElapsed_inRange (range : s.timing.InRange)
    (fits : s.jobTimer.elapsedSeconds + sinceStart s.jobTimer now < 2 ^ 31) :
    (s.bookElapsed now).timing.InRange := by
  have he : 0 ≤ s.jobTimer.elapsedSeconds := range.elapsed.1
  have booked := bookElapsed_elapsed he fits
  have nonneg := @sinceStart_nonneg now s.jobTimer
  have ht := Int.le_trans range.left.1 range.left.2
  have booked_nonneg : 0 ≤ (s.bookElapsed now).jobTimer.elapsedSeconds := by
    rw [booked]
    omega
  exact {
    left     := timeLeft_inRange ht range.total booked_nonneg
    total    := range.total
    elapsed  := ⟨booked_nonneg, booked ▸ fits⟩
    original := range.original }

theorem bookSums_inInt (range : s.timing.InRange)
    (fits : s.jobTimer.elapsedSeconds + sinceStart s.jobTimer now < 2 ^ 31)
    (h : n ∈ s.bookSums now) : InInt n := by
  have he : 0 ≤ s.jobTimer.elapsedSeconds := range.elapsed.1
  have nonneg := @sinceStart_nonneg now s.jobTimer
  unfold bookSums at h
  rw [bookElapsed_elapsed he fits] at h
  cases List.mem_append.mp h
  case inl h =>
    simp only [Bool.and_eq_true, decide_eq_true_eq] at h
    split at h
    case isTrue hs =>
      rw [List.mem_singleton.mp h, elapsedSum_eq he fits hs]
      exact elapsedSum_inInt he fits
    case isFalse => contradiction
  case inr h => exact leftSums_inInt range.total (by omega) h

-- The branch of `update_job_timing` in which the time runs on.
theorem runOn_inRange (range : s.timing.InRange) (ht : 0 < s.status.timeTotal)
    (fits : s.jobTimer.elapsedSeconds + sinceStart s.jobTimer now < 2 ^ 31 ∨
      2147483647 < sinceStart s.jobTimer now) :
    let started := if s.jobTimer.startedAt ≤ 0 then now else s.jobTimer.startedAt
    let elapsed :=
      if now ≤ started then s.jobTimer.elapsedSeconds
      else if 2147483647 < now - started then s.status.timeTotal
      else toInt32 (s.jobTimer.elapsedSeconds + toInt32 (now - started))
    (setTimeLeft { s with jobTimer := { s.jobTimer with startedAt := started } }
      elapsed).timing.InRange ∧
    ∀ n ∈ (if now ≤ started then leftSums s.status.timeTotal s.jobTimer.elapsedSeconds
      else if 2147483647 < now - started then leftSums s.status.timeTotal s.status.timeTotal
      else (s.jobTimer.elapsedSeconds + toInt32 (now - started)) ::
        leftSums s.status.timeTotal
          (toInt32 (s.jobTimer.elapsedSeconds + toInt32 (now - started)))), InInt n := by
  intro started elapsed
  have he : 0 ≤ s.jobTimer.elapsedSeconds := range.elapsed.1
  have nonneg := @sinceStart_nonneg now s.jobTimer
  have left {n : Int} (hn : 0 ≤ n) : (setTimeLeft { s with jobTimer :=
      { s.jobTimer with startedAt := started } } n).timing.InRange := {
    left     := timeLeft_inRange (Int.le_of_lt ht) range.total hn
    total    := range.total
    elapsed  := range.elapsed
    original := range.original }
  by_cases hn : now ≤ started
  case pos =>
    rw [show elapsed = s.jobTimer.elapsedSeconds from if_pos hn, if_pos hn]
    exact ⟨left he, fun n h => leftSums_inInt range.total he h⟩
  case neg =>
    have hs : 0 < s.jobTimer.startedAt := by
      by_contra hc
      rw [show started = now from if_pos (by omega)] at hn
      exact hn (Int.le_refl _)
    have started_eq : started = s.jobTimer.startedAt := if_neg (by omega)
    by_cases hg : 2147483647 < now - started
    case pos =>
      rw [show elapsed = s.status.timeTotal from (if_neg hn).trans (if_pos hg), if_neg hn, if_pos hg]
      exact ⟨left (Int.le_of_lt ht), fun n h => leftSums_inInt range.total (Int.le_of_lt ht) h⟩
    case neg =>
      rw [started_eq] at hn hg
      have since := @sinceStart_of_pos now s.jobTimer ⟨hs, by omega⟩
      have fits := fits.resolve_right (since ▸ hg)
      have sum := elapsedSum_eq he fits ⟨hs, by omega⟩
      have inInt := elapsedSum_inInt he fits
      have elapsed_eq : elapsed = s.jobTimer.elapsedSeconds + sinceStart s.jobTimer now := by
        dsimp only [elapsed]
        rw [started_eq, if_neg hn, if_neg hg, sum, toInt32_of_inInt inInt]
      rw [elapsed_eq, started_eq, if_neg hn, if_neg hg, sum, toInt32_of_inInt inInt]
      refine ⟨started_eq ▸ left (by omega), fun n h => ?_⟩
      cases List.mem_cons.mp h
      case inl h => exact h ▸ inInt
      case inr h => exact leftSums_inInt range.total (by omega) h

theorem updateJobTiming_inRange (range : s.timing.InRange) (fits : (TimingCall.update s now).Fits) :
    (s.updateJobTiming now).timing.InRange ∧ ∀ n ∈ s.updateSums now, InInt n := by
  unfold updateJobTiming updateSums
  rw [show (s.status.state == .paused || s.status.state == .pausing || s.status.state == .aborting ||
    s.status.state == .complete || s.status.state == .error || !s.jobActive) = s.timeStands from rfl]
  dsimp only
  by_cases ht : s.status.timeTotal ≤ 0
  case pos =>
    rw [if_pos ht, if_pos ht]
    exact ⟨range, nofun⟩
  case neg =>
    have ht' : 0 < s.status.timeTotal := by omega
    have fits := fits ht'
    rw [if_neg ht, if_neg ht]
    by_cases hs : s.timeStands
    case pos =>
      have fits := (fits (.inl hs)).resolve_right (fun h => h.1 hs)
      rw [if_pos hs, if_pos hs]
      exact ⟨bookElapsed_inRange range fits, fun n h => bookSums_inInt range fits h⟩
    case neg =>
      rw [if_neg hs, if_neg hs]
      by_cases hp : s.status.state = .printing
      case neg =>
        rw [if_pos hp, if_pos hp]
        exact ⟨range, nofun⟩
      case pos =>
        rw [if_neg (not_not.mpr hp), if_neg (not_not.mpr hp)]
        by_cases hr : s.jobTimer.progressStarted
        case neg =>
          have hr : !s.jobTimer.progressStarted := by simpa using hr
          rw [if_pos hr, if_pos hr]
          exact ⟨⟨⟨Int.le_of_lt ht', Int.le_refl _⟩, range.total, range.elapsed, range.original⟩, nofun⟩
        case pos =>
          have fits := fits (.inr ⟨hp, hr⟩)
          have hr : ¬!s.jobTimer.progressStarted := by simpa using hr
          rw [if_neg hr, if_neg hr]
          by_cases hw : s.heaterWait.active
          case pos =>
            have fits := fits.resolve_right (fun h => h.2.1 hw)
            rw [if_pos hw, if_pos hw]
            exact ⟨bookElapsed_inRange range fits, fun n h => bookSums_inInt range fits h⟩
          case neg =>
            rw [if_neg hw, if_neg hw]
            exact runOn_inRange range ht' (fits.imp_right (·.2.2))

theorem FitsInt.bounds {x : BinaryFloat} (h : FitsInt x) : 0 ≤ x.toInt ∧ x.toInt < 2 ^ 31 := by
  cases x
  case fin => exact h
  all_goals exact False.elim h

theorem currentBookedElapsed_eq (he : 0 ≤ timer.elapsedSeconds)
    (fits : timer.elapsedSeconds + sinceStart timer now < 2 ^ 31) :
    currentBookedElapsed timer now = timer.elapsedSeconds + sinceStart timer now := by
  unfold currentBookedElapsed
  simp only [Bool.or_eq_true, decide_eq_true_eq]
  by_cases h : 0 < timer.startedAt ∧ timer.startedAt < now
  case neg => rw [if_pos (by omega), sinceStart_of_neg h, Int.add_zero]
  case pos =>
    have since := sinceStart_of_pos h
    rw [if_neg (by omega), if_neg (by omega), elapsedSum_eq he fits h,
      toInt32_of_inInt (elapsedSum_inInt he fits)]

theorem timing_applyElapsedMarker (hv : ¬!s.jobStream.lastTimeElapsedValid) :
    let elapsed := max 0 (currentBookedElapsed s.jobTimer now)
    let total := max 1
      (toInt32 (toInt32 (s.jobTimer.originalTimeTotal + elapsed) - s.elapsedMarker.toInt))
    (s.applyElapsedMarker now).timing = {
      timer     := { s.jobTimer with
        progressStarted := true
        elapsedSeconds  := min elapsed total
        startedAt       := now }
      timeTotal := total
      timeLeft  := toInt32 (total - min elapsed total) } := by
  unfold applyElapsedMarker
  rw [if_neg hv]
  rfl

theorem applyElapsedMarker_inRange (range : s.timing.InRange)
    (fits : s.jobStream.lastTimeElapsedValid → FitsInt s.elapsedMarker ∧
      s.jobTimer.originalTimeTotal + (s.jobTimer.elapsedSeconds + sinceStart s.jobTimer now) < 2 ^ 31) :
    (s.applyElapsedMarker now).timing.InRange ∧ ∀ n ∈ s.elapsedSums now, InInt n := by
  unfold elapsedSums
  by_cases hv : s.jobStream.lastTimeElapsedValid
  case neg =>
    have hv : !s.jobStream.lastTimeElapsedValid := by simpa using hv
    unfold applyElapsedMarker
    rw [if_pos hv, if_pos hv]
    exact ⟨range, nofun⟩
  case pos =>
    have ⟨hm, fits⟩ := fits hv
    have ⟨marker_nonneg, marker_lt⟩ := hm.bounds
    have he : 0 ≤ s.jobTimer.elapsedSeconds := range.elapsed.1
    have ho : 0 ≤ s.jobTimer.originalTimeTotal := range.original.1
    have nonneg := @sinceStart_nonneg now s.jobTimer
    have hv : ¬!s.jobStream.lastTimeElapsedValid := by simpa using hv
    have booked := @currentBookedElapsed_eq now s.jobTimer he (by omega)
    have sum := @elapsedSum_eq now s.jobTimer he (by omega)
    have after := @timing_applyElapsedMarker s now hv
    rw [if_neg hv]
    change _ ∧ ∀ n ∈ _ ++ [_, _, (s.applyElapsedMarker now).timing.timeTotal -
      min _ (s.applyElapsedMarker now).timing.timeTotal], InInt n
    dsimp only at after ⊢
    rw [booked, Int.max_eq_right (by omega)] at after ⊢
    generalize sinceStart s.jobTimer now = since at *
    -- No conversion of the marker changes a value.
    have first : InInt (s.jobTimer.originalTimeTotal + (s.jobTimer.elapsedSeconds + since)) :=
      ⟨by omega, fits⟩
    have second : InInt (s.jobTimer.originalTimeTotal + (s.jobTimer.elapsedSeconds + since) -
        s.elapsedMarker.toInt) := ⟨by omega, by omega⟩
    rw [toInt32_of_inInt first] at after ⊢
    rw [toInt32_of_inInt second] at after
    have third : InInt ((max 1 (s.jobTimer.originalTimeTotal + (s.jobTimer.elapsedSeconds + since) -
        s.elapsedMarker.toInt)) - min (s.jobTimer.elapsedSeconds + since)
        (max 1 (s.jobTimer.originalTimeTotal + (s.jobTimer.elapsedSeconds + since) -
          s.elapsedMarker.toInt))) := ⟨by omega, by omega⟩
    rw [toInt32_of_inInt third] at after
    rw [after]
    constructor
    case left =>
      constructor <;> dsimp only
      case left     => omega
      case total    => omega
      case elapsed  => omega
      case original => exact range.original
    case right =>
      intro n h
      cases List.mem_append.mp h
      case inl h =>
        simp only [Bool.or_eq_true, decide_eq_true_eq] at h
        split at h
        case isTrue  => contradiction
        case isFalse hs =>
          rw [List.mem_singleton.mp h, sum ⟨by omega, by omega⟩]
          exact ⟨by omega, by omega⟩
      case inr h =>
        simp only [List.mem_cons, List.not_mem_nil, or_false] at h
        obtain rfl | rfl | rfl := h
        · exact first
        · exact second
        · exact third

theorem applyGcodeTimingMarkers_inRange (range : s.timing.InRange)
    (fits : (TimingCall.markers s now).Fits) :
    (s.applyGcodeTimingMarkers now).timing.InRange ∧ ∀ n ∈ s.markerSums now, InInt n := by
  unfold markerSums applyGcodeTimingMarkers
  by_cases ht : s.status.timeTotal ≤ 0
  case pos =>
    rw [if_pos ht, if_pos ht]
    exact ⟨range, nofun⟩
  case neg =>
    have fits := fits (by omega)
    rw [if_neg ht, if_neg ht]
    change ((s.keepOriginal.applyLayerMarker now).applyElapsedMarker now).timing.InRange ∧ _
    have kept : s.keepOriginal.timing.InRange ∧
        s.keepOriginal.jobTimer.originalTimeTotal =
          (if s.jobTimer.originalTimeTotal ≤ 0 then s.status.timeTotal
            else s.jobTimer.originalTimeTotal) := by
      unfold keepOriginal
      split
      case isTrue =>
        refine ⟨⟨range.left, range.total, range.elapsed, ?_⟩, rfl⟩
        exact ⟨Int.le_of_lt (Int.not_le.mp ht), range.total⟩
      case isFalse => exact ⟨range, rfl⟩
    have ⟨layer, elapsed, original⟩ : (s.keepOriginal.applyLayerMarker now).timing.InRange ∧
        (s.keepOriginal.applyLayerMarker now).jobTimer.elapsedSeconds +
          sinceStart (s.keepOriginal.applyLayerMarker now).jobTimer now =
          (if s.jobStream.lastLayerZero && !s.jobTimer.progressStarted then 0
            else s.jobTimer.elapsedSeconds + sinceStart s.jobTimer now) ∧
        (s.keepOriginal.applyLayerMarker now).jobTimer.originalTimeTotal =
          s.keepOriginal.jobTimer.originalTimeTotal := by
      have stream : s.keepOriginal.jobStream = s.jobStream := by unfold keepOriginal; split <;> rfl
      have progress : s.keepOriginal.jobTimer.progressStarted = s.jobTimer.progressStarted := by
        unfold keepOriginal
        split <;> rfl
      have time : s.keepOriginal.jobTimer.elapsedSeconds + sinceStart s.keepOriginal.jobTimer now =
          s.jobTimer.elapsedSeconds + sinceStart s.jobTimer now := by
        unfold keepOriginal
        split <;> rfl
      have zero_lt : (0 : Int) < 2 ^ 31 := by decide
      unfold applyLayerMarker
      rw [stream, progress]
      split
      case isTrue =>
        refine ⟨⟨⟨?_, Int.le_refl _⟩, kept.1.total, ⟨Int.le_refl _, zero_lt⟩, kept.1.original⟩, ?_, rfl⟩
        case refine_1 => exact Int.le_trans kept.1.left.1 kept.1.left.2
        case refine_2 =>
          rw [sinceStart_of_neg fun h => Int.lt_irrefl _ h.2]
          rfl
      case isFalse => exact ⟨kept.1, time, rfl⟩
    refine applyElapsedMarker_inRange layer fun hv => ?_
    have stream : (s.keepOriginal.applyLayerMarker now).jobStream = s.jobStream := by
      unfold applyLayerMarker keepOriginal
      split <;> split <;> rfl
    rw [elapsedMarker, stream]
    rw [stream] at hv
    rw [original, kept.2, elapsed]
    exact fits hv

variable {env : PollEnv}

theorem streamCalls_inRange (range : s.timing.InRange) (fits : ∀ call ∈ s.streamCalls env, call.Fits) :
    (s.pollStream env).2.timing.InRange ∧
    ∀ call ∈ s.streamCalls env, ∀ n ∈ call.sums, InInt n := by
  unfold pollStream streamCalls at *
  split
  case isTrue => exact ⟨range, List.forall_mem_nil _⟩
  case isFalse h =>
    rw [if_neg h] at fits
    have read : (s.readStream env.buffer).2.2.timing.InRange := range
    generalize s.readStream env.buffer = r at fits read ⊢
    obtain ⟨rc, line, s₁⟩ := r
    dsimp only at fits read ⊢
    split
    case isTrue hn =>
      rw [if_pos (Int.le_of_lt hn)]
      exact ⟨Timing.Change.inRange .stop read, List.forall_mem_nil _⟩
    case isFalse hn =>
      split
      case isTrue hz =>
        rw [if_pos (Int.le_of_eq hz)]
        split
        case isTrue  => exact ⟨read, List.forall_mem_nil _⟩
        case isFalse => exact ⟨read, List.forall_mem_nil _⟩
      case isFalse hz =>
        rw [if_neg (by omega)] at fits ⊢
        have sent : (s₁.setStreaming.countStarvation.send .streamer line).2.timing.InRange := by
          change s₁.setStreaming.countStarvation.timing.InRange
          rw [timing_countStarvation]
          exact read
        cases hs : s₁.setStreaming.countStarvation.send .streamer line with | mk rc s₂
        rw [hs] at fits sent
        simp only [streamLine, hs] at fits sent ⊢
        split
        case isTrue hz =>
          rw [if_neg (not_not.mpr hz)] at fits ⊢
          have ⟨markers, fits⟩ := List.forall_mem_cons.mp fits
          have update := fits _ List.mem_cons_self
          have ⟨range, sums⟩ := applyGcodeTimingMarkers_inRange
            (Timing.Change.inRange (.of_eq timing_startLineWait) sent) markers
          have ⟨range', sums'⟩ := updateJobTiming_inRange range update
          refine ⟨range', List.forall_mem_cons.mpr ⟨sums, List.forall_mem_cons.mpr ⟨sums', ?_⟩⟩⟩
          exact List.forall_mem_nil _
        case isFalse =>
          split
          case isTrue  => exact ⟨sent, List.forall_mem_nil _⟩
          case isFalse => exact ⟨Timing.Change.inRange .stop sent, List.forall_mem_nil _⟩

theorem timingCalls_inRange (range : s.timing.InRange) (fits : ∀ call ∈ s.timingCalls env, call.Fits) :
    (s.pollStreamer env).2.timing.InRange ∧
    ∀ call ∈ s.timingCalls env, ∀ n ∈ call.sums, InInt n := by
  unfold pollStreamer timingCalls at *
  split
  case isTrue => exact ⟨range, List.forall_mem_nil _⟩
  case isFalse h =>
    rw [if_neg h] at fits
    have ⟨update, fits⟩ := List.forall_mem_cons.mp fits
    have ⟨range, sums⟩ := updateJobTiming_inRange range update
    rw [List.forall_mem_cons]
    generalize s.updateJobTiming (env.clock 0) = s₁ at fits range ⊢
    suffices h : _ ∧ ∀ call ∈ timingCalls.rest env s₁, ∀ n ∈ call.sums, InInt n from
      ⟨h.1, sums, h.2⟩
    unfold timingCalls.rest at *
    dsimp only
    split
    case isTrue => exact ⟨Timing.Change.inRange .stop range, List.forall_mem_nil _⟩
    case isFalse he =>
      rw [if_neg he] at fits
      split
      case isTrue hp =>
        rw [if_pos hp] at fits
        have ⟨range, sums⟩ := updateJobTiming_inRange range (fits _ List.mem_cons_self)
        exact ⟨range, List.forall_mem_cons.mpr ⟨sums, List.forall_mem_nil _⟩⟩
      case isFalse hp =>
        rw [if_neg hp] at fits
        split
        case isTrue hf =>
          rw [if_pos (by simp [hf])]
          exact ⟨range, List.forall_mem_nil _⟩
        case isFalse hf =>
          split
          case isTrue ha =>
            rw [if_pos (by simp [ha])]
            exact ⟨Timing.Change.inRange .reset range, List.forall_mem_nil _⟩
          case isFalse ha =>
            split
            case isTrue hd =>
              rw [if_pos (by simp [hd])]
              exact ⟨Timing.Change.inRange (.of_eq timing_pollJobPrepare) range, List.forall_mem_nil _⟩
            case isFalse hd =>
              split
              case isTrue hw =>
                rw [if_neg (by simp [hf, ha, not_not.mp hd, hw])] at fits ⊢
                exact @streamCalls_inRange s₁.clearWait env range fits
              case isFalse hw =>
                rw [if_pos (by simp [hw])]
                exact ⟨Timing.Change.inRange (.of_eq timing_applyWait) range, List.forall_mem_nil _⟩

end Range

-- The calls of the timing code in a call of the main loop.
def opCalls (s : Service) : Op → List TimingCall
  | .pollJob env poll =>
    if s.abortRequested || s.pauseResumeBusy || s.gcodeQueueActive then []
    else (s.connect env).timingCalls poll
  | _ => []

-- The print time of a job is an `int`.
def IntTime : Op → Prop
  | .command (.job cmd) _ _ => ∀ t ∈ cmd.printTime, t < 2 ^ 31
  | _                       => True

instance : DecidablePred IntTime
  | .command (.job cmd) _ _      => inferInstanceAs (Decidable (∀ t ∈ cmd.printTime, t < 2 ^ 31))
  | .command (.gcode _) _ _      => .isTrue trivial
  | .command (.runMacro _) _ _   => .isTrue trivial
  | .command .abort _ _          => .isTrue trivial
  | .command .pause _ _          => .isTrue trivial
  | .command .resume _ _         => .isTrue trivial
  | .command .unknown _ _        => .isTrue trivial
  | .openMotion _                => .isTrue trivial
  | .pollMotion _                => .isTrue trivial
  | .pollJob _ _                 => .isTrue trivial
  | .refreshDiagnostics          => .isTrue trivial

def TimingFits (s : Service) (op : Op) : Prop :=
  (∀ call ∈ s.opCalls op, call.Fits) ∧ IntTime op

instance : DecidablePred FitsInt
  | .fin s m e => inferInstanceAs (Decidable (0 ≤ toInt (.fin s m e) ∧ toInt (.fin s m e) < 2 ^ 31))
  | .inf _     => .isFalse id
  | .nan       => .isFalse id

instance : DecidablePred TimingCall.Fits
  | .update _ _  => inferInstanceAs (Decidable (_ → _ → _ ∨ _))
  | .markers _ _ => inferInstanceAs (Decidable (_ → _ → _ ∧ _))

instance {op : Op} : Decidable (s.TimingFits op) :=
  inferInstanceAs (Decidable (_ ∧ _))

theorem accept_inRange {cmd : JobCommand} (range : s.timing.InRange)
    (ht : ∀ t ∈ cmd.printTime, t < 2 ^ 31) : (s.accept cmd).2.timing.InRange := by
  have zero_lt : (0 : Int) < 2 ^ 31 := by decide
  unfold accept
  split
  case isTrue  => exact range
  case isFalse =>
    split
    case isTrue  => exact range
    case isFalse =>
      split
      case h_1 => exact range
      case h_2 file _ =>
        dsimp only
        split
        case h_1 => exact range
        case h_2 =>
          unfold startJob applyMetadata
          dsimp only
          split
          case h_1 t hp =>
            split
            case isTrue hpos =>
              have lt := ht t hp
              exact ⟨⟨Int.le_of_lt hpos, Int.le_refl _⟩, lt, ⟨Int.le_refl _, zero_lt⟩,
                Int.le_of_lt hpos, lt⟩
            case isFalse => exact Timing.Change.inRange .reset range
          case h_2 => exact Timing.Change.inRange .reset range

theorem exec_inRange {op : Op} (range : s.timing.InRange) (fits : s.TimingFits op) :
    (s.exec op).timing.InRange ∧ ∀ call ∈ s.opCalls op, ∀ n ∈ call.sums, InInt n := by
  have calm {s' : Service} (h : Calm s s') : s'.timing.InRange := h.inRange range
  cases op
  case openMotion success => exact ⟨by cases success <;> exact range, fun _ h => absurd h List.not_mem_nil⟩
  case command cmd env latency =>
    refine ⟨?_, fun _ h => absurd h List.not_mem_nil⟩
    change ((s.connect env).dispatch cmd).2.timing.InRange
    cases cmd
    case gcode lines  => exact calm (.of_eq (@timing_runGcode (s.connect env) lines))
    case runMacro cmd => exact calm (@calm_runMacro (s.connect env) cmd)
    case job cmd      => exact @accept_inRange (s.connect env) cmd range fits.2
    case abort        => exact calm (@calm_abort (s.connect env))
    case pause        => exact calm (.of_eq (@timing_pause (s.connect env)))
    case resume       => exact calm (.of_eq (@timing_resume (s.connect env)))
    case unknown      => exact range
  case pollMotion env => exact ⟨calm (@calm_pollMotion (s.connect env)), fun _ h => absurd h List.not_mem_nil⟩
  case pollJob env poll =>
    have fits := fits.1
    have calls : s.opCalls (.pollJob env poll) =
        if s.abortRequested || s.pauseResumeBusy || s.gcodeQueueActive then []
        else (s.connect env).timingCalls poll := rfl
    rw [calls] at fits ⊢
    change ((s.connect env).pollJob poll).2.timing.InRange ∧ _
    unfold pollJob
    by_cases ha : s.abortRequested
    case pos =>
      rw [if_pos (show (s.connect env).abortRequested from ha), if_pos (by simp [ha])]
      exact ⟨calm (@calm_abort (s.connect env)), List.forall_mem_nil _⟩
    case neg =>
      rw [if_neg (show ¬(s.connect env).abortRequested from ha)]
      by_cases hb : s.pauseResumeBusy
      case pos =>
        rw [if_pos (show (s.connect env).pauseResumeBusy from hb), if_pos (by simp [hb])]
        exact ⟨range, List.forall_mem_nil _⟩
      case neg =>
        rw [if_neg (show ¬(s.connect env).pauseResumeBusy from hb)]
        by_cases hq : s.gcodeQueueActive
        case pos =>
          rw [if_pos (show (s.connect env).gcodeQueueActive from hq), if_pos (by simp [hq])]
          exact ⟨calm (.of_eq (@timing_pollGcode (s.connect env))), List.forall_mem_nil _⟩
        case neg =>
          have runs : ¬(s.abortRequested || s.pauseResumeBusy || s.gcodeQueueActive) := by
            simp [ha, hb, hq]
          rw [if_neg runs] at fits ⊢
          rw [if_neg (show ¬(s.connect env).gcodeQueueActive from hq)]
          exact @timingCalls_inRange (s.connect env) poll range fits
  case refreshDiagnostics => exact ⟨range, fun _ h => absurd h List.not_mem_nil⟩

-- As long as the elapsed time fits an `int`, the time left is never more than the total time, no
-- time is negative, and no sum or difference of the timing code overflows.
theorem timing_in_range {ops : List Op} (h : Along TimingFits init ops) :
    (0 ≤ (init.run ops).status.timeLeft ∧
      (init.run ops).status.timeLeft ≤ (init.run ops).status.timeTotal) ∧
    0 ≤ (init.run ops).jobTimer.elapsedSeconds ∧
    Along (fun s op => ∀ call ∈ s.opCalls op, ∀ n ∈ call.sums, InInt n) init ops := by
  have idle : init.timing.InRange := by constructor <;> decide
  generalize init = s at h idle ⊢
  induction ops generalizing s
  case nil => exact ⟨idle.left, idle.elapsed.1, trivial⟩
  case cons op ops ih =>
    have ⟨range, sums⟩ := exec_inRange idle h.1
    have ⟨left, elapsed, along⟩ := ih (s.exec op) h.2 range
    exact ⟨left, elapsed, sums, along⟩

-- A job with a known print time, and the polls until its first layer is printed.
def timedJob : List Op :=
  [.openMotion true,
   .command (.job {
     file      := "a.gcode"
     jobFile   := some {
       reads := (ofString ";LAYER:0\nG1\n").map some
       text  := ";LAYER:0\nG1\n" }
     printTime := some 100 }) {} 0] ++
  (List.replicate 13 [.pollJob {} { clock := fun _ => 1000 },
    .pollMotion (.ofLines ["ok", "ok", "ok"])]).flatten

-- The job is paused, and the next poll reads this from the clock.
def timedPause (now : Int) : List Op :=
  timedJob ++
  [.command .pause {} 0,
   .pollMotion (.ofLines ["ok"]),
   .pollMotion (.ofLines ["X:1 Y:2 Z:3 E:4", "ok", "ok"])] ++
  List.replicate 6 (.pollMotion (.ofLines ["ok", "ok", "ok"])) ++
  [.pollJob {} { clock := fun _ => now }]

theorem timedPause_in_range :
    (init.run (timedPause 1040)).status.timeLeft = 60 ∧
    (init.run (timedPause 1040)).status.timeLeft ≤ (init.run (timedPause 1040)).status.timeTotal := by
  have fits : Along TimingFits init (timedPause 1040) := by decide +kernel
  exact ⟨by decide +kernel, (timing_in_range fits).1.2⟩

-- The clock jumps forward, and the time of the job is negative afterwards.
theorem timedPause_not_in_range : ¬∀ ops, (∀ op ∈ ops, IntTime op) →
    (0 ≤ (init.run ops).status.timeLeft ∧
      (init.run ops).status.timeLeft ≤ (init.run ops).status.timeTotal) ∧
    0 ≤ (init.run ops).jobTimer.elapsedSeconds ∧
    Along (fun s op => ∀ call ∈ s.opCalls op, ∀ n ∈ call.sums, InInt n) init ops := by
  intro h
  have range := h (timedPause (1000 + 2 ^ 32 - 50)) (by decide +kernel)
  have elapsed : (init.run (timedPause (1000 + 2 ^ 32 - 50))).jobTimer.elapsedSeconds = -50 := by
    decide +kernel
  rw [elapsed] at range
  exact absurd range.2.1 (by decide)

end Deneb.Service
