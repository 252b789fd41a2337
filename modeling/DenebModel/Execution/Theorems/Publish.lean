import DenebModel.Execution.Theorems.Run
import DenebModel.Wire.Theorems.Status
import Mathlib.Data.List.Induction

namespace Deneb

open CString BinaryFloat Relation

namespace Status

variable {status status' : Status} {phase : PrintPhase}

theorem Sized.setReq (h : status.Sized) {req : CString} (hr : req.length < 32) :
    Sized { status with req := req } :=
  { h with req := hr }

theorem length_reqForPhase : (PrintControl.reqForPhase phase).length < 32 := by
  cases phase <;> decide

theorem Sized.setPhase (h : status.Sized) : (status.setPhase phase).Sized :=
  h.setReq length_reqForPhase

theorem Sized.setDetail (h : status.Sized) {error : Error} (hd : error.detail.length < 128) :
    Sized { status with error := error } :=
  { h with detail := hd }

theorem length_make {code : ErrorCode} {detail : CString} :
    (Error.make code detail).detail.length < 128 :=
  fit_length_lt detail (by decide)

theorem length_fromMarlinLine {line : CString} : (Error.fromMarlinLine line).detail.length < 128 := by
  unfold Error.fromMarlinLine
  repeat' split
  all_goals exact length_make

theorem Sized.error (h : status.Sized) {code : ErrorCode} {detail : CString} :
    (JobLifecycle.error status (Error.make code detail)).Sized :=
  h.setPhase.setDetail length_make

theorem Sized.setJob (h : status.Sized) (file source uuid cloudJobId : CString) :
    Sized { status with
      file       := fit 128 file
      source     := fit 32 source
      uuid       := fit 64 uuid
      cloudJobId := fit 96 cloudJobId } :=
  { h with
    file       := fit_length_lt file (by decide)
    source     := fit_length_lt source (by decide)
    uuid       := fit_length_lt uuid (by decide)
    cloudJobId := fit_length_lt cloudJobId (by decide) }

theorem Sized.start (h : status.Sized) {file source uuid cloudJobId : CString}
    {bedTarget headTarget : BinaryFloat} :
    (JobLifecycle.start status file source uuid cloudJobId bedTarget headTarget).Sized :=
  ((@setPhase _ .preparing h).setDetail (@length_make .none [])).setJob _ _ _ _

theorem Sized.complete (h : status.Sized) : (JobLifecycle.complete status).Sized :=
  (@setPhase _ .complete h).setJob "none" [] [] []

theorem Sized.abort (h : status.Sized) : (JobLifecycle.abort status).Sized :=
  ((@setPhase _ .idle h).setDetail (@length_make .none [])).setJob "none" [] [] []

theorem Sized.pause (h : status.Sized) : (PauseResume.pause status).2.Sized := by
  unfold PauseResume.pause
  split
  case h_1 | h_2 | h_3 | h_4 => exact h.setPhase
  all_goals exact h

theorem Sized.resume (h : status.Sized) {waits : Bool} : (PauseResume.resume status waits).2.Sized := by
  unfold PauseResume.resume
  split
  case isTrue  => exact h
  case isFalse => exact h.setPhase

theorem Sized.applyStatus (h : status.Sized) {wait : HeaterWait} : (wait.applyStatus status).Sized := by
  unfold HeaterWait.applyStatus
  split
  case isTrue  => exact h
  case isFalse =>
    refine h.setReq ?_
    split
    case isTrue  => exact length_reqForPhase
    case isFalse => exact h.req

theorem Sized.parseVersionLine (h : status.Sized) {line : CString}
    (hp : StatusParser.parseVersionLine line status = some status') : status'.Sized := by
  unfold StatusParser.parseVersionLine at hp
  split at hp
  case h_1 =>
    cases hp
    exact { h with
      machineType := fit_length_lt _ (by decide)
      firmware    := fit_length_lt _ (by decide) }
  case h_2 =>
    split at hp
    case h_1 => cases hp; exact { h with firmware := fit_length_lt _ (by decide) }
    case h_2 => split at hp <;> cases hp; exact h

theorem Sized.parseMarlinLine (h : status.Sized) {line : CString} :
    (StatusParser.parseMarlinLine status line).2.Sized := by
  unfold StatusParser.parseMarlinLine
  split
  case isTrue  => exact h
  case isFalse =>
    split
    case isTrue  => exact (h.setReq (@length_reqForPhase .error)).setDetail length_fromMarlinLine
    case isFalse =>
      split
      case h_1 hp => exact h.parseVersionLine hp
      case h_2 =>
        split
        case h_1 hp =>
          unfold StatusParser.parseTemperatures at hp
          dsimp only at hp
          split at hp <;> cases hp
          exact h
        case h_2 =>
          split
          case h_1 hp =>
            unfold StatusParser.parseHomeDistance at hp
            dsimp only at hp
            split at hp <;> try cases hp
            split at hp <;> cases hp
            exact h
          case h_2 => split <;> exact h

end Status

namespace Service

variable {s s' s₁ : Service} {p : Producer} {command : CString} {rc : Int} {kind : PolicyKind}

section Steps

theorem status_of_send (h : s.send p command = (rc, s₁)) : s₁.status = s.status :=
  (congrArg (·.2.status) h).symm

theorem sized_of_send (h : s.send p command = (rc, s₁)) (hs : s.status.Sized) : s₁.status.Sized := by
  rwa [status_of_send h]

theorem status_setPolicy {run : PolicyRun} : (s.setPolicy kind run).status = s.status := by
  cases kind <;> rfl

theorem sized_applyWait (hs : s.status.Sized) : s.applyWait.status.Sized :=
  hs.applyStatus

theorem sized_failPolicy (hs : s.status.Sized) : (s.failPolicy kind rc).status.Sized := by
  cases kind <;> exact hs.error

theorem sized_completePolicy (hs : s.status.Sized) : (s.completePolicy kind).status.Sized := by
  cases kind
  case abort  => exact hs.abort
  case finish => exact hs.complete
  case pause  => exact hs.pause
  case resume => exact hs.setPhase

theorem sized_endPauseProbe (hs : s.status.Sized) : s.endPauseProbe.status.Sized := by
  unfold endPauseProbe beginPauseCleanupFromCurrentPosition
  dsimp only
  split <;> exact hs

theorem PolicyStep.sized (h : PolicyStep s s') (hs : s.status.Sized) : s'.status.Sized := by
  have advance {s : Service} {kind : PolicyKind} (hs : s.status.Sized) : (s.advancePolicy kind).status.Sized := by
    rwa [advancePolicy, status_setPolicy]
  cases h
  case send h         => exact advance (sized_of_send h hs)
  case fail h         => exact sized_failPolicy (sized_of_send h hs)
  case done           => exact sized_completePolicy hs
  case heat h         => exact (sized_of_send h hs).applyStatus
  case heatFail h     => exact (sized_of_send h hs).error
  case leftover h     => exact advance (@sized_of_send s.clearWait _ _ _ _ h hs)
  case leftoverFail h => exact sized_failPolicy (@sized_of_send s.clearWait _ _ _ _ h hs)
  case probe h        =>
    have sent := sized_of_send h hs
    exact sent
  case probeFail h    => exact (sized_of_send h hs).error
  case probed         => exact sized_endPauseProbe hs

theorem sized_handleLine {line : CString} (hs : s.status.Sized) :
    (s.handleLine line).2.status.Sized := by
  have parsed := @Status.Sized.parseMarlinLine _ hs line
  have waited : (if s.heaterWait.ready (StatusParser.parseMarlinLine s.status line).2
      then (StatusParser.parseMarlinLine s.status line).2
      else s.heaterWait.applyStatus (StatusParser.parseMarlinLine s.status line).2).Sized := by
    split
    case isTrue  => exact parsed
    case isFalse => exact parsed.applyStatus
  unfold handleLine
  dsimp only
  split
  case isTrue  => exact waited
  case isFalse => exact { waited with flowLastResponse := fit_length_lt line (by decide) }

theorem RuntimeStep.sized (h : RuntimeStep s s') (hs : s.status.Sized) : s'.status.Sized := by
  cases h
  case line   => exact sized_handleLine hs
  case resync => exact hs
  case error  => exact hs.setDetail Status.length_make

theorem sized_refreshManualStatus (hs : s.status.Sized) : s.refreshManualStatus.status.Sized := by
  unfold refreshManualStatus
  split
  case isTrue  => exact hs
  case isFalse => split <;> exact hs.setReq (by decide)

theorem sized_startAbort (hs : s.status.Sized) : s.startAbort.status.Sized := by
  unfold startAbort
  dsimp only
  split
  case isTrue  => exact @Status.Sized.setPhase _ .aborting hs
  case isFalse => exact (@Status.Sized.setPhase _ .aborting hs).abort

theorem MotionStep.sized (h : MotionStep s s') (hs : s.status.Sized) : s'.status.Sized := by
  cases h
  case quiet h      => cases h <;> exact hs
  case policy h     => exact h.sized hs
  case manualStatus => exact sized_refreshManualStatus hs
  case statusProbe  => exact hs
  case applyWait    => exact hs.applyStatus
  case waitOver     => exact hs

theorem PollStep.sized (h : PollStep s s') (hs : s.status.Sized) : s'.status.Sized := by
  cases h
  case motion h  => exact h.sized hs
  case runtime h => exact h.sized hs
  case abort     => exact sized_startAbort hs
  case dropAbort => exact hs

theorem sized_applyAcceptedHeaterTarget {status : Status} {line : CString} (hs : status.Sized) :
    (applyAcceptedHeaterTarget status line).Sized := by
  have ⟨_, _, he⟩ := applyAcceptedHeaterTarget_eq status line
  rw [he]
  exact hs

theorem sized_advanceQueue {entry : GcodeQueueEntry} (hs : s.status.Sized) :
    (s.advanceQueue entry).status.Sized := by
  have target := @sized_applyAcceptedHeaterTarget s.status entry.command hs
  unfold advanceQueue
  dsimp only
  split
  case isTrue  => exact target.applyStatus
  case isFalse => split <;> [exact target.applyStatus; exact target]

theorem QueueStep.sized (h : QueueStep s s') (hs : s.status.Sized) : s'.status.Sized := by
  cases h
  case send h => exact sized_advanceQueue (sized_of_send h hs)
  case fail h => exact (sized_of_send h hs).setDetail Status.length_make
  case done   => exact hs

theorem sized_startLineWait (hs : s.status.Sized) : s.startLineWait.status.Sized := by
  unfold startLineWait
  dsimp only
  split
  case isTrue  => exact sized_applyWait (by exact hs)
  case isFalse =>
    split
    case isTrue  => exact sized_applyWait (by exact hs)
    case isFalse => exact hs

theorem StreamStep.sized (h : StreamStep s s') (hs : s.status.Sized) : s'.status.Sized := by
  have streaming : s.setStreaming.status.Sized := hs.setPhase
  cases h
  case prepare h =>
    have sent := sized_of_send h hs
    unfold advancePrepare advanceJobIndex
    split <;> exact sent
  case prepareFail h => exact (sized_of_send h hs).error
  case homeSent | homeDrained | heated | startupSent | startupDrained => exact hs
  case readFail => exact hs.error
  case readEnd => exact hs.setPhase
  case stream h => exact sized_startLineWait (sized_of_send h streaming)
  case streamFail h => exact (sized_of_send h streaming).error

theorem JobStep.sized (h : JobStep s s') (hs : s.status.Sized) : s'.status.Sized := by
  cases h
  case poll h     => exact h.sized hs
  case dropWait   => exact hs
  case queue h    => exact h.sized hs
  case errorExit  => exact hs
  case streaming  => exact hs.setPhase
  case stream h   => exact h.sized hs

theorem GcodeStep.sized (h : GcodeStep s s') (hs : s.status.Sized) : s'.status.Sized := by
  cases h
  case queue h      => exact h.sized hs
  case applyWait    => exact hs.applyStatus
  case waitOver     => exact hs
  case manualStatus => exact sized_refreshManualStatus hs

theorem MacroStep.sized {cmd : MacroCommand} (h : MacroStep cmd s s') (hs : s.status.Sized) :
    s'.status.Sized := by
  cases h
  case poll h    => exact h.sized hs
  case send      => exact hs
  case startWait =>
    unfold startMacroWait
    dsimp only
    split <;> exact hs
  case fail      => exact hs.setDetail Status.length_make

theorem sized_of_steps {r : Service → Service → Prop}
    (hr : ∀ {s s'}, r s s' → s.status.Sized → s'.status.Sized) (h : ReflTransGen r s s')
    (hs : s.status.Sized) : s'.status.Sized := by
  induction h
  case refl         => exact hs
  case tail step ih => exact hr step ih

end Steps

section Runs

theorem sized_accept {cmd : JobCommand} (hs : s.status.Sized) : (s.accept cmd).2.status.Sized := by
  unfold accept
  split
  case isTrue  => exact hs
  case isFalse =>
    split
    case isTrue  => exact hs
    case isFalse =>
      split
      case h_1 => exact hs.setDetail Status.length_make
      case h_2 =>
        dsimp only
        split
        case h_1 => exact hs
        case h_2 file _ _ _ =>
          have reset : (resetForJob { s with jobStream := .open file } cmd).status.Sized := hs.start
          unfold startJob applyMetadata
          dsimp only
          split
          case h_1 => split <;> exact reset
          case h_2 => exact reset

theorem sized_abort (hs : s.status.Sized) : s.abort.2.status.Sized := by
  unfold abort
  split
  case isTrue  => exact hs
  case isFalse => exact sized_startAbort hs

theorem sized_pause (hs : s.status.Sized) : s.pause.2.status.Sized := by
  have paused := hs.pause
  unfold pause
  split
  case isTrue  => exact hs
  case isFalse =>
    split
    case isTrue  => exact hs.setPhase
    case isFalse =>
      dsimp only
      split
      case isTrue  => exact hs
      case isFalse => split <;> exact paused

theorem sized_resume (hs : s.status.Sized) : s.resume.2.status.Sized := by
  unfold resume
  split
  case isTrue  => exact hs
  case isFalse =>
    split
    case isTrue =>
      dsimp only
      split
      case isTrue  => exact hs
      case isFalse => exact hs.resume
    case isFalse =>
      split
      case isTrue  => exact hs
      case isFalse =>
        have resumed := @Status.Sized.resume { s.status with headTSet := s.pausedNozzleSetpoint } hs
          (lt zero s.pausedNozzleSetpoint)
        dsimp only
        split <;> exact resumed

theorem sized_runGcode {lines : List CString} (hs : s.status.Sized) :
    (s.runGcode lines).2.status.Sized := by
  obtain h | ⟨_, h | ⟨active, steps⟩⟩ := @runGcode_steps s lines
  case inl     => rwa [h]
  case inr.inl => rw [h]; exact hs
  case inr.inr =>
    refine sized_of_steps GcodeStep.sized steps ?_
    have ⟨_, _, he⟩ := foldl_applyAcceptedHeaterTarget
      (lines.flatMap fun line => rewriteEntries (.line line)) s.status
    refine sized_refreshManualStatus ?_
    rw [show ({ s.clearQueue with gcodeQueue := _ } : Service).status = s.status from rfl, he]
    exact hs

theorem sized_exec {op : Op} (hs : s.status.Sized) : (s.exec op).status.Sized := by
  cases op
  case openMotion success => cases success <;> exact hs
  case command cmd env latency =>
    have dispatched : ((s.connect env).dispatch cmd).2.status.Sized := by
      cases cmd
      case gcode    => exact sized_runGcode hs
      case runMacro => exact sized_of_steps MacroStep.sized runMacro_steps hs
      case job      => exact sized_accept hs
      case abort    => exact sized_abort hs
      case pause    => exact sized_pause hs
      case resume   => exact sized_resume hs
      case unknown  => exact hs
    exact dispatched
  case pollMotion         => exact sized_of_steps PollStep.sized pollMotion_steps hs
  case pollJob            => exact sized_of_steps JobStep.sized pollJob_steps hs
  case refreshDiagnostics => exact hs

theorem run_sized {ops : List Op} : (init.run ops).status.Sized := by
  induction ops using List.reverseRec
  case nil => constructor <;> decide
  case append_singleton ops op ih =>
    rw [run, List.foldl_append]
    exact sized_exec ih

-- The status of a reachable state is published exactly if its values leave room for the format.
theorem status_published {ops : List Op} {size : Nat} (h : 1600 ≤ size) :
    ((init.run ops).status.serializeFrame size).isSome ↔ (init.run ops).status.width ≤ 844 :=
  run_sized.serializeFrame_isSome h

-- A job whose texts are as long as their arrays, and what the controller reports during the job.
def longJob : List Op :=
  [.openMotion true,
   .command (.job {
     file       := ofString "/mnt/sda1/" ++ List.replicate 111 97 ++ ofString ".gcode"
     source     := List.replicate 31 115
     uuid       := List.replicate 63 117
     cloudJobId := List.replicate 95 99
     jobFile    := some { reads := (ofString "G1\n").map some, text := "G1\n" } }) {} 0]

def longJobReports : List Op :=
  [.pollMotion (.ofLines [ofString "FIRMWARE_NAME:" ++ List.replicate 63 102,
    ofString "Error:" ++ List.replicate 121 101, ofString "ok" ++ List.replicate 93 111])]

theorem longJob_published : ((init.run longJob).status.serializeFrame 1600).isSome :=
  (status_published (by decide)).mpr (by decide +kernel)

theorem longJob_silent :
    ¬∀ ops size, 1600 ≤ size → ((init.run ops).status.serializeFrame size).isSome := by
  intro h
  have fits := (run_sized.serializeFrame_isSome (by decide)).mp
    (h (longJob ++ longJobReports) 1600 (by decide))
  exact absurd fits (by decide +kernel)

end Runs

end Service

end Deneb
