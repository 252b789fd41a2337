import DenebModel.Execution.Lifecycle
import DenebModel.Execution.Theorems.Step

namespace Deneb.Service

open CString BinaryFloat Relation

variable {s s' s₁ : Service} {kind : PolicyKind} {rc : Int}

-- A step of the service is a step of its lifecycle, with the events that it records.
def Refines (step : Lifecycle → List Event → Lifecycle → Prop) (s s' : Service) : Prop :=
  ∃ events, s'.trace = s.trace ++ events ∧ step s.lifecycle events s'.lifecycle

section Functions

theorem policy_setPolicy_eq {run : PolicyRun} :
    (s.setPolicy kind run).policy = fun k => if k = kind then run else s.policy k := by
  funext k
  cases kind <;> cases k <;> rfl

theorem lifecycle_setPolicy {run : PolicyRun} :
    (s.setPolicy kind run).lifecycle = s.lifecycle.setPolicy kind run := by
  apply Lifecycle.ext
  case policy => exact policy_setPolicy_eq
  all_goals cases kind <;> rfl

theorem trace_setPolicy {run : PolicyRun} : (s.setPolicy kind run).trace = s.trace := by
  cases kind <;> rfl

theorem lifecycle_advancePolicy : (s.advancePolicy kind).lifecycle = s.lifecycle.advance kind :=
  lifecycle_setPolicy

theorem lifecycle_stopPolicy : (s.stopPolicy kind).lifecycle = s.lifecycle.stop kind :=
  lifecycle_setPolicy

theorem isAutoAbort_sendErrorCode : isAutoAbort (sendErrorCode rc) = false := by
  unfold sendErrorCode
  split <;> rfl

theorem faulted_setError_send {detail : CString} :
    (s.setError (Error.make (sendErrorCode rc) detail)).faulted = false := by
  simp [faulted, setError, JobLifecycle.error, Error.make, isAutoAbort_sendErrorCode]

-- An error of a failed send changes the state only.
theorem lifecycle_setError_send {detail : CString} :
    (s.setError (Error.make (sendErrorCode rc) detail)).lifecycle =
      { s.lifecycle with state := .error, faulted := false } := by
  apply Lifecycle.ext
  case faulted => exact faulted_setError_send
  all_goals rfl

-- What the end of a failed policy changes besides the policy.
theorem lifecycle_failPolicy :
    ∃ waits : Bool, (waits → s.heaterWait.active) ∧
    (s.failPolicy kind rc).lifecycle = { s.lifecycle.stop kind with
      state          := .error
      faulted        := false
      waits          := waits
      abortRequested := if kind = .abort then false else s.abortRequested } := by
  have failed := @lifecycle_setError_send ((s.stopPolicy kind).record [.policyFailed kind]) rc
    (policyErrorDetail kind)
  rw [show ((s.stopPolicy kind).record [.policyFailed kind]).lifecycle = _ from
    lifecycle_stopPolicy] at failed
  cases kind
  case abort =>
    exact ⟨false, nofun,
      congrArg (fun l : Lifecycle => { l with waits := false, abortRequested := false }) failed⟩
  case finish =>
    exact ⟨false, nofun, congrArg (fun l : Lifecycle => { l with waits := false }) failed⟩
  case pause  => exact ⟨s.heaterWait.active, id, failed⟩
  case resume => exact ⟨s.heaterWait.active, id, failed⟩

theorem trace_failPolicy : (s.failPolicy kind rc).trace = s.trace ++ [.policyFailed kind] := by
  cases kind <;> rfl

theorem isSilent_of_mem_cleared {slots : List Nat} :
    ∀ e ∈ slots.map Event.cleared, e.isSilent := by
  simp only [List.mem_map, forall_exists_index, and_imp, forall_apply_eq_imp_iff₂]
  exact fun _ _ => rfl

theorem pause_status (status : Status) :
    ∃ req, (PauseResume.pause status).2 =
      { status with state := Lifecycle.pausedState status.state, req := req } := by
  cases h : status.state
  all_goals simp only [PauseResume.pause, Lifecycle.pausedState, h]
  case preparing | printing | pausing | paused => exact ⟨_, rfl⟩
  all_goals exact ⟨status.req, by rw [← h]⟩

theorem lifecycle_completePolicy :
    (s.completePolicy kind).lifecycle = match kind with
      | .abort  => { s.lifecycle.stop .abort with
          state          := .idle
          faulted        := false
          waits          := false
          abortRequested := false }
      | .finish => { s.lifecycle.stop .finish with
          state          := .complete
          job            := false
          waits          := false
          abortRequested := false }
      | .pause  => { s.lifecycle.stop .pause with state := Lifecycle.pausedState s.status.state }
      | .resume => { s.lifecycle.stop .resume with state := .printing, positionSaved := false } := by
  have stopped := @lifecycle_stopPolicy s kind
  cases kind
  case abort =>
    exact congrArg (fun l : Lifecycle => { l with
      state := .idle, faulted := false, waits := false, abortRequested := false }) stopped
  case finish =>
    exact congrArg (fun l : Lifecycle => { l with
      state := .complete, job := false, waits := false, abortRequested := false }) stopped
  case pause =>
    have ⟨req, paused⟩ := pause_status ((s.stopPolicy .pause).record [.policyDone .pause]).status
    unfold completePolicy
    dsimp only
    rw [paused]
    exact congrArg (fun l : Lifecycle => { l with state := Lifecycle.pausedState s.status.state })
      stopped
  case resume =>
    exact congrArg (fun l : Lifecycle => { l with state := .printing, positionSaved := false })
      stopped

theorem trace_completePolicy :
    ∃ events, (s.completePolicy kind).trace = s.trace ++ .policyDone kind :: events ∧
      (∀ e ∈ events, e.isSilent) ∧ (kind = .pause ∨ kind = .resume → events = []) := by
  cases kind
  case abort =>
    refine ⟨s.flow.pendingSlots.map .cleared, ?_, isSilent_of_mem_cleared, by simp⟩
    exact List.append_assoc ..
  case finish =>
    refine ⟨s.flow.pendingSlots.map .cleared, ?_, isSilent_of_mem_cleared, by simp⟩
    exact List.append_assoc ..
  case pause  => exact ⟨[], rfl, (List.forall_mem_nil _), fun _ => rfl⟩
  case resume => exact ⟨[], rfl, (List.forall_mem_nil _), fun _ => rfl⟩

theorem lifecycle_startAbort :
    s.startAbort.lifecycle = s.lifecycle.aborted s.serialReady := by
  unfold startAbort
  dsimp only
  split
  case isTrue h =>
    rw [show s.serialReady = true from h]
    apply Lifecycle.ext
    case faulted => exact (Bool.and_true _).symm
    case policy  => funext kind; cases kind <;> rfl
    all_goals rfl
  case isFalse h =>
    rw [show s.serialReady = false from Bool.eq_false_iff.mpr h]
    apply Lifecycle.ext
    case faulted => exact (Bool.and_false _).symm
    case policy  => funext kind; cases kind <;> rfl
    all_goals rfl

theorem trace_startAbort :
    ∃ events, s.startAbort.trace = s.trace ++ .aborted :: events ∧ ∀ e ∈ events, e.isSilent := by
  unfold startAbort
  dsimp only
  split
  case isTrue => exact ⟨[], rfl, (List.forall_mem_nil _)⟩
  case isFalse =>
    refine ⟨s.flow.pendingSlots.map .cleared, ?_, isSilent_of_mem_cleared⟩
    exact List.append_assoc ..

theorem lifecycle_applyWait :
    s.applyWait.lifecycle = { s.lifecycle with
      state := if s.heaterWait.active then .preparing else s.status.state } := by
  unfold applyWait HeaterWait.applyStatus
  cases h : s.heaterWait.active
  case false => rfl
  case true  => rfl

theorem lifecycle_startResumeHeat (hs : lt zero s.pausedNozzleSetpoint)
    (hi : s.resumePolicy.index = 0) :
    s.startResumeHeat.lifecycle = { s.lifecycle.advance .resume with
      waits := true
      state := .preparing } := by
  unfold startResumeHeat
  rw [lifecycle_applyWait, if_pos (show (HeaterWait.startHead _ _).active from hs)]
  apply Lifecycle.ext
  case waits  => exact hs
  case policy =>
    funext kind
    cases kind
    case resume =>
      change PolicyRun.mk _ _ _ = PolicyRun.mk _ _ _
      rw [show (s.lifecycle.policy .resume).index = 0 from hi]
      rfl
    all_goals rfl
  all_goals rfl

theorem lifecycle_failResumeHeat :
    (s.failResumeHeat rc).lifecycle = { s.lifecycle.stop .resume with
      state   := .error
      faulted := false } :=
  lifecycle_setError_send.trans
    (congrArg (fun l : Lifecycle => { l with state := .error, faulted := false })
      (@lifecycle_stopPolicy s .resume))

theorem lifecycle_endPauseProbe :
    (∃ policy, s.endPauseProbe.lifecycle =
      { s.lifecycle.begin .pause policy with probe := false, positionSaved := true }) ∨
    s.endPauseProbe.lifecycle = { s.lifecycle with probe := false, positionSaved := false } := by
  unfold endPauseProbe beginPauseCleanupFromCurrentPosition
  dsimp only
  split
  case isTrue h =>
    refine .inl ⟨.pause s.status.x s.status.y s.status.z, Lifecycle.ext rfl rfl rfl rfl rfl rfl rfl h rfl ?_⟩
    funext kind
    cases kind <;> rfl
  case isFalse h =>
    exact .inr (Lifecycle.ext rfl rfl rfl rfl rfl rfl rfl (Bool.eq_false_iff.mpr h) rfl rfl)

theorem trace_endPauseProbe : s.endPauseProbe.trace = s.trace := by
  unfold endPauseProbe beginPauseCleanupFromCurrentPosition
  dsimp only
  split
  case isTrue  => rfl
  case isFalse => rfl

theorem applyAcceptedHeaterTarget_eq (status : Status) (line : CString) :
    ∃ bed head, applyAcceptedHeaterTarget status line =
      { status with bedTSet := bed, headTSet := head } := by
  unfold applyAcceptedHeaterTarget
  split
  case h_1 => exact ⟨_, _, rfl⟩
  case h_2 => exact ⟨_, _, rfl⟩
  case h_3 => exact ⟨_, _, rfl⟩

theorem lifecycle_advanceQueue {entry : GcodeQueueEntry} (hw : ¬s.heaterWait.active) :
    (s.advanceQueue entry).lifecycle = { s.lifecycle with
      waits      := entry.waits
      queueWaits := (s.gcodeQueue.drop (s.gcodeQueueIndex + 1)).any GcodeQueueEntry.waits
      state      := if entry.waits then .preparing else s.status.state } := by
  have ⟨bed, head, accepted⟩ := applyAcceptedHeaterTarget_eq s.status entry.command
  unfold advanceQueue
  dsimp only
  rw [accepted]
  split
  case isTrue hb =>
    rw [lifecycle_applyWait, GcodeQueueEntry.waits, hb, Bool.true_or, Bool.true_and]
    rfl
  case isFalse hb =>
    split
    case isTrue hn =>
      rw [lifecycle_applyWait, GcodeQueueEntry.waits, hn, Bool.or_true, Bool.true_and]
      rfl
    case isFalse hn =>
      have none : entry.waits = false := by simp [GcodeQueueEntry.waits, hb, hn]
      rw [none]
      exact Lifecycle.ext rfl rfl rfl rfl rfl (Bool.eq_false_iff.mpr hw) rfl rfl rfl rfl

theorem trace_advanceQueue {entry : GcodeQueueEntry} :
    (s.advanceQueue entry).trace = s.trace := by
  unfold advanceQueue
  dsimp only
  split
  case isTrue => rfl
  case isFalse =>
    split
    case isTrue  => rfl
    case isFalse => rfl

theorem unsentWaits_eq {entry : GcodeQueueEntry}
    (h : s.gcodeQueue[s.gcodeQueueIndex]? = some entry) :
    s.unsentWaits = (entry.waits ||
      (s.gcodeQueue.drop (s.gcodeQueueIndex + 1)).any GcodeQueueEntry.waits) := by
  have ⟨hi, he⟩ := List.getElem?_eq_some_iff.mp h
  rw [unsentWaits, List.drop_eq_getElem_cons hi, List.any_cons, he]

theorem lifecycle_failQueue :
    (s.failQueue rc).lifecycle = { s.lifecycle with
      queue      := false
      queueWaits := false
      waits      := false
      faulted    := false } := by
  apply Lifecycle.ext
  case faulted =>
    simp [lifecycle, faulted, failQueue, clearQueue, clearWait, Error.make,
      isAutoAbort_sendErrorCode]
  all_goals rfl

theorem refreshManualStatus_manual :
    Lifecycle.ManualStep s.lifecycle s.refreshManualStatus.lifecycle := by
  unfold refreshManualStatus
  split
  case isTrue => exact .keep
  case isFalse h =>
    simp only [hasLifecycleWork, Bool.or_eq_true, beq_iff_eq, not_or] at h
    obtain ⟨⟨⟨⟨⟨⟨hj, ha⟩, hf⟩, hq⟩, hw⟩, he⟩, hc⟩ := h
    split
    case isTrue  => exact .set .preparing hj ha hf hq hw he hc (.inl rfl)
    case isFalse => exact .set .idle hj ha hf hq hw he hc (.inr rfl)

theorem trace_refreshManualStatus : s.refreshManualStatus.trace = s.trace := by
  unfold refreshManualStatus
  split
  case isTrue => rfl
  case isFalse =>
    split
    case isTrue  => rfl
    case isFalse => rfl

end Functions

section Sends

variable {p : Producer} {command : CString}

theorem send_ok_lifecycle (h : s.send p command = (0, s₁)) :
    s₁.lifecycle = s.lifecycle ∧ ∃ i, s₁.trace = s.trace ++ [.handed p command i s.jobActive] := by
  have ⟨_, _, i, he, _⟩ := send_ok h
  exact ⟨he ▸ rfl, i, he ▸ rfl⟩

theorem send_fail_lifecycle (h : s.send p command = (rc, s₁)) (hz : rc ≠ 0)
    (hf : rc ≠ MotionSender.flowFull) :
    s₁.lifecycle = s.lifecycle ∧
    ∃ events, s₁.trace = s.trace ++ events ∧ Lifecycle.Unsent s.jobActive p command events := by
  have ⟨_, _, events, he, hev⟩ := send_fail h hz hf
  refine ⟨he ▸ rfl, events, he ▸ rfl, ?_⟩
  rcases hev with ⟨rfl, _⟩ | ⟨i, rfl, _⟩
  case inl => exact .refused
  case inr => exact .failed i

theorem send_attempt :
    (s.send p command).2.lifecycle = s.lifecycle ∧
    ∃ events, (s.send p command).2.trace = s.trace ++ events ∧
      Lifecycle.Attempt s.jobActive p command events := by
  generalize hs : s.send p command = sent
  obtain ⟨rc, s₁⟩ := sent
  by_cases hz : rc = 0
  case pos =>
    have ⟨hl, i, ht⟩ := send_ok_lifecycle (hz ▸ hs)
    exact ⟨hl, _, ht, .sent i⟩
  case neg =>
    by_cases hf : rc = MotionSender.flowFull
    case pos =>
      have := send_of_flowFull (hf ▸ hs)
      exact ⟨this ▸ rfl, [], by simp [this], .unsent .refused⟩
    case neg =>
      have ⟨hl, events, ht, unsent⟩ := send_fail_lifecycle hs hz hf
      exact ⟨hl, events, ht, .unsent unsent⟩

end Sends

theorem next_of_zero {command : CString} (hp : s.resumePolicy.pending)
    (hi : s.resumePolicy.index = 0) (hc : s.resumePolicy.policy[0]? = some command) :
    s.lifecycle.Next .resume command :=
  ⟨hp, (congrArg (s.resumePolicy.policy[·]?) hi).trans hc⟩

theorem PolicyStep.refines (h : PolicyStep s s') : Refines Lifecycle.PolicyStep s s' := by
  cases h
  case send command s₁ kind hp hc _ hs =>
    have ⟨hl, i, ht⟩ := send_ok_lifecycle hs
    refine ⟨_, trace_setPolicy.trans ht, ?_⟩
    rw [lifecycle_advancePolicy, hl]
    exact .send kind i ⟨hp, hc⟩
  case fail command rc s₁ kind hz hf hp hc _ hs =>
    have ⟨hl, events, ht, unsent⟩ := send_fail_lifecycle hs hz hf
    have ⟨waits, hw, he⟩ := @lifecycle_failPolicy s₁ kind rc
    refine ⟨events ++ [.policyFailed kind], ?_, ?_⟩
    case refine_1 => rw [trace_failPolicy, ht, List.append_assoc]
    case refine_2 =>
      rw [he, hl, show s₁.abortRequested = s.abortRequested from
        congrArg Lifecycle.abortRequested hl]
      exact .fail kind waits ⟨hp, hc⟩ unsent fun h => congrArg Lifecycle.waits hl ▸ hw h
  case done kind hp hl _ _ =>
    have ⟨events, ht, silent, empty⟩ := @trace_completePolicy s kind
    refine ⟨_, ht, ?_⟩
    rw [lifecycle_completePolicy]
    cases kind
    case abort  => exact .abortDone events hp silent
    case finish => exact .finishDone events hp hl silent
    case pause  => rw [empty (.inl rfl)]; exact .pauseDone hp
    case resume => rw [empty (.inr rfl)]; exact .resumeDone hp
  case heat command s₁ hp hi _ hset hc hs =>
    have ⟨hl, i, ht⟩ := send_ok_lifecycle hs
    have ⟨_, _, _, he, _⟩ := send_ok hs
    refine ⟨_, ht, ?_⟩
    rw [lifecycle_startResumeHeat (he ▸ hset) (he ▸ hi), hl]
    exact .heat i (next_of_zero hp hi (List.head?_eq_getElem? ▸ hc))
  case heatFail hz hf hp hi _ _ hc hs =>
    have ⟨hl, events, ht, unsent⟩ := send_fail_lifecycle hs hz hf
    refine ⟨events ++ [.policyFailed .resume], ?_, ?_⟩
    case refine_1 =>
      rw [← List.append_assoc, ← ht]
      rfl
    case refine_2 =>
      rw [lifecycle_failResumeHeat, hl]
      exact .fail .resume s.heaterWait.active (next_of_zero hp hi (List.head?_eq_getElem? ▸ hc)) unsent id
  case leftover hp hi _ _ hc hs =>
    have ⟨hl, i, ht⟩ := send_ok_lifecycle hs
    refine ⟨_, trace_setPolicy.trans ht, ?_⟩
    rw [lifecycle_advancePolicy, hl]
    exact .leftover i (next_of_zero hp hi hc)
  case leftoverFail rc s₁ hz hf hp hi _ _ hc hs =>
    have ⟨hl, events, ht, unsent⟩ := send_fail_lifecycle hs hz hf
    have ⟨waits, hw, he⟩ := @lifecycle_failPolicy s₁ .resume rc
    refine ⟨events ++ [.policyFailed .resume], ?_, ?_⟩
    case refine_1 => rw [trace_failPolicy, ht, List.append_assoc]; rfl
    case refine_2 =>
      rw [he, hl, show s₁.abortRequested = s.abortRequested from
        congrArg Lifecycle.abortRequested hl]
      refine .fail .resume waits (next_of_zero hp hi hc) unsent fun h => ?_
      have : s₁.heaterWait.active = false := congrArg Lifecycle.waits hl
      simp [this] at hw
      simp [hw] at h
  case probe s₁ hp hs =>
    have ⟨hl, i, ht⟩ := send_ok_lifecycle hs
    refine ⟨_, ht, ?_⟩
    rw [show lifecycle { s₁ with pausePositionProbeSent := true } = s.lifecycle from hl]
    exact .probe i hp
  case probeFail rc s₁ hz hf hp hs =>
    have ⟨hl, events, ht, unsent⟩ := send_fail_lifecycle hs hz hf
    refine ⟨events, ht, ?_⟩
    rw [show (s₁.failPauseProbe rc).lifecycle = _ from lifecycle_setError_send,
      show lifecycle { s₁ with pausePositionProbePending := false } =
        { s.lifecycle with probe := false } from
        congrArg (fun l : Lifecycle => { l with probe := false }) hl]
    exact .probeFail hp unsent
  case probed hp _ _ =>
    rcases @lifecycle_endPauseProbe s with ⟨policy, he⟩ | he
    case inl => exact ⟨[], by rw [trace_endPauseProbe, List.append_nil], he ▸ .probed policy hp⟩
    case inr => exact ⟨[], by rw [trace_endPauseProbe, List.append_nil], he ▸ .unprobed hp⟩

theorem QueueStep.refines (h : QueueStep s s') : Refines Lifecycle.QueueStep s s' := by
  cases h
  case send entry s₁ ha hw he hs =>
    have ⟨_, _, i, hs₁, _⟩ := send_ok hs
    refine ⟨[.handed .gcodeQueue entry.command i s.jobActive], ?_, ?_⟩
    case refine_1 => rw [trace_advanceQueue, hs₁]
    case refine_2 =>
      rw [lifecycle_advanceQueue (by rw [hs₁]; exact hw), hs₁]
      refine .send _ i _ _ ha hw fun h => ?_
      rw [show s.lifecycle.queueWaits = _ from unsentWaits_eq he, Bool.or_eq_true]
      exact h
  case fail entry rc s₁ hz hf ha hw he hs =>
    have ⟨hl, events, ht, unsent⟩ := send_fail_lifecycle hs hz hf
    refine ⟨events, ht, ?_⟩
    rw [lifecycle_failQueue, hl]
    exact .fail entry.command ha hw unsent
  case done ha hw => exact ⟨[], (List.append_nil _).symm, .done ha hw⟩

theorem GcodeStep.refines (h : GcodeStep s s') : Refines Lifecycle.GcodeStep s s' := by
  cases h
  case queue h =>
    have ⟨events, ht, step⟩ := h.refines
    exact ⟨events, ht, .queue step⟩
  case applyWait hw hr =>
    refine ⟨[], (List.append_nil _).symm, .wait ?_⟩
    rw [lifecycle_applyWait, if_pos hw]
    exact .apply hw
  case waitOver => exact ⟨[], (List.append_nil _).symm, .wait .ended⟩
  case manualStatus =>
    refine ⟨[], ?_, .manual refreshManualStatus_manual⟩
    rw [trace_refreshManualStatus, List.append_nil]

section Runtime

-- The lines that report no fault leave this part of the status alone.
structure SameReport (status status' : Status) : Prop where
  state : status'.state = status.state
  fault : status'.fault = status.fault
  error : status'.error = status.error

theorem parseVersionLine_report {line : CString} {status status' : Status}
    (h : StatusParser.parseVersionLine line status = some status') : SameReport status status' := by
  unfold StatusParser.parseVersionLine at h
  split at h
  case h_1 => cases h; exact ⟨rfl, rfl, rfl⟩
  case h_2 =>
    split at h
    case h_1 => cases h; exact ⟨rfl, rfl, rfl⟩
    case h_2 =>
      split at h
      case isTrue  => cases h; exact ⟨rfl, rfl, rfl⟩
      case isFalse => contradiction

theorem parseTemperatures_report {line : CString} {status status' : Status}
    (h : StatusParser.parseTemperatures line status = some status') : SameReport status status' := by
  unfold StatusParser.parseTemperatures at h
  dsimp only at h
  split at h
  case isTrue  => contradiction
  case isFalse => cases h; exact ⟨rfl, rfl, rfl⟩

theorem parseHomeDistance_report {line : CString} {status status' : Status}
    (h : StatusParser.parseHomeDistance line status = some status') : SameReport status status' := by
  unfold StatusParser.parseHomeDistance at h
  split at h
  case isTrue => contradiction
  case isFalse =>
    dsimp only at h
    split at h
    case isTrue  => contradiction
    case isFalse => cases h; exact ⟨rfl, rfl, rfl⟩

theorem parseMarlinLine_report {line : CString} {status : Status}
    (h : ¬StatusParser.isFaultLine line) :
    SameReport status (StatusParser.parseMarlinLine status line).2 := by
  unfold StatusParser.parseMarlinLine
  split
  case isTrue => exact ⟨rfl, rfl, rfl⟩
  case isFalse =>
    split
    case h_1 hv => exact parseVersionLine_report hv
    case h_2 =>
      split
      case h_1 ht => exact parseTemperatures_report ht
      case h_2 =>
        split
        case h_1 hd => exact parseHomeDistance_report hd
        case h_2 =>
          split
          case h_1 => exact ⟨rfl, rfl, rfl⟩
          case h_2 => exact ⟨rfl, rfl, rfl⟩

theorem isFaultLine_nil : StatusParser.isFaultLine [] = false := by
  decide

theorem parseMarlinLine_state {line : CString} {status : Status} :
    (StatusParser.parseMarlinLine status line).2.state =
      if StatusParser.isFaultLine line then .error else status.state := by
  by_cases h : StatusParser.isFaultLine line
  case pos =>
    have : line.isEmpty = false := by
      cases line
      case nil  => rw [isFaultLine_nil] at h; contradiction
      case cons => rfl
    rw [if_pos h, StatusParser.parseMarlinLine, this]
    simp [h]
  case neg => rw [if_neg h, (parseMarlinLine_report h).state]

theorem applyStatus_report {wait : HeaterWait} {status : Status} (h : wait.active) :
    (wait.applyStatus status).state = .preparing ∧
    (wait.applyStatus status).fault = status.fault ∧
    (wait.applyStatus status).error = status.error := by
  simp [HeaterWait.applyStatus, h]

-- The status, the heater wait and the events that a line leaves.
theorem handleLine_eq (text : CString) :
    ∃ status wait flow acks,
      (s.handleLine text).2 = { s with
        status     := status
        heaterWait := wait
        flow       := flow
        trace      := s.trace ++ .line text :: acks } ∧
      (∀ e ∈ acks, e.isSilent) ∧
      (¬StatusParser.isFaultLine text → status.fault = s.status.fault ∧
        status.error = s.status.error) ∧
      (wait.active = false ∧
        status.state = (if StatusParser.isFaultLine text then .error else s.status.state) ∨
       s.heaterWait.active ∧ wait = s.heaterWait ∧ status.state = .preparing) := by
  generalize hr : s.flow.handleResponse text = response
  obtain ⟨rc, flow, seq⟩ := response
  simp only [handleLine, hr]
  refine ⟨_, _, _, _, rfl, ?_, ?_⟩
  case refine_1 =>
    simp only [List.mem_map, forall_exists_index, and_imp, forall_apply_eq_imp_iff₂]
    exact fun _ _ => rfl
  case refine_2 =>
    by_cases ready : s.heaterWait.ready (StatusParser.parseMarlinLine s.status text).2
    case pos =>
      have state := @parseMarlinLine_state text s.status
      simp only [if_pos ready]
      refine ⟨fun hf => ?_, .inl ⟨rfl, ?_⟩⟩
      case refine_1 =>
        have same := @parseMarlinLine_report text s.status hf
        split
        case isTrue  => exact ⟨same.fault, same.error⟩
        case isFalse => exact ⟨same.fault, same.error⟩
      case refine_2 =>
        split
        case isTrue  => exact state
        case isFalse => exact state
    case neg =>
      have hw := active_of_not_ready ready
      have ⟨state, hfault, herror⟩ :=
        @applyStatus_report _ (StatusParser.parseMarlinLine s.status text).2 hw
      simp only [if_neg ready]
      refine ⟨fun hf => ?_, .inr ⟨hw, trivial, ?_⟩⟩
      case refine_1 =>
        have same := @parseMarlinLine_report text s.status hf
        split
        case isTrue  => exact ⟨hfault.trans same.fault, herror.trans same.error⟩
        case isFalse => exact ⟨hfault.trans same.fault, herror.trans same.error⟩
      case refine_2 =>
        split
        case isTrue  => exact state
        case isFalse => exact state

theorem RuntimeStep.refines (h : RuntimeStep s s') : Refines Lifecycle.PollStep s s' := by
  cases h
  case line text =>
    have ⟨status, wait, flow, acks, he, silent, report, state⟩ := @handleLine_eq s text
    refine ⟨.line text :: acks, by rw [he], .line text acks ?_ silent⟩
    have hf : ¬StatusParser.isFaultLine text → faulted (s.handleLine text).2 = s.faulted := by
      intro h
      rw [he]
      simp only [faulted, (report h).1, (report h).2]
    generalize hb : faulted (s.handleLine text).2 = b at hf
    rcases state with ⟨hw, state⟩ | ⟨hw, rfl, state⟩
    case inl =>
      have : (s.handleLine text).2.lifecycle = { s.lifecycle with
          waits   := false
          state   := if StatusParser.isFaultLine text then .error else s.status.state
          faulted := b } := by
        apply Lifecycle.ext
        case faulted => exact hb
        case waits   => rw [he]; exact hw
        case state   => rw [he]; exact state
        all_goals rw [he]; rfl
      rw [this]
      exact .ready b hf
    case inr =>
      have : (s.handleLine text).2.lifecycle = { s.lifecycle with
          state   := .preparing
          faulted := b } := by
        apply Lifecycle.ext
        case faulted => exact hb
        case state   => rw [he]; exact state
        all_goals rw [he]; rfl
      rw [this]
      exact .waiting b hw hf
  case resync =>
    refine ⟨_, rfl, .silent _ ?_⟩
    simp only [List.mem_map, forall_exists_index, and_imp, forall_apply_eq_imp_iff₂]
    exact fun _ _ => rfl
  case error detail _ =>
    refine ⟨[], (List.append_nil _).symm, ?_⟩
    have failed : (s.setSerialError detail).lifecycle =
        { s.lifecycle with state := .error, faulted := false } := by
      apply Lifecycle.ext
      case faulted => simp [lifecycle, faulted, setSerialError, Error.make, isAutoAbort]
      all_goals rfl
    rw [failed]
    exact .error

end Runtime

section Stream

theorem lifecycle_advancePrepare : s.advancePrepare.lifecycle = s.lifecycle := by
  unfold advancePrepare
  cases s.prepareIndex <;> rfl

theorem trace_advancePrepare : s.advancePrepare.trace = s.trace := by
  unfold advancePrepare
  cases s.prepareIndex <;> rfl

theorem lifecycle_endJob :
    s.endJob.lifecycle =
      { s.lifecycle.setPolicy .finish { s.finishCleanup with pending := false } with
        job   := false
        waits := false } := by
  apply Lifecycle.ext
  case policy => funext kind; cases kind <;> rfl
  all_goals rfl

theorem trace_endJob :
    s.endJob.trace = s.trace ++ (s.lifecycle.dropFinish ++ s.flow.pendingSlots.map .cleared) :=
  List.append_assoc ..

theorem dropFinish_eq_nil (h : ¬s.finishCleanup.pending) : s.lifecycle.dropFinish = [] :=
  if_neg h

theorem lifecycle_startLineWait (hw : ¬s.heaterWait.active) :
    ∃ waits : Bool, s.startLineWait.lifecycle = { s.lifecycle with
      state := if waits then .preparing else s.status.state
      waits := waits } := by
  unfold startLineWait
  dsimp only
  split
  case isTrue =>
    rw [lifecycle_applyWait]
    exact ⟨lt zero s.jobStream.lastWaitTarget, rfl⟩
  case isFalse =>
    split
    case isTrue =>
      rw [lifecycle_applyWait]
      exact ⟨lt zero s.jobStream.lastWaitTarget, rfl⟩
    case isFalse =>
      exact ⟨false, Lifecycle.ext rfl rfl rfl rfl rfl (Bool.eq_false_iff.mpr hw) rfl rfl rfl rfl⟩

theorem trace_startLineWait : s.startLineWait.trace = s.trace := by
  unfold startLineWait
  dsimp only
  split
  case isTrue => rfl
  case isFalse =>
    split
    case isTrue  => rfl
    case isFalse => rfl

theorem StreamStep.refines (notFinish : ¬s.finishCleanup.pending) (h : StreamStep s s') :
    Refines Lifecycle.StreamStep s s' := by
  cases h
  case prepare hc hs =>
    have ⟨hl, i, ht⟩ := send_ok_lifecycle hs
    refine ⟨_, trace_advancePrepare.trans ht, ?_⟩
    rw [lifecycle_advancePrepare, hl]
    exact .prepare _ i
  case prepareFail hz hf hc hs =>
    have ⟨hl, events, ht, unsent⟩ := send_fail_lifecycle hs hz hf
    refine ⟨events, ht, ?_⟩
    rw [failPrepare, lifecycle_setError_send, hl]
    exact .prepareFail _ unsent
  case homeSent => exact ⟨[], (List.append_nil _).symm, .stage [] _ (List.forall_mem_nil _) id⟩
  case homeDrained => exact ⟨[.drained], rfl, .stage _ _ (by simp [Event.isSilent]) id⟩
  case heated => exact ⟨[], (List.append_nil _).symm, .stage [] false (List.forall_mem_nil _) nofun⟩
  case startupSent => exact ⟨[], (List.append_nil _).symm, .stage [] _ (List.forall_mem_nil _) id⟩
  case startupDrained => exact ⟨[.drained], rfl, .stage _ _ (by simp [Event.isSilent]) id⟩
  case readFail buffer _ _ _ =>
    have ht : (s.readStream buffer).2.2.failRead.trace =
        s.trace ++ s.flow.pendingSlots.map .cleared := by
      have := @trace_endJob (s.readStream buffer).2.2
      rwa [dropFinish_eq_nil (by exact notFinish)] at this
    refine ⟨_, ht, ?_⟩
    have failed : (s.readStream buffer).2.2.failRead.lifecycle =
        { s.lifecycle.setPolicy .finish { s.finishCleanup with pending := false } with
          state   := .error
          faulted := true
          job     := false
          waits   := false } := by
      apply Lifecycle.ext
      case policy => funext kind; cases kind <;> rfl
      all_goals rfl
    rw [failed]
    exact .readFail _ isSilent_of_mem_cleared
  case readEnd buffer _ _ _ _ =>
    refine ⟨[], (List.append_nil _).symm, ?_⟩
    have finished : (s.readStream buffer).2.2.beginFinish.lifecycle =
        { s.lifecycle.begin .finish .finish with
          state := .printing
          waits := false } := by
      apply Lifecycle.ext
      case policy => funext kind; cases kind <;> rfl
      all_goals rfl
    rw [finished]
    exact .finish
  case stream s₁ buffer _ hw _ hs =>
    have ⟨hl, i, ht⟩ := send_ok_lifecycle hs
    have ⟨waits, he⟩ := @lifecycle_startLineWait s₁ (by
      rw [show s₁.heaterWait.active = _ from congrArg Lifecycle.waits hl]; exact hw)
    refine ⟨_, trace_startLineWait.trans ht, ?_⟩
    rw [he, hl, show s₁.status.state = .printing from congrArg Lifecycle.state hl]
    exact .stream _ i waits
  case streamFail rc s₁ buffer hz hf _ _ _ hs =>
    have ⟨hl, events, ht, unsent⟩ := send_fail_lifecycle hs hz hf
    refine ⟨events ++ s₁.flow.pendingSlots.map .cleared, ?_, ?_⟩
    case refine_1 =>
      rw [← List.append_assoc, show s.trace ++ events = s₁.trace from ht.symm]
      have := @trace_endJob s₁
      rwa [dropFinish_eq_nil (by
        rw [show s₁.finishCleanup = s.finishCleanup from congrArg (Lifecycle.policy · .finish) hl]
        exact notFinish)] at this
    case refine_2 =>
      rw [failStream, lifecycle_setError_send, lifecycle_endJob, hl,
        show s₁.finishCleanup = s.finishCleanup from congrArg (Lifecycle.policy · .finish) hl]
      exact .streamFail _ _ unsent isSilent_of_mem_cleared

end Stream

theorem MotionStep.refines (h : MotionStep s s') : Refines Lifecycle.PollStep s s' := by
  cases h
  case quiet h =>
    have ⟨hl, ht⟩ : s'.lifecycle = s.lifecycle ∧ s'.trace = s.trace := by
      cases h <;> exact ⟨rfl, rfl⟩
    exact ⟨[], by rw [ht, List.append_nil], hl ▸ .silent [] (List.forall_mem_nil _)⟩
  case policy h =>
    have ⟨events, ht, step⟩ := h.refines
    exact ⟨events, ht, .policy step⟩
  case manualStatus =>
    refine ⟨[], ?_, .manual refreshManualStatus_manual⟩
    rw [trace_refreshManualStatus, List.append_nil]
  case statusProbe command hc =>
    have ⟨hl, events, ht, attempt⟩ := @send_attempt s .statusProbe command
    exact ⟨events, ht, hl ▸ .probe command hc attempt⟩
  case applyWait hw _ =>
    refine ⟨[], (List.append_nil _).symm, .wait ?_⟩
    rw [lifecycle_applyWait, if_pos hw]
    exact .apply hw
  case waitOver => exact ⟨[], (List.append_nil _).symm, .wait .ended⟩

theorem PollStep.refines (h : PollStep s s') : Refines Lifecycle.PollStep s s' := by
  cases h
  case motion h  => exact h.refines
  case runtime h => exact h.refines
  case abort h =>
    have ⟨events, ht, silent⟩ := @trace_startAbort s
    refine ⟨_, ht, ?_⟩
    rw [lifecycle_startAbort]
    refine .abort events s.serialReady (h.imp_left fun h => ?_) silent
    simp only [needsAbort, Bool.and_eq_true, beq_iff_eq] at h
    obtain ⟨⟨⟨⟨hj, he⟩, hf⟩, hc⟩, ha⟩ := h
    refine ⟨hj, he, ?_⟩
    simp only [lifecycle, faulted, Bool.and_eq_true]
    exact ⟨⟨hf, hc⟩, ha⟩
  case dropAbort => exact ⟨[], (List.append_nil _).symm, .dropAbort⟩

theorem JobStep.refines (h : JobStep s s') : Refines Lifecycle.JobStep s s' := by
  cases h
  case poll h =>
    have ⟨events, ht, step⟩ := h.refines
    exact ⟨events, ht, .poll step⟩
  case dropWait => exact ⟨[], (List.append_nil _).symm, .poll (.wait .ended)⟩
  case queue hb h =>
    have ⟨events, ht, step⟩ := h.refines
    exact ⟨events, ht, .queue hb step⟩
  case errorExit hj hb hq he =>
    refine ⟨_, trace_endJob, ?_⟩
    have exited : s.endJob.resetPrepare.lifecycle =
        { s.lifecycle.setPolicy .finish { s.finishCleanup with pending := false } with
          job            := false
          waits          := false
          abortRequested := false } := by
      apply Lifecycle.ext
      case policy => funext kind; cases kind <;> rfl
      all_goals rfl
    rw [exited]
    exact .errorExit _ hj hb hq he isSilent_of_mem_cleared
  case streaming hj hb hq hf he hp =>
    exact ⟨[], (List.append_nil _).symm, .streaming hj hb hq hf he hp⟩
  case stream hs h =>
    have ⟨events, ht, step⟩ := h.refines hs.notFinish
    exact ⟨events, ht, .stream ⟨hs.1, hs.2, hs.3, hs.4, hs.5, hs.6⟩ step⟩

theorem MacroStep.refines {cmd : MacroCommand} (h : MacroStep cmd s s') :
    Refines (Lifecycle.MacroStep cmd.mayWait) s s' := by
  cases h
  case poll h =>
    have ⟨events, ht, step⟩ := h.refines
    exact ⟨events, ht, .poll step⟩
  case send line =>
    have ⟨hl, events, ht, attempt⟩ := @send_attempt s .macroRunner line
    exact ⟨events, ht, hl ▸ .send line attempt⟩
  case startWait file lines stream hf emits asks =>
    have may : lt zero stream.lastWaitTarget → cmd.mayWait :=
      fun h => ⟨file, lines, stream, hf, emits, asks, h⟩
    unfold startMacroWait
    dsimp only
    split
    case isTrue  => exact ⟨[], (List.append_nil _).symm, .startWait _ may⟩
    case isFalse => exact ⟨[], (List.append_nil _).symm, .startWait _ may⟩
  case fail rc detail =>
    refine ⟨[], (List.append_nil _).symm, ?_⟩
    have failed : lifecycle { s with
        status := { s.status with error := Error.make (sendErrorCode rc) detail } } =
        { s.lifecycle with faulted := false } := by
      apply Lifecycle.ext
      case faulted => simp [lifecycle, faulted, Error.make, isAutoAbort_sendErrorCode]
      all_goals rfl
    rw [failed]
    exact .fail

-- The steps of a call are steps of the lifecycle, with all that they record.
theorem refines_steps {r : Service → Service → Prop}
    {step : Lifecycle → List Event → Lifecycle → Prop}
    (hr : ∀ {s s'}, r s s' → Refines step s s') (h : ReflTransGen r s s') :
    Refines (Labelled.Steps step) s s' := by
  induction h
  case refl => exact ⟨[], (List.append_nil _).symm, .refl⟩
  case tail hs ih =>
    have ⟨events, ht, steps⟩ := ih
    have ⟨events', ht', step⟩ := hr hs
    exact ⟨events ++ events', by rw [ht', ht, List.append_assoc], steps.tail step⟩

section Commands

variable {env : SerialEnv} {latency : UInt32}

theorem applyMetadata_eq (printTime : Option Int) :
    ∃ timer timeTotal timeLeft, s.applyMetadata printTime = { s with
      jobTimer := timer
      status   := { s.status with timeTotal := timeTotal, timeLeft := timeLeft } } := by
  unfold applyMetadata
  split
  case h_1 =>
    split
    case isTrue  => exact ⟨_, _, _, rfl⟩
    case isFalse => exact ⟨_, _, _, rfl⟩
  case h_2 => exact ⟨_, _, _, rfl⟩

theorem startJob_refines {cmd : JobCommand} :
    ∃ waits, (s.startJob cmd).lifecycle = s.lifecycle.started waits ∧
    (s.startJob cmd).trace =
      s.trace ++ (s.flow.pendingSlots.map .cleared ++ [.jobAccepted s.jobStream]) := by
  have ⟨_, _, _, he⟩ := @applyMetadata_eq (s.resetForJob cmd) cmd.printTime
  refine ⟨(s.startJob cmd).heaterWait.active, ?_, ?_⟩
  case refine_1 =>
    apply Lifecycle.ext
    case waits => rfl
    case policy =>
      rw [startJob, he]
      funext kind
      cases kind <;> rfl
    all_goals rw [startJob, he]; rfl
  case refine_2 =>
    rw [startJob, he, ← List.append_assoc]
    rfl

theorem busy_lifecycle : s.lifecycle.busy = s.pauseResumeBusy :=
  rfl

theorem jobBusy_lifecycle : s.lifecycle.jobBusy = s.jobBusy := by
  unfold Lifecycle.jobBusy jobBusy
  rw [busy_lifecycle, pauseResumeBusy]
  change (s.jobActive || s.finishCleanup.pending || s.abortCleanup.pending || s.gcodeQueueActive ||
    _) = _
  rw [Bool.or_comm s.pausePositionProbePending]
  simp only [Bool.or_assoc]

theorem accept_refines (cmd : JobCommand) :
    Refines (Lifecycle.Exec (.command (.job cmd) env latency)) s (s.accept cmd).2 := by
  unfold accept
  split
  case isTrue => exact ⟨[], (List.append_nil _).symm, .keep _⟩
  case isFalse =>
    split
    case isTrue => exact ⟨[], (List.append_nil _).symm, .keep _⟩
    case isFalse hb =>
      rw [← jobBusy_lifecycle] at hb
      split
      case h_1 => exact ⟨[], (List.append_nil _).symm, .noFile cmd env latency _ hb⟩
      case h_2 file _ =>
        dsimp only
        split
        case h_1 => exact ⟨[], (List.append_nil _).symm, .keep _⟩
        case h_2 =>
          have ⟨waits, hl, ht⟩ := @startJob_refines { s with jobStream := .open file } cmd
          refine ⟨_, ht, ?_⟩
          rw [hl]
          exact .job cmd env latency _ _ waits hb isSilent_of_mem_cleared

theorem abort_refines :
    Refines (Lifecycle.Exec (.command .abort env latency)) s s.abort.2 := by
  unfold abort
  split
  case isTrue => exact ⟨[], (List.append_nil _).symm, .noAbort env latency⟩
  case isFalse =>
    have ⟨events, ht, silent⟩ := @trace_startAbort s
    refine ⟨_, ht, ?_⟩
    rw [lifecycle_startAbort]
    exact .abort env latency events s.serialReady silent

theorem pause_cases (status : Status) :
    PauseResume.pause status = (-1, status) ∨ Lifecycle.pausedState status.state = .paused ∧
      ∃ rc ≥ 0, PauseResume.pause status = (rc, status.setPhase .paused) := by
  cases h : status.state
  all_goals simp only [PauseResume.pause, Lifecycle.pausedState, h]
  case preparing | printing | pausing => exact .inr ⟨trivial, 1, by decide, rfl⟩
  case paused                         => exact .inr ⟨trivial, 0, by decide, rfl⟩
  all_goals exact .inl trivial

theorem pause_refines :
    Refines (Lifecycle.Exec (.command .pause env latency)) s s.pause.2 := by
  unfold pause
  split
  case isTrue => exact ⟨[], (List.append_nil _).symm, .keep _⟩
  case isFalse hb =>
    split
    case isTrue h =>
      simp only [Bool.and_eq_true, Bool.or_eq_true, beq_iff_eq] at h
      exact ⟨[], (List.append_nil _).symm, .pausing env latency hb h.1 h.2⟩
    case isFalse h =>
      rcases pause_cases s.status with hp | ⟨hs, rc, hrc, hp⟩
      case inl =>
        simp only [hp]
        exact ⟨[], (List.append_nil _).symm, .keep _⟩
      case inr =>
        simp only [hp, if_neg (Int.not_lt.mpr hrc)]
        split
        case isTrue hj =>
          have hj : s.jobActive := (Bool.and_eq_true_iff.mp hj).1
          refine ⟨[], (List.append_nil _).symm, .paused env latency hb hj ?_⟩
          simp only [hj, Bool.true_and, Bool.or_eq_true, beq_iff_eq, not_or] at h
          change s.status.state = _ ∨ s.status.state = _
          cases hst : s.status.state <;> simp_all [Lifecycle.pausedState]
        case isFalse hj =>
          have hj : ¬s.jobActive := fun h => hj (Bool.and_eq_true_iff.mpr ⟨h, rfl⟩)
          exact ⟨[], (List.append_nil _).symm, .pausedIdle env latency _ hb hj hs⟩

theorem resume_eq {status : Status} {waits : Bool} (h : status.state = .paused) :
    ∃ req, PauseResume.resume status waits = (1, { status with
      state := if waits then .preparing else .printing
      req   := req }) := by
  unfold PauseResume.resume
  rw [if_neg (not_not_intro h)]
  cases waits
  case false => exact ⟨_, rfl⟩
  case true  => exact ⟨_, rfl⟩

theorem resume_refines :
    Refines (Lifecycle.Exec (.command .resume env latency)) s s.resume.2 := by
  unfold resume
  split
  case isTrue => exact ⟨[], (List.append_nil _).symm, .keep _⟩
  case isFalse hb =>
    split
    case isTrue hv =>
      have hv : ¬s.pausedPositionValid := by simpa using hv
      by_cases hp : s.status.state = .paused
      case pos =>
        have ⟨req, he⟩ := @resume_eq s.status s.heaterWait.active hp
        simp only [he]
        exact ⟨[], (List.append_nil _).symm, .resume env latency hb hp hv⟩
      case neg =>
        simp only [PauseResume.resume, if_pos hp]
        exact ⟨[], (List.append_nil _).symm, .keep _⟩
    case isFalse hv =>
      split
      case isTrue => exact ⟨[], (List.append_nil _).symm, .keep _⟩
      case isFalse hp =>
        have hv : s.pausedPositionValid := by simpa using hv
        have hp := Decidable.not_not.mp hp
        have ⟨req, he⟩ := @resume_eq { s.status with headTSet := s.pausedNozzleSetpoint }
          (lt zero s.pausedNozzleSetpoint) hp
        simp only [he]
        refine ⟨[], (List.append_nil _).symm, ?_⟩
        let policy := MotionPolicy.resume s.pausedX s.pausedY s.pausedZ s.pausedE s.pausedR0
          s.pausedNozzleSetpoint
        have begun := (@lifecycle_setPolicy s .resume
          { pending := true, policy := policy, index := 0 })
        have exec := @Lifecycle.Exec.resumePolicy s.lifecycle env latency policy
          (lt zero s.pausedNozzleSetpoint) hb hp hv
        rw [Lifecycle.begin, ← begun] at exec
        exact exec

theorem foldl_applyAcceptedHeaterTarget (queue : List GcodeQueueEntry) (status : Status) :
    ∃ bed head, queue.foldl (fun status entry => applyAcceptedHeaterTarget status entry.command)
      status = { status with bedTSet := bed, headTSet := head } := by
  induction queue generalizing status
  case nil => exact ⟨_, _, rfl⟩
  case cons entry queue ih =>
    have ⟨_, _, he⟩ := applyAcceptedHeaterTarget_eq status entry.command
    have ⟨bed, head, h⟩ := ih (applyAcceptedHeaterTarget status entry.command)
    exact ⟨bed, head, by rw [List.foldl_cons, h, he]⟩

-- The manual status of a command that is put into the queue.
theorem enqueued_manual {queue : List GcodeQueueEntry} :
    Lifecycle.ManualStep
      { s.lifecycle with queue := false, queueWaits := queue.any GcodeQueueEntry.waits }
      (s.enqueued queue).lifecycle ∧ (s.enqueued queue).trace = s.trace := by
  unfold enqueued applyQueuedHeaterTargets
  have ⟨bed, head, he⟩ := foldl_applyAcceptedHeaterTarget queue s.status
  let t : Service := { s.clearQueue with
    gcodeQueue := queue
    status     := { s.status with bedTSet := bed, headTSet := head } }
  have manual := @refreshManualStatus_manual t
  dsimp only
  rw [show ({ s.clearQueue with gcodeQueue := queue } : Service).status = s.status from rfl, he]
  exact ⟨manual, trace_refreshManualStatus⟩

theorem runGcode_refines (lines : List CString) :
    Refines (Lifecycle.Exec (.command (.gcode lines) env latency)) s (s.runGcode lines).2 := by
  rcases @runGcode_steps s lines with h | ⟨ha, h | ⟨active, h⟩⟩
  case inl =>
    rw [h]
    exact ⟨[], (List.append_nil _).symm, .keep _⟩
  case inr.inl =>
    refine ⟨[], by rw [h]; exact (List.append_nil _).symm, ?_⟩
    rw [h]
    exact .queueFull lines env latency ha
  case inr.inr =>
    have ⟨events, ht, steps⟩ := refines_steps GcodeStep.refines h
    have ⟨manual, htm⟩ := @enqueued_manual s (lines.flatMap fun line => rewriteEntries (.line line))
    refine ⟨events, ?_, .gcode lines env latency active _ ha ?_ manual steps⟩
    case refine_1 => rw [ht, ← htm]
    case refine_2 =>
      intro h
      simp only [List.any_eq_true, List.mem_flatMap] at h
      obtain ⟨entry, ⟨line, hline, hentry⟩, hw⟩ := h
      exact ⟨line, hline, entry, hentry, hw⟩

theorem runMacro_refines (cmd : MacroCommand) :
    Refines (Lifecycle.Exec (.command (.runMacro cmd) env latency)) s (s.runMacro cmd).2 := by
  have ⟨events, ht, steps⟩ := refines_steps MacroStep.refines (@runMacro_steps s cmd)
  exact ⟨events, ht, .runMacro cmd env latency steps⟩

theorem dispatch_refines (cmd : Command) :
    Refines (Lifecycle.Exec (.command cmd env latency)) s (s.dispatch cmd).2 := by
  cases cmd
  case gcode lines  => exact runGcode_refines lines
  case runMacro cmd => exact runMacro_refines cmd
  case job cmd      => exact accept_refines cmd
  case abort        => exact abort_refines
  case pause        => exact pause_refines
  case resume       => exact resume_refines
  case unknown      => exact ⟨[], (List.append_nil _).symm, .keep _⟩

end Commands

-- A call of the main loop is a call of the lifecycle.
theorem exec_refines (op : Op) : Refines (Lifecycle.Exec op) s (s.exec op) := by
  cases op
  case openMotion success =>
    have ⟨hl, ht⟩ : (s.openMotion success).lifecycle = s.lifecycle ∧
        (s.openMotion success).trace = s.trace := by
      cases success <;> exact ⟨rfl, rfl⟩
    exact ⟨[], ht.trans (List.append_nil _).symm, hl ▸ .keep _⟩
  case command cmd env latency =>
    exact @dispatch_refines (s.connect env) env latency cmd
  case pollMotion env =>
    have ⟨events, ht, steps⟩ := refines_steps PollStep.refines (@pollMotion_steps (s.connect env))
    exact ⟨events, ht, .pollMotion env steps⟩
  case pollJob env poll =>
    have ⟨events, ht, steps⟩ := refines_steps JobStep.refines (@pollJob_steps (s.connect env) poll)
    exact ⟨events, ht, .pollJob env poll steps⟩
  case refreshDiagnostics => exact ⟨[], (List.append_nil _).symm, .keep _⟩

end Deneb.Service
