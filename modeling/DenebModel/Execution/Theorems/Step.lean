import DenebModel.Execution.Step
import DenebModel.Execution.Theorems.Service
import Mathlib.Order.Basic

namespace Deneb.Service

open CString BinaryFloat Relation

variable {s s' s₁ : Service} {kind : PolicyKind}

section Frame

@[simp]
theorem policy_setPolicy (run : PolicyRun) : (s.setPolicy kind run).policy kind = run := by
  cases kind <;> rfl

@[simp]
theorem heaterWait_setPolicy (run : PolicyRun) :
    (s.setPolicy kind run).heaterWait = s.heaterWait := by
  cases kind <;> rfl

@[simp]
theorem policy_advancePolicy :
    (s.advancePolicy kind).policy kind =
      { s.policy kind with index := (s.policy kind).index + 1 } :=
  policy_setPolicy _

@[simp]
theorem heaterWait_advancePolicy : (s.advancePolicy kind).heaterWait = s.heaterWait :=
  heaterWait_setPolicy _

theorem policy_of_send_ok {p : Producer} {command : CString} (h : s.send p command = (0, s₁)) :
    s₁.policy kind = s.policy kind := by
  have ⟨_, _, _, he, _⟩ := send_ok h
  cases he
  cases kind <;> rfl

theorem heaterWait_of_send_ok {p : Producer} {command : CString}
    (h : s.send p command = (0, s₁)) : s₁.heaterWait = s.heaterWait := by
  have ⟨_, _, _, he, _⟩ := send_ok h
  cases he
  rfl

end Frame

theorem active_of_not_ready {wait : HeaterWait} {status : Status} (h : ¬wait.ready status) :
    wait.active := by
  by_contra hw
  simp [HeaterWait.ready, hw] at h

-- The guard of a step that hands over a command of the resume policy.
def ResumeHeated (s : Service) (kind : PolicyKind) : Prop :=
  kind = .resume → ¬s.heaterWait.active ∧
    ((s.policy kind).index = 0 → lt zero s.pausedNozzleSetpoint = false)

-- What `sendPolicy` leaves behind when it has handed over all commands.
def AllSent (kind : PolicyKind) (r : Int × Service) : Prop :=
  r.1 = 1 → (r.2.policy kind).pending ∧ (r.2.policy kind).policy.length ≤ (r.2.policy kind).index ∧
    (kind = .resume → ¬r.2.heaterWait.active)

theorem sendPolicy_steps {rounds : Nat} (hp : (s.policy kind).pending)
    (hh : ResumeHeated s kind)
    (hl : (s.policy kind).policy.length ≤ (s.policy kind).index + rounds) :
    let r := sendPolicy kind rounds s
    MotionSteps s r.2 ∧ AllSent kind r := by
  induction rounds generalizing s
  case zero => exact ⟨.refl, fun _ => ⟨hp, hl, fun hk => (hh hk).1⟩⟩
  case succ rounds ih =>
    simp only [sendPolicy]
    split
    case h_1 hn =>
      refine ⟨.refl, fun _ => ⟨hp, ?_, fun hk => (hh hk).1⟩⟩
      exact List.getElem?_eq_none_iff.mp hn
    case h_2 command hc =>
      split
      case isTrue => exact ⟨.refl, by simp [AllSent]⟩
      case isFalse =>
        generalize hs : s.send (.policy kind) command = sent
        obtain ⟨rc, s₁⟩ := sent
        dsimp only
        split
        case isTrue hz =>
          cases hz
          have hpol := @policy_of_send_ok s s₁ kind _ _ hs
          have hw := heaterWait_of_send_ok hs
          have ⟨steps, done⟩ := @ih (s₁.advancePolicy kind) (by simpa [hpol]) (by
            intro hk
            simp [hw, (hh hk).1]) (by simp [hpol]; omega)
          exact ⟨.head (.policy (.send kind hp hc hh hs)) steps, done⟩
        case isFalse hz =>
          split
          case isTrue hf =>
            cases hf
            rw [send_of_flowFull hs]
            exact ⟨.refl, by simp [AllSent]⟩
          case isFalse hf =>
            exact ⟨.single (.policy (.fail kind hp hc hh hs hz hf)), by simp [AllSent]⟩

theorem pollPolicy_steps_of_sendPolicy {s₀ : Service} (hp : (s.policy kind).pending)
    (steps : MotionSteps s₀ (sendPolicy kind (s.policy kind).policy.length s).2)
    (sent : AllSent kind (sendPolicy kind (s.policy kind).policy.length s)) :
    MotionSteps s₀ (s.pollPolicy kind).2 := by
  unfold pollPolicy
  rw [if_neg (by simp [hp])]
  generalize sendPolicy kind (s.policy kind).policy.length s = r at steps sent
  dsimp only
  split
  case isTrue => exact steps
  case isFalse hr =>
    split
    case isTrue => exact steps
    case isFalse hi =>
      have ⟨hp, hl, hw⟩ := sent (by simpa using hr)
      exact steps.tail (.policy (.done kind hp hl hw (by simpa using hi)))

theorem pollPolicy_steps (hh : (s.policy kind).pending → ResumeHeated s kind) :
    MotionSteps s (s.pollPolicy kind).2 := by
  by_cases hp : (s.policy kind).pending
  case pos =>
    have ⟨steps, sent⟩ := sendPolicy_steps hp (hh hp) (Nat.le_add_left ..)
    exact pollPolicy_steps_of_sendPolicy hp steps sent
  case neg =>
    rw [pollPolicy, if_pos (by simpa using hp)]

section Runtime

theorem reactToResponse_steps (allow : Bool) (flowRc : Int) :
    PollSteps s (s.reactToResponse allow flowRc).2 := by
  have resent : PollSteps s s.resendPending.2 := .single (.motion (.quiet (.serial _)))
  unfold reactToResponse
  split
  case isTrue =>
    dsimp only
    split
    case isTrue h => exact resent.tail (.runtime (.error _ (by simp at h; exact h.2)))
    case isFalse  => exact resent
  case isFalse =>
    split
    case isTrue =>
      have resynced : PollSteps s s.resyncToExpected := .single (.runtime .resync)
      dsimp only
      split
      case isTrue h => exact resynced.tail (.runtime (.error _ (by simp at h; exact h.1)))
      case isFalse  => exact resynced
    case isFalse =>
      split
      case isTrue h => exact .single (.runtime (.error _ (by simp at h; exact h.2)))
      case isFalse  => exact .refl

theorem runtimeLoop_steps {allow : Bool} {rounds : Nat} {handled : Int} :
    PollSteps s (runtimeLoop allow rounds handled s).2 := by
  induction rounds generalizing s handled
  case zero => exact .refl
  case succ rounds ih =>
    have read : PollSteps s s.readLine.2.2 := .single (.motion (.quiet (.serial _)))
    simp only [runtimeLoop]
    split
    case isTrue => exact read
    case isFalse =>
      split
      case isTrue => exact read
      case isFalse =>
        have lines := (read.tail (.runtime (.line s.readLine.2.1))).trans <|
          reactToResponse_steps allow (s.readLine.2.2.handleLine s.readLine.2.1).1
        split
        case isTrue  => exact lines.trans ih
        case isFalse => exact lines

theorem pollRuntime_steps : PollSteps s s.pollRuntime.2 := by
  unfold pollRuntime
  split
  case isTrue  => exact .refl
  case isFalse => exact runtimeLoop_steps

end Runtime

section PauseResume

theorem pollPausePositionProbe_steps : MotionSteps s s.pollPausePositionProbe.2 := by
  unfold pollPausePositionProbe
  split
  case isTrue => exact .refl
  case isFalse hp =>
    have hp : s.pausePositionProbePending := by simpa using hp
    split
    case isTrue =>
      split
      case isTrue => exact .refl
      case isFalse =>
        generalize hs : s.send .pauseProbe "M114" = sent
        obtain ⟨rc, s₁⟩ := sent
        dsimp only
        split
        case isTrue hz =>
          cases hz
          exact .single (.policy (.probe hp hs))
        case isFalse hz =>
          split
          case isTrue hf =>
            cases hf
            exact send_of_flowFull hs ▸ .refl
          case isFalse hf => exact .single (.policy (.probeFail hp hs hz hf))
    case isFalse hsent =>
      split
      case isTrue => exact .refl
      case isFalse hi =>
        split
        case isTrue  => exact .refl
        case isFalse =>
          exact .single (.policy (.probed hp (by simpa using hsent) (by simpa using hi)))

-- After the heat command the service waits, or nothing was handed over.
theorem sendResumeHeatCommand_steps (hw : ¬s.heaterWait.active)
    (hl : lt zero s.pausedNozzleSetpoint) :
    MotionSteps s s.sendResumeHeatCommand.2 ∧
    (0 < s.sendResumeHeatCommand.1 → s.sendResumeHeatCommand.2.heaterWait.active) := by
  unfold sendResumeHeatCommand
  split
  case isTrue => exact ⟨.refl, by simp⟩
  case isFalse hp =>
    simp only [Bool.or_eq_true, Bool.not_eq_true', decide_eq_true_eq, not_or, Bool.not_eq_false,
      Decidable.not_not] at hp
    split
    case h_1 => exact ⟨.refl, by simp⟩
    case h_2 command rest hc =>
      have hc : s.resumePolicy.policy.head? = some command := by rw [hc]; rfl
      split
      case isTrue => exact ⟨.refl, by simp⟩
      case isFalse =>
        split
        case isTrue => exact ⟨.refl, by simp⟩
        case isFalse =>
          generalize hs : s.send (.policy .resume) command = sent
          obtain ⟨rc, s₁⟩ := sent
          dsimp only
          split
          case isTrue hz =>
            cases hz
            refine ⟨.single (.policy (.heat hp.1 hp.2 hw hl hc hs)), fun _ => ?_⟩
            have ⟨_, _, _, he, _⟩ := send_ok hs
            cases he
            exact hl
          case isFalse hz =>
            split
            case isTrue hf =>
              cases hf
              exact ⟨send_of_flowFull hs ▸ .refl, by simp⟩
            case isFalse hf =>
              exact ⟨.single (.policy (.heatFail hp.1 hp.2 hw hl hc hs hz hf)), by simp⟩

-- The resume policy once no heater wait is active, when it is not for lack of a wait of its own.
theorem pollPolicy_resume_steps (hw : ¬s.heaterWait.active)
    (hl : s.resumePolicy.pending → s.resumePolicy.index = 0 → lt zero s.pausedNozzleSetpoint = false) :
    MotionSteps s (s.pollPolicy .resume).2 :=
  pollPolicy_steps fun hp _ => ⟨hw, hl hp⟩

-- The resume policy when a heater wait from before the resume has ended.
theorem sendPolicy_leftover_steps (hp : s.resumePolicy.pending) (hi : s.resumePolicy.index = 0)
    (hw : s.heaterWait.active) (hr : s.heaterWait.ready s.status) {rounds : Nat}
    (hl : s.resumePolicy.policy.length ≤ rounds) :
    let r := sendPolicy .resume rounds s.clearWait
    MotionSteps s r.2 ∧ AllSent .resume r := by
  have cleared : MotionSteps s s.clearWait := .single (.waitOver hr)
  cases rounds
  case zero =>
    refine ⟨cleared, fun _ => ⟨hp, Nat.le_trans hl (Nat.zero_le _), ?_⟩⟩
    simp [sendPolicy, clearWait, HeaterWait.clear]
  case succ rounds =>
    simp only [sendPolicy]
    split
    case h_1 hn =>
      refine ⟨cleared, fun _ => ⟨hp, List.getElem?_eq_none_iff.mp hn, ?_⟩⟩
      simp [clearWait, HeaterWait.clear]
    case h_2 command hc =>
      have hc : s.resumePolicy.policy[0]? = some command := hi ▸ hc
      split
      case isTrue => exact ⟨cleared, by simp [AllSent]⟩
      case isFalse =>
        generalize hs : s.clearWait.send (.policy .resume) command = sent
        obtain ⟨rc, s₁⟩ := sent
        dsimp only
        split
        case isTrue hz =>
          cases hz
          have hpol : s₁.policy .resume = s.resumePolicy :=
            @policy_of_send_ok s.clearWait s₁ .resume _ _ hs
          have hw' : s₁.heaterWait = s.heaterWait.clear := heaterWait_of_send_ok hs
          have ⟨steps, done⟩ := @sendPolicy_steps (s₁.advancePolicy .resume) .resume rounds
            (by simpa [hpol]) (fun _ => by simp [hw', HeaterWait.clear]) (by simp [hpol]; omega)
          exact ⟨.head (.policy (.leftover hp hi hw hr hc hs)) steps, done⟩
        case isFalse hz =>
          split
          case isTrue hf =>
            cases hf
            rw [send_of_flowFull hs]
            exact ⟨cleared, by simp [AllSent]⟩
          case isFalse hf =>
            exact ⟨.single (.policy (.leftoverFail hp hi hw hr hc hs hz hf)), by simp [AllSent]⟩

theorem pollPolicy_leftover_steps (hp : s.resumePolicy.pending) (hw : s.heaterWait.active)
    (hr : s.heaterWait.ready s.status) : MotionSteps s (s.clearWait.pollPolicy .resume).2 := by
  by_cases hi : s.resumePolicy.index = 0
  case pos =>
    have ⟨steps, sent⟩ := sendPolicy_leftover_steps hp hi hw hr (Nat.le_refl _)
    exact pollPolicy_steps_of_sendPolicy hp steps sent
  case neg =>
    refine .head (.waitOver hr) (pollPolicy_resume_steps (by simp [clearWait, HeaterWait.clear]) ?_)
    exact fun _ h => absurd h hi

-- The end of `pollResume`, when the policy cannot start for lack of a wait of its own.
theorem pollResume_steps_of_heated
    (hl : ¬s.heaterWait.active → s.resumePolicy.pending → s.resumePolicy.index = 0 →
      lt zero s.pausedNozzleSetpoint = false) :
    MotionSteps s
      (if s.resumePolicy.pending && s.heaterWait.active then
        if !s.heaterWait.ready s.status then (0, s.applyWait)
        else s.clearWait.pollPolicy .resume
      else s.pollPolicy .resume).2 := by
  split
  case isTrue hw =>
    simp only [Bool.and_eq_true] at hw
    split
    case isTrue hr  => exact .single (.applyWait hw.2 (by simpa using hr))
    case isFalse hr => exact pollPolicy_leftover_steps hw.1 hw.2 (by simpa using hr)
  case isFalse hw =>
    by_cases hp : s.resumePolicy.pending
    case pos =>
      have hw : ¬s.heaterWait.active := by simpa [hp] using hw
      exact pollPolicy_resume_steps hw (hl hw)
    case neg =>
      have hp : (s.policy .resume).pending = false := Bool.eq_false_iff.mpr hp
      simp only [pollPolicy, hp]
      exact .refl

theorem pollResume_steps : MotionSteps s s.pollResume.2 := by
  unfold pollResume
  -- Whether the heat command is due decides how the resume policy can start.
  by_cases due : s.resumePolicy.pending && !s.heaterWait.active && s.resumePolicy.index == 0 &&
      lt zero s.pausedNozzleSetpoint
  case pos =>
    simp only [if_pos due]
    simp only [Bool.and_eq_true, Bool.not_eq_true'] at due
    have ⟨steps, waits⟩ := sendResumeHeatCommand_steps (by simp [due.1.1.2]) due.2
    generalize s.sendResumeHeatCommand = r at steps waits
    split
    case isTrue => exact steps
    case isFalse hr =>
      have hw := waits (by omega)
      exact steps.trans (pollResume_steps_of_heated fun h => absurd hw h)
  case neg =>
    simp only [if_neg due]
    apply pollResume_steps_of_heated
    intro hw hp hi
    simpa [hw, hp, hi] using due

theorem pollPauseResume_steps : MotionSteps s s.pollPauseResume.2 := by
  unfold pollPauseResume
  have probed : MotionSteps s
      (if s.pausePositionProbePending then s.pollPausePositionProbe else (1, s)).2 := by
    split
    case isTrue  => exact pollPausePositionProbe_steps
    case isFalse => exact .refl
  generalize (if s.pausePositionProbePending then s.pollPausePositionProbe else (1, s)) = r at probed
  dsimp only
  split
  case isTrue => exact probed
  case isFalse =>
    have paused := probed.trans (@pollPolicy_steps r.2 .pause (fun _ h => nomatch h))
    split
    case isTrue  => exact paused
    case isFalse => exact paused.trans pollResume_steps

end PauseResume

section Motion

theorem sendStatusProbe_steps {probes : List CString}
    (h : ∀ command ∈ probes, command ∈ (["M115", "M105", "M114"] : List CString)) :
    MotionSteps s (sendStatusProbe probes s).2 := by
  induction probes generalizing s
  case nil => exact .refl
  case cons command probes ih =>
    have sent : MotionSteps s (s.send .statusProbe command).2 :=
      .single (.statusProbe command (h _ List.mem_cons_self))
    simp only [sendStatusProbe]
    split
    case isTrue => exact .refl
    case isFalse =>
      split
      case isTrue => exact sent.trans (ih fun c hc => h c (List.mem_cons_of_mem _ hc))
      case isFalse =>
        split
        case isTrue  => exact sent
        case isFalse => exact sent

theorem pollStartupProbe_steps (rc : Int) : MotionSteps s (s.pollStartupProbe rc).2 := by
  unfold pollStartupProbe
  split
  case isTrue =>
    have probed : MotionSteps s (sendStatusProbe ["M115", "M105", "M114"] s).2 :=
      sendStatusProbe_steps fun _ h => h
    dsimp only
    split
    case isTrue  => exact probed.tail (.quiet (.probes ..))
    case isFalse => exact probed
  case isFalse => exact .refl

theorem sendVersionProbe_steps (rc : Int) : MotionSteps s (s.sendVersionProbe rc).2 := by
  unfold sendVersionProbe
  have probed : MotionSteps s (s.send .statusProbe "M115").2 :=
    .single (.statusProbe _ List.mem_cons_self)
  dsimp only
  split
  case isTrue  => exact probed.tail (.quiet (.probes ..))
  case isFalse => exact probed

theorem pollFirmwareProbe_steps (rc : Int) : MotionSteps s (s.pollFirmwareProbe rc).2 := by
  unfold pollFirmwareProbe
  split
  case isTrue =>
    split
    case isTrue => exact .single (.quiet (.probes ..))
    case isFalse =>
      have ticked : MotionSteps s { s with firmwareProbeTicks := s.firmwareProbeTicks + 1 } :=
        .single (.quiet (.probes ..))
      dsimp only
      split
      case isTrue  => exact ticked.trans (sendVersionProbe_steps rc)
      case isFalse => exact ticked
  case isFalse => exact .refl

theorem pollTemperatures_steps (rc : Int) : MotionSteps s (s.pollTemperatures rc).2 := by
  unfold pollTemperatures
  split
  case isTrue =>
    have ticked : MotionSteps s { s with temperaturePollTicks := s.temperaturePollTicks + 1 } :=
      .single (.quiet (.probes ..))
    dsimp only
    split
    case isTrue =>
      have probed := ticked.trans <|
        @sendStatusProbe_steps _ ["M105", "M114"] fun _ hc => List.mem_cons_of_mem _ hc
      exact probed.tail (.quiet (.probes ..))
    case isFalse => exact ticked
  case isFalse => exact .refl

theorem pollProbes_steps (rc : Int) : MotionSteps s (s.pollProbes rc).2 := by
  unfold pollProbes
  have known : MotionSteps s
      (if !s.status.firmware.isEmpty then { s with firmwareProbePending := false } else s) := by
    split
    case isTrue  => exact .single (.quiet (.probes ..))
    case isFalse => exact .refl
  generalize (if !s.status.firmware.isEmpty then { s with firmwareProbePending := false } else s)
    = s₁ at known
  exact known.trans <| (pollStartupProbe_steps rc).trans <|
    (pollFirmwareProbe_steps _).trans (pollTemperatures_steps _)

theorem MotionSteps.pollSteps (h : MotionSteps s s') : PollSteps s s' :=
  ReflTransGen.mono (fun _ _ h => .motion h) _ _ h

theorem abort_steps (h : s.needsAbort ∨ s.abortRequested) : PollSteps s s.abort.2 := by
  unfold abort
  split
  case isTrue  => exact .single .dropAbort
  case isFalse => exact .single (.abort h)

-- What `deneb_print_service_poll_motion` does besides reading lines and aborting the job.
theorem servePolicies_steps : MotionSteps s s.servePolicies := by
  unfold servePolicies
  refine pollPauseResume_steps.trans ?_
  refine .trans (@pollPolicy_steps _ .abort fun _ h => nomatch h) ?_
  refine .trans (@pollPolicy_steps _ .finish fun _ h => nomatch h) ?_
  exact .single .manualStatus

theorem pollPolicies_steps : PollSteps s s.pollPolicies := by
  unfold pollPolicies
  have aborted : PollSteps s (if s.needsAbort then s.abort.2 else s) := by
    split
    case isTrue h => exact abort_steps (.inl h)
    case isFalse  => exact .refl
  exact aborted.trans servePolicies_steps.pollSteps

theorem pollMotion_steps : PollSteps s s.pollMotion.2 :=
  pollRuntime_steps.trans (pollPolicies_steps.trans (pollProbes_steps _).pollSteps)

end Motion

section Queue

-- Handing over an entry that asks for no wait keeps the queue going.
theorem advanceQueue_of_no_wait {entry : GcodeQueueEntry} (hn : ¬(entry.waitBed || entry.waitNozzle)) :
    s.advanceQueue entry = { s with
      status          := applyAcceptedHeaterTarget s.status entry.command
      gcodeQueueIndex := s.gcodeQueueIndex + 1 } := by
  simp only [Bool.or_eq_true, not_or] at hn
  rw [advanceQueue, if_neg hn.1, if_neg hn.2]

theorem sendQueue_steps {rounds : Nat} (ha : s.gcodeQueueActive) (hw : ¬s.heaterWait.active) :
    GcodeSteps s (sendQueue rounds s).2 := by
  induction rounds generalizing s
  case zero => exact .tail (.single (.queue (.done ha hw))) .manualStatus
  case succ rounds ih =>
    simp only [sendQueue]
    split
    case h_1 => exact .tail (.single (.queue (.done ha hw))) .manualStatus
    case h_2 entry he =>
      split
      case isTrue => exact .refl
      case isFalse =>
        generalize hs : s.send .gcodeQueue entry.command = sent
        obtain ⟨rc, s₁⟩ := sent
        dsimp only
        split
        case isTrue hz =>
          cases hz
          have sent : GcodeSteps s (s₁.advanceQueue entry) := .single (.queue (.send ha hw he hs))
          split
          case isTrue => exact sent
          case isFalse hn =>
            have ⟨_, _, _, hq, _⟩ := send_ok hs
            have hn := @advanceQueue_of_no_wait s₁ entry hn
            exact sent.trans (ih (by rw [hn, hq]; exact ha) (by rw [hn, hq]; exact hw))
        case isFalse hz =>
          split
          case isTrue hf =>
            cases hf
            rw [send_of_flowFull hs]
          case isFalse hf => exact .single (.queue (.fail ha hw he hs hz hf))

theorem pollGcode_steps : GcodeSteps s s.pollGcode.2 := by
  unfold pollGcode
  split
  case isTrue => exact .refl
  case isFalse ha =>
    have ha : s.gcodeQueueActive := by simpa using ha
    split
    case isTrue hw =>
      split
      case isTrue hr => exact .single (.applyWait hw (by simpa using hr))
      case isFalse hr =>
        refine .head (.waitOver (by simpa using hr)) (@sendQueue_steps s.clearWait _ ha ?_)
        simp [clearWait, HeaterWait.clear]
    case isFalse hw => exact sendQueue_steps ha hw

theorem QueueStep.pauseResumeBusy_eq (h : QueueStep s s') :
    s'.pauseResumeBusy = s.pauseResumeBusy := by
  cases h
  case send hs =>
    have ⟨_, _, _, he, _⟩ := send_ok hs
    cases he
    unfold advanceQueue
    split
    case isTrue => rfl
    case isFalse =>
      split
      case isTrue  => rfl
      case isFalse => rfl
  case fail hz hf _ _ _ hs =>
    have ⟨_, _, _, he, _⟩ := send_fail hs hz hf
    cases he
    rfl
  case done => rfl

theorem pauseResumeBusy_refreshManualStatus :
    s.refreshManualStatus.pauseResumeBusy = s.pauseResumeBusy := by
  unfold refreshManualStatus
  split
  case isTrue => rfl
  case isFalse =>
    split
    case isTrue  => rfl
    case isFalse => rfl

theorem GcodeStep.pauseResumeBusy_eq (h : GcodeStep s s') :
    s'.pauseResumeBusy = s.pauseResumeBusy := by
  cases h
  case queue h      => exact h.pauseResumeBusy_eq
  case applyWait    => rfl
  case waitOver     => rfl
  case manualStatus => exact pauseResumeBusy_refreshManualStatus

theorem PollSteps.jobSteps (h : PollSteps s s') : JobSteps s s' :=
  ReflTransGen.mono (fun _ _ h => .poll h) _ _ h

-- The queue is polled when no pause or resume is going on.
theorem GcodeSteps.jobSteps (h : GcodeSteps s s') (hb : ¬s.pauseResumeBusy) : JobSteps s s' := by
  suffices JobSteps s s' ∧ ¬s'.pauseResumeBusy from this.1
  induction h
  case refl => exact ⟨.refl, hb⟩
  case tail step ih =>
    refine ⟨ih.1.tail ?_, step.pauseResumeBusy_eq ▸ ih.2⟩
    cases step
    case queue h        => exact .queue ih.2 h
    case applyWait hw h => exact .poll (.motion <| .applyWait hw h)
    case waitOver h     => exact .poll (.motion <| .waitOver h)
    case manualStatus   => exact .poll (.motion .manualStatus)

end Queue

section Command

theorem enqueueLines_eq {lines : List CString} {queue queue' : List GcodeQueueEntry}
    (h : enqueueLines lines queue = some queue') :
    queue' = queue ++ lines.flatMap fun line => rewriteEntries (.line line) := by
  induction lines generalizing queue
  case nil => simpa [enqueueLines] using h.symm
  case cons line lines ih =>
    simp only [enqueueLines] at h
    split at h
    case isTrue  => contradiction
    case isFalse => rw [ih h, List.flatMap_cons, List.append_assoc]

-- The service with the commands of a GCODE command in its queue.
def enqueued (s : Service) (queue : List GcodeQueueEntry) : Service :=
  applyQueuedHeaterTargets { s.clearQueue with gcodeQueue := queue }

-- A GCODE command is refused, or its commands are worked off.
theorem runGcode_steps {lines : List CString} :
    (s.runGcode lines).2 = s ∨ ¬s.gcodeQueueActive ∧
    ((s.runGcode lines).2 = s.clearQueue ∨
     ∃ active, GcodeSteps { s.enqueued (lines.flatMap fun line => rewriteEntries (.line line)) with
       gcodeQueueActive := active } (s.runGcode lines).2) := by
  unfold runGcode
  split
  case isTrue => exact .inl rfl
  case isFalse ha =>
    refine .inr ⟨ha, ?_⟩
    dsimp only
    split
    case h_1 => exact .inl rfl
    case h_2 queue hq =>
      have hq := (enqueueLines_eq hq).trans (List.nil_append _)
      rw [← hq]
      refine .inr ?_
      split
      case isTrue =>
        exact ⟨(s.enqueued queue).gcodeQueueActive, .single .manualStatus⟩
      case isFalse =>
        refine ⟨true, ?_⟩
        have polled := @pollGcode_steps { s.enqueued queue with gcodeQueueActive := true }
        split
        case isTrue  => exact polled
        case isFalse => exact polled.tail .manualStatus

end Command

section Stream

-- Only the timing of the job changes.
def Timed (s s' : Service) : Prop :=
  ∃ timer timeTotal timeLeft, s' = { s with
    jobTimer := timer
    status   := { s.status with timeTotal := timeTotal, timeLeft := timeLeft } }

theorem Timed.steps : Timed s s' → JobSteps s s'
  | ⟨_, _, _, h⟩ => h ▸ .single (.poll (.motion <| .quiet (.timing ..)))

theorem Timed.trans {s'' : Service} : Timed s s' → Timed s' s'' → Timed s s''
  | ⟨_, _, _, h⟩, ⟨_, _, _, h'⟩ => ⟨_, _, _, by rw [h', h]⟩

theorem updateJobTiming_timed (now : Int) : Timed s (s.updateJobTiming now) := by
  unfold updateJobTiming
  split
  case isTrue => exact ⟨_, _, _, rfl⟩
  case isFalse =>
    split
    case isTrue => exact ⟨_, _, _, rfl⟩
    case isFalse =>
      split
      case isTrue => exact ⟨_, _, _, rfl⟩
      case isFalse =>
        split
        case isTrue => exact ⟨_, _, _, rfl⟩
        case isFalse =>
          split
          case isTrue  => exact ⟨_, _, _, rfl⟩
          case isFalse => exact ⟨_, _, _, rfl⟩

theorem applyLayerMarker_timed (now : Int) : Timed s (s.applyLayerMarker now) := by
  unfold applyLayerMarker
  split
  case isTrue  => exact ⟨_, _, _, rfl⟩
  case isFalse => exact ⟨_, _, _, rfl⟩

theorem applyElapsedMarker_timed (now : Int) : Timed s (s.applyElapsedMarker now) := by
  unfold applyElapsedMarker
  split
  case isTrue  => exact ⟨_, _, _, rfl⟩
  case isFalse => exact ⟨_, _, _, rfl⟩

theorem applyGcodeTimingMarkers_timed (now : Int) : Timed s (s.applyGcodeTimingMarkers now) := by
  unfold applyGcodeTimingMarkers
  split
  case isTrue => exact ⟨_, _, _, rfl⟩
  case isFalse =>
    have started : Timed s (if s.jobTimer.originalTimeTotal ≤ 0
        then { s with jobTimer := { s.jobTimer with originalTimeTotal := s.status.timeTotal } }
        else s) := by
      split
      case isTrue  => exact ⟨_, _, _, rfl⟩
      case isFalse => exact ⟨_, _, _, rfl⟩
    exact started.trans ((applyLayerMarker_timed now).trans (applyElapsedMarker_timed now))

-- A command list that `send_command_list` works off is a part of the list of the prepare stage.
structure ListAt (stage : PrepareStage) (stream : GcodeStream) (commands : List CString)
    (which : JobIndex) (offset : Nat) (s : Service) : Prop where
  streams : Streams s
  stage   : s.jobPrepareStage = stage
  stream  : s.jobStream = stream
  index   : s.prepareIndex = which
  reached : offset ≤ s.jobIndex which
  part    : ∀ i c, commands[i]? = some c → s.prepareList[offset + i]? = some c

variable {stage : PrepareStage} {stream : GcodeStream} {commands : List CString} {which : JobIndex}
variable {offset : Nat}

theorem ListAt.prepareCommand_eq (at' : ListAt stage stream commands which offset s) {c : CString}
    (hc : commands[s.jobIndex which - offset]? = some c) : s.prepareCommand = some c := by
  have := at'.part _ _ hc
  rwa [Nat.add_sub_cancel' at'.reached, ← at'.index] at this

theorem ListAt.advance {flow : FlowControl} {serial : SerialTransport} {trace : List Event}
    (at' : ListAt stage stream commands which offset s) :
    ListAt stage stream commands which offset
      (advanceJobIndex { s with flow := flow, serial := serial, trace := trace } which) := by
  have ⟨⟨_, _, _, _, _, _⟩, _, _, _, reached, _⟩ := at'
  have reached := Nat.le_add_right_of_le (k := 1) reached
  cases which
  case prepare => constructor <;> first | assumption | constructor <;> assumption
  case startup => constructor <;> first | assumption | constructor <;> assumption

theorem jobIndex_advanceJobIndex :
    (s.advanceJobIndex which).jobIndex which = s.jobIndex which + 1 := by
  cases which <;> rfl

theorem sendCommandList_steps {rounds : Nat} {sentAny : Bool}
    (at' : ListAt stage stream commands which offset s)
    (hl : commands.length ≤ s.jobIndex which - offset + rounds) :
    let r := sendCommandList commands which offset rounds sentAny s
    JobSteps s r.2 ∧ (1 < r.1 → ListAt stage stream commands which offset r.2 ∧
      commands.length ≤ r.2.jobIndex which - offset) := by
  induction rounds generalizing s sentAny
  case zero => exact ⟨.refl, fun _ => ⟨at', hl⟩⟩
  case succ rounds ih =>
    simp only [sendCommandList]
    split
    case h_1 hn => exact ⟨.refl, fun _ => ⟨at', List.getElem?_eq_none_iff.mp hn⟩⟩
    case h_2 command hc =>
      have hc := at'.prepareCommand_eq hc
      split
      case isTrue =>
        refine ⟨.refl, fun h => ?_⟩
        revert h
        split <;> simp
      case isFalse =>
        generalize hs : s.send .streamer command = sent
        obtain ⟨rc, s₁⟩ := sent
        dsimp only
        split
        case isTrue hz =>
          cases hz
          have step : JobStep s s₁.advancePrepare := .stream at'.streams (.prepare hc hs)
          have ⟨flow, serial, _, he, _⟩ := send_ok hs
          have hadv : s₁.advancePrepare = s₁.advanceJobIndex which := by
            rw [advancePrepare, ← at'.index, he]
            rfl
          have next : ListAt stage stream commands which offset (s₁.advanceJobIndex which) :=
            he ▸ at'.advance
          have hi : s₁.jobIndex which = s.jobIndex which := by
            rw [he]
            cases which <;> rfl
          have ⟨steps, done⟩ := @ih (s₁.advanceJobIndex which) true next (by
            rw [jobIndex_advanceJobIndex, hi]
            have := at'.reached
            omega)
          exact ⟨.head (hadv ▸ step) steps, done⟩
        case isFalse hz =>
          split
          case isTrue hf =>
            cases hf
            rw [send_of_flowFull hs]
            exact ⟨.refl, by simp⟩
          case isFalse hf =>
            exact ⟨.single (.stream at'.streams (.prepareFail hc hs hz hf)), by simp⟩

theorem prepareIndex_eq_startup (h : s.jobPrepareStage = .startup) : s.prepareIndex = .startup := by
  rw [prepareIndex, h]

-- The startup commands are the end of the startup list.
theorem ListAt.startup (hs : Streams s) (hst : s.jobPrepareStage = .startup)
    (hr : ¬s.jobStream.hasPrimeCmd → primeFilamentCommands.length ≤ s.jobStartupIndex) :
    ListAt .startup s.jobStream startupCommands .startup
      (if s.jobStream.hasPrimeCmd then 0 else primeFilamentCommands.length) s := by
  refine ⟨hs, hst, rfl, prepareIndex_eq_startup hst, ?_, ?_⟩
  case refine_1 =>
    split
    case isTrue    => exact Nat.zero_le _
    case isFalse h => exact hr h
  case refine_2 =>
    intro i c hc
    rw [prepareList, hst]
    dsimp only [startupList]
    split
    case isTrue  => simpa using hc
    case isFalse => rwa [List.getElem?_append_right (Nat.le_add_right ..), Nat.add_sub_cancel_left]

-- The prime commands are its beginning.
theorem ListAt.prime (hs : Streams s) (hst : s.jobPrepareStage = .startup)
    (hp : ¬s.jobStream.hasPrimeCmd) :
    ListAt .startup s.jobStream primeFilamentCommands .startup 0 s := by
  refine ⟨hs, hst, rfl, prepareIndex_eq_startup hst, Nat.zero_le _, ?_⟩
  intro i c hc
  rw [prepareList, hst]
  dsimp only [startupList]
  rw [if_neg hp, Nat.zero_add]
  exact List.getElem?_append_left (List.getElem?_eq_some_iff.mp hc).1 ▸ hc

-- What is left of the startup stage when its commands are sent.
structure StartupSent (s : Service) : Prop where
  streams : Streams s
  stage   : s.jobPrepareStage = .startup
  sent    : s.startupList.length ≤ s.jobStartupIndex

theorem sendStartup_steps (hs : Streams s) (hst : s.jobPrepareStage = .startup)
    (hr : ¬s.jobStream.hasPrimeCmd → primeFilamentCommands.length ≤ s.jobStartupIndex) :
    JobSteps s s.sendStartup.2 ∧ (1 < s.sendStartup.1 → StartupSent s.sendStartup.2) := by
  have ⟨steps, done⟩ := @sendCommandList_steps s _ _ _ _ _ startupCommands.length false
    (.startup hs hst hr) (Nat.le_add_left ..)
  refine ⟨steps, fun h => ?_⟩
  have ⟨at', hl⟩ := done h
  refine ⟨at'.streams, at'.stage, ?_⟩
  have : s.sendStartup.2.startupList = s.startupList := by
    rw [startupList, startupList, show s.sendStartup.2.jobStream = s.jobStream from at'.stream]
  have hl : startupCommands.length ≤ s.sendStartup.2.jobStartupIndex -
    (if s.jobStream.hasPrimeCmd then 0 else primeFilamentCommands.length) := hl
  rw [this, startupList]
  by_cases h : s.jobStream.hasPrimeCmd
  case pos =>
    rw [if_pos h] at hl ⊢
    exact hl
  case neg =>
    rw [if_neg h] at hl
    rw [if_neg h, List.length_append]
    have : 0 < startupCommands.length := by decide
    omega

theorem sendJobStartup_steps (hs : Streams s) (hst : s.jobPrepareStage = .startup) :
    JobSteps s s.sendJobStartup.2 ∧ (1 < s.sendJobStartup.1 → StartupSent s.sendJobStartup.2) := by
  unfold sendJobStartup
  split
  case isTrue h =>
    simp only [Bool.and_eq_true, Bool.not_eq_true', decide_eq_true_eq] at h
    have ⟨steps, done⟩ := @sendCommandList_steps s _ _ _ _ _ primeFilamentCommands.length false
      (.prime hs hst (by simp [h.1])) (Nat.le_add_left ..)
    generalize sendCommandList primeFilamentCommands .startup 0 primeFilamentCommands.length false s
      = r at steps done
    dsimp only
    split
    case isTrue => exact ⟨steps, by omega⟩
    case isFalse hr =>
      have ⟨at', hl⟩ := done (by omega)
      have ⟨steps', done'⟩ := @sendStartup_steps r.2 at'.streams at'.stage (fun _ => hl)
      exact ⟨steps.trans steps', done'⟩
  case isFalse h =>
    refine sendStartup_steps hs hst fun hp => ?_
    simpa [hp] using h

theorem pollJobPrepare_steps (hs : Streams s) : JobSteps s s.pollJobPrepare.2 := by
  unfold pollJobPrepare
  split
  case h_1 hst =>
    have at' : ListAt .home s.jobStream prepareHomeCommands .prepare 0 s :=
      ⟨hs, hst, rfl, by rw [prepareIndex, hst], Nat.zero_le _, by simp [prepareList, hst]⟩
    have ⟨steps, done⟩ := @sendCommandList_steps s _ _ _ _ _ prepareHomeCommands.length false at'
      (Nat.le_add_left ..)
    generalize sendCommandList prepareHomeCommands .prepare 0 prepareHomeCommands.length false s = r
      at steps done
    dsimp only
    split
    case isTrue => exact steps
    case isFalse hr =>
      have ⟨at', hl⟩ := done (by omega)
      exact steps.tail (.stream at'.streams (.homeSent at'.stage hl))
  case h_2 hst =>
    split
    case isTrue     => exact .refl
    case isFalse hi => exact .single (.stream hs (.homeDrained hst (by simpa using hi)))
  case h_3 hst =>
    split
    case isTrue hr => exact .single (.stream hs (.heated hst hr))
    case isFalse hr =>
      rw [if_pos (active_of_not_ready hr)]
      exact .single (.poll (.motion <| .applyWait (active_of_not_ready hr) hr))
  case h_4 hst =>
    have ⟨steps, done⟩ := sendJobStartup_steps hs hst
    generalize s.sendJobStartup = r at steps done
    dsimp only
    split
    case isTrue => exact steps
    case isFalse hr =>
      have sent := done (by omega)
      exact steps.tail (.stream sent.streams (.startupSent sent.stage sent.sent))
  case h_5 hst =>
    split
    case isTrue     => exact .refl
    case isFalse hi => exact .single (.stream hs (.startupDrained hst (by simpa using hi)))
  case h_6 => exact .refl

-- A line of the file is handed over only when the flow control can take it, so no line gets lost.
theorem streamLine_cases {env : PollEnv} {line : CString} {t : Service}
    (ht : t = { s with plannerStarvationCount := s.plannerStarvationCount + 1 })
    (hc : s.flow.canSend) (hi : s.flow.inflight = 0) :
    (∃ s₁, t.setStreaming.send .streamer line = (0, s₁) ∧
      Timed s₁.startLineWait (s.streamLine env line).2) ∨
    (∃ rc s₁, t.setStreaming.send .streamer line = (rc, s₁) ∧ rc ≠ 0 ∧ rc ≠ MotionSender.flowFull ∧
      (s.streamLine env line).2 = s₁.failStream rc) := by
  have starved : s.setStreaming.countStarvation = t.setStreaming := by
    rw [ht, countStarvation, if_pos (show s.setStreaming.flow.inflight = 0 from hi)]
    rfl
  unfold streamLine
  rw [starved]
  dsimp only
  have hne : (t.setStreaming.send .streamer line).1 ≠ MotionSender.flowFull :=
    send_rc_ne_flowFull (ht ▸ hc)
  generalize t.setStreaming.send .streamer line = sent at hne
  obtain ⟨rc, s₁⟩ := sent
  dsimp only at hne ⊢
  split
  case isTrue hz =>
    cases hz
    exact .inl ⟨s₁, rfl, (applyGcodeTimingMarkers_timed _).trans (updateJobTiming_timed _)⟩
  case isFalse hz =>
    exact .inr ⟨rc, s₁, rfl, hz, hne, rfl⟩

theorem streamLine_steps {env : PollEnv} (hs : Streams s) (hst : s.jobPrepareStage = .done)
    (hw : ¬s.heaterWait.active) (hc : s.flow.canSend) (hi : s.flow.inflight = 0)
    (hr : 0 < (s.readStream env.buffer).1) :
    JobSteps s ((s.readStream env.buffer).2.2.streamLine env (s.readStream env.buffer).2.1).2 := by
  let t := { s with plannerStarvationCount := s.plannerStarvationCount + 1 }
  have streams : Streams t := ⟨hs.1, hs.2, hs.3, hs.4, hs.5, hs.6⟩
  refine .head (.poll (.motion <| .quiet (.starvation (s.plannerStarvationCount + 1)))) ?_
  rcases @streamLine_cases (s.readStream env.buffer).2.2 env (s.readStream env.buffer).2.1
    (t.readStream env.buffer).2.2 rfl hc hi with ⟨s₁, hsend, timed⟩ | ⟨rc, s₁, hsend, hz, hf, he⟩
  case inl =>
    exact .head (.stream streams (.stream env.buffer hst hw hr hsend)) timed.steps
  case inr =>
    rw [he]
    exact .single (.stream streams (.streamFail env.buffer hst hw hr hsend hz hf))

theorem pollStream_steps {env : PollEnv} (hs : Streams s) (hst : s.jobPrepareStage = .done)
    (hw : ¬s.heaterWait.active) : JobSteps s (s.pollStream env).2 := by
  unfold pollStream
  split
  case isTrue => exact .refl
  case isFalse hc =>
    simp only [Bool.or_eq_true, Bool.not_eq_true', not_or, Bool.not_eq_false] at hc
    have hi : s.flow.inflight = 0 := by
      have := mt decide_eq_true hc.2
      rw [jobStreamWindow] at this
      omega
    dsimp only
    split
    case isTrue hr => exact .single (.stream hs (.readFail env.buffer hst hw hr))
    case isFalse hn =>
      split
      case isTrue hr =>
        rw [if_neg (show ¬(s.readStream env.buffer).2.2.flow.inflight ≠ 0 from not_not_intro hi)]
        exact .single (.stream hs (.readEnd env.buffer hst hw hi hr))
      case isFalse hz => exact streamLine_steps hs hst hw hc.1.2 hi (by omega)

theorem pollStreamer_steps {env : PollEnv} (ha : ¬s.abortRequested) (hb : ¬s.pauseResumeBusy)
    (hq : ¬s.gcodeQueueActive) : JobSteps s (s.pollStreamer env).2 := by
  unfold pollStreamer
  split
  case isTrue hj =>
    refine .head (.dropWait (by simpa using hj) hb hq) (.single (.poll .dropAbort))
  case isFalse hj =>
    have timed := @updateJobTiming_timed s (env.clock 0)
    have steps := timed.steps
    obtain ⟨_, _, _, he⟩ := timed
    have hj : (s.updateJobTiming (env.clock 0)).jobActive := by rw [he]; simpa using hj
    have ha : ¬(s.updateJobTiming (env.clock 0)).abortRequested := by rw [he]; exact ha
    have hb : ¬(s.updateJobTiming (env.clock 0)).pauseResumeBusy := by rw [he]; exact hb
    have hq : ¬(s.updateJobTiming (env.clock 0)).gcodeQueueActive := by rw [he]; exact hq
    generalize s.updateJobTiming (env.clock 0) = s₁ at steps hj ha hb hq
    refine steps.trans ?_
    dsimp only
    split
    case isTrue he => exact .single (.errorExit hj hb hq he)
    case isFalse he =>
      split
      case isTrue => exact (updateJobTiming_timed _).steps
      case isFalse hp =>
        have hp : s₁.status.state ≠ .paused ∧ s₁.status.state ≠ .pausing := by simpa using hp
        split
        case isTrue hf => exact .single (.streaming hj hb hq hf he hp)
        case isFalse hf =>
          have streams : Streams s₁ := ⟨hj, hb, hq, he, hp, hf⟩
          split
          case isTrue => exact pollJobPrepare_steps streams
          case isFalse hd =>
            split
            case isTrue hr =>
              refine .head (.poll (.motion <| .waitOver hr)) (pollStream_steps ?_ (Decidable.not_not.mp hd) ?_)
              case refine_1 => exact ⟨hj, hb, hq, he, hp, hf⟩
              case refine_2 => simp [clearWait, HeaterWait.clear]
            case isFalse hr =>
              exact .single (.poll (.motion <| .applyWait (active_of_not_ready hr) hr))

theorem pollJob_steps {env : PollEnv} : JobSteps s (s.pollJob env).2 := by
  unfold pollJob
  split
  case isTrue ha => exact (abort_steps (.inr ha)).jobSteps
  case isFalse ha =>
    split
    case isTrue => exact .refl
    case isFalse hb =>
      split
      case isTrue     => exact pollGcode_steps.jobSteps hb
      case isFalse hq => exact pollStreamer_steps ha hb hq

end Stream

section Macro

variable {cmd : MacroCommand}

theorem PollSteps.macroSteps (h : PollSteps s s') : MacroSteps cmd s s' :=
  ReflTransGen.mono (fun _ _ h => .poll h) _ _ h

theorem waitLoop_steps {round : Service → Option Int × Service} {expired : List Bool}
    (hr : ∀ s, MacroSteps cmd s (round s).2) : MacroSteps cmd s (waitLoop round expired s).2.2 := by
  induction expired generalizing s
  case nil => exact hr s
  case cons b rest ih =>
    have polled := hr s
    cases b
    all_goals
      rw [waitLoop]
      generalize round s = r at polled
      obtain ⟨rc, s₁⟩ := r
      cases rc
    case false.none => exact polled.trans ih
    case false.some => exact polled
    case true.none  => exact polled
    case true.some  => exact polled

theorem waitForStreamWindow_steps {expired : List Bool} :
    MacroSteps cmd s (waitForStreamWindow expired s).2.2 := by
  refine waitLoop_steps fun s => ?_
  unfold windowRound
  split
  case isTrue => exact .refl
  case isFalse =>
    split
    case isTrue  => exact .refl
    case isFalse => exact pollMotion_steps.macroSteps

theorem waitForHeater_steps {expired : List Bool} :
    MacroSteps cmd s (waitForHeater expired s).2.2 := by
  refine waitLoop_steps fun s => ?_
  unfold heaterRound
  split
  case isTrue hr => exact .single (.poll (.motion <| .waitOver hr))
  case isFalse hr =>
    have applied : MacroSteps cmd s s.applyWait :=
      .single (.poll (.motion <| .applyWait (active_of_not_ready hr) hr))
    split
    case isTrue  => exact applied
    case isFalse => exact applied.trans pollMotion_steps.macroSteps

theorem afterMacroLine_steps {file : JobFile} {lines : List CString} {stream : GcodeStream}
    {expired : List Bool} (hf : cmd.file = some file)
    (emits : GcodeStream.Emits (.open file) lines stream) :
    MacroSteps cmd s (s.afterMacroLine stream expired).2.2 := by
  unfold afterMacroLine
  have waited : MacroSteps cmd s
      (if stream.asksWait then waitForHeater expired (s.startMacroWait stream)
        else (0, expired, s)).2.2 := by
    split
    case isTrue asks => exact .head (.startWait hf emits asks) waitForHeater_steps
    case isFalse     => exact .refl
  generalize (if stream.asksWait then waitForHeater expired (s.startMacroWait stream)
    else (0, expired, s)) = r at waited
  dsimp only
  split
  case isTrue  => exact waited
  case isFalse => exact waited.trans pollMotion_steps.macroSteps

theorem runMacroLines_steps {file : JobFile} {buffers : Nat → LineBuffer} {rounds : Nat}
    {lines : List CString} {stream : GcodeStream} {expired : List Bool}
    (hf : cmd.file = some file) (emits : GcodeStream.Emits (.open file) lines stream) :
    MacroSteps cmd s (runMacroLines buffers rounds stream expired s).2.2 := by
  induction rounds generalizing s lines stream expired
  case zero => exact waitForStreamWindow_steps
  case succ rounds ih =>
    simp only [runMacroLines]
    generalize hn : stream.next (buffers rounds) = result
    obtain ⟨rc, line, stream'⟩ := result
    dsimp only
    split
    case isTrue => exact .refl
    case isFalse hneg =>
      split
      case isTrue => exact waitForStreamWindow_steps
      case isFalse hzero =>
        have emits := emits.next (buffers rounds) hn (by omega)
        split
        case isTrue => exact .refl
        case isFalse =>
          have opened := @waitForStreamWindow_steps s cmd expired
          split
          case isTrue => exact opened
          case isFalse =>
            have sent := opened.tail (.send line)
            split
            case isTrue => exact sent
            case isFalse =>
              have waited := sent.trans <|
                @afterMacroLine_steps _ _ _ _ _ (waitForStreamWindow expired s).2.1 hf emits
              split
              case isTrue  => exact waited
              case isFalse => exact waited.trans (ih emits)

theorem runMacro_steps : MacroSteps cmd s (s.runMacro cmd).2 := by
  have ran : MacroSteps cmd s (s.runMacroFile cmd).2 := by
    unfold runMacroFile
    split
    case isTrue => exact .refl
    case isFalse =>
      split
      case h_1         => exact .refl
      case h_2 file hf => exact runMacroLines_steps hf .nil
  unfold runMacro
  dsimp only
  split
  case isTrue  => exact ran.tail (.fail _ _)
  case isFalse => exact ran

end Macro

end Deneb.Service
