import DenebModel.Execution.Traffic
import DenebModel.Execution.Theorems.Lifecycle

namespace Deneb

open CString BinaryFloat Relation Traffic

-- The commands of the G-code queue fit into a packet.
def Traffic.QueueFits (t : Traffic) : Prop :=
  ∀ entry ∈ t.queue, entry.command.length ≤ 255

namespace Service

-- The service goes from one of the states to the other by steps of its traffic.
abbrev Moves (s s' : Service) : Prop :=
  Traffic.Steps s.traffic s'.traffic

variable {s s' s₁ : Service} {p : Producer} {command : CString} {rc : Int} {kind : PolicyKind}

theorem Moves.of_eq (h : s'.traffic = s.traffic) : Moves s s' := by
  rw [Moves, h]

theorem Moves.step {t : Traffic} (h : Step s.traffic t) (he : s'.traffic = t) : Moves s s' := by
  rw [Moves, he]
  exact .single h

section Send

-- What an attempt to send a command does to the traffic.
inductive Sent (s : Service) (p : Producer) (command : CString) (rc : Int) : Service → Prop
  | handed (failed : Bool) (serial) : (s.traffic.prepare command).rc = 0 → (failed → rc ≠ 0) →
    Sent s p command rc { s with
      flow   := (s.traffic.prepare command).flow
      serial := serial
      trace  := s.trace ++ .handed p command (s.traffic.prepare command).slot s.jobActive ::
        if failed then [.writeFailed] else [] }
  | refused : (s.traffic.prepare command).rc = -1 → rc ≠ 0 → 255 < command.length →
    Sent s p command rc { s with flow := (s.traffic.prepare command).flow }
  | kept : rc ≠ 0 → Sent s p command rc s

theorem sent_of_send (h : s.send p command = (rc, s₁)) : Sent s p command rc s₁ := by
  unfold send MotionSender.sendGcode at h
  split at h
  case isTrue =>
    simp only [List.append_nil, Prod.mk.injEq] at h
    obtain ⟨rfl, rfl⟩ := h
    exact .kept (by decide)
  case isFalse =>
    dsimp only at h
    split at h
    case isTrue hp =>
      simp only [List.append_nil, Prod.mk.injEq] at h
      obtain ⟨hrc, rfl⟩ := h
      obtain ⟨-, ⟨hr, hf⟩ | ⟨hr, he⟩⟩ := FlowControl.preparePacket_of_rc_ne_zero hp
      case inl =>
        rw [hf]
        refine .kept ?_
        rw [← hrc, if_pos hr]
        decide
      case inr =>
        refine .refused hr ?_ ?_
        case refine_1 => rw [← hrc, if_neg (by rw [hr]; decide)]; decide
        case refine_2 =>
          by_contra hc
          have fits := @MarlinPacket.encode_isSome s.flow.nextSequence command MotionSender.packetSize
            (Nat.not_lt.mp hc) (by decide)
          rw [he] at fits
          contradiction
    case isFalse hp =>
      have hp := Decidable.not_not.mp hp
      split at h
      case isTrue =>
        cases h
        exact .handed false s.serial hp (absurd · Bool.false_ne_true)
      case isFalse =>
        dsimp only at h
        generalize s.serial.writeAll _ = written at h
        obtain ⟨ok, serial⟩ := written
        cases ok
        case true =>
          cases h
          exact .handed false _ hp (absurd · Bool.false_ne_true)
        case false =>
          cases h
          exact .handed true _ hp fun _ => by simp [MotionSender.serialError]

theorem Sent.moves (h : Sent s p command rc s₁) (ha : s.flow.admits p) (hl : command.length ≤ 255) :
    Moves s s₁ := by
  cases h
  case handed failed serial hp hf => exact .single (.send p command failed ha hp)
  case refused long               => omega
  case kept                       => exact .refl

theorem send_moves (ha : s.flow.admits p) (hl : command.length ≤ 255) : Moves s (s.send p command).2 :=
  have sent : s.send p command = ((s.send p command).1, (s.send p command).2) := rfl
  (sent_of_send sent).moves ha hl

theorem admits_of_open (h : ¬s.windowClosed) (hp : p ≠ .statusProbe ∧ p ≠ .macroRunner) :
    s.flow.admits p := by
  cases p
  case statusProbe => exact absurd rfl hp.1
  case macroRunner => exact absurd rfl hp.2
  all_goals simpa [FlowControl.admits, windowClosed] using h

theorem admits_policy (h : ¬s.windowClosed) : s.flow.admits (.policy kind) :=
  admits_of_open h (by simp)

end Send

section Policy

theorem traffic_stopPolicy : (s.stopPolicy kind).traffic = s.traffic.stop kind := by
  cases kind <;> simp [stopPolicy, setPolicy, traffic, Traffic.stop]

theorem traffic_record {events : List Event} : (s.record events).traffic = s.traffic.record events := rfl

theorem traffic_giveUp : ((s.stopPolicy kind).record [.policyFailed kind]).traffic =
    (s.traffic.record [.policyFailed kind]).stop kind := by
  rw [traffic_record, traffic_stopPolicy]
  rfl

theorem traffic_failPolicy : (s.failPolicy kind rc).traffic =
    (s.traffic.record [.policyFailed kind]).stop kind := by
  rw [← traffic_giveUp]
  cases kind <;> rfl

theorem Sent.moves_fail (h : Sent s (.policy kind) command rc s₁) (ha : s.flow.admits (.policy kind))
    (ht : s'.traffic = (s₁.traffic.record [.policyFailed kind]).stop kind) : Moves s s' := by
  rw [Moves, ht]
  cases h
  case handed failed serial hp hf => exact .tail (.single (.send _ command failed ha hp)) (.fail kind)
  case refused hp _ _             => exact .single (.refuse kind command hp)
  case kept                       => exact .single (.fail kind)

theorem Sent.moves_ok (h : Sent s p command 0 s₁) (ha : s.flow.admits p) : Moves s s₁ := by
  cases h
  case handed failed serial hp hf => exact .single (.send p command failed ha hp)
  case refused                    => contradiction
  case kept                       => contradiction

theorem traffic_advancePolicy : (s.advancePolicy kind).traffic = s.traffic := by
  cases kind <;> rfl

theorem sendPolicy_moves {rounds : Nat} : Moves s (sendPolicy kind rounds s).2 := by
  induction rounds generalizing s
  case zero => exact .refl
  case succ rounds ih =>
    rw [sendPolicy]
    split
    case h_1 => exact .refl
    case h_2 command _ =>
      split
      case isTrue => exact .refl
      case isFalse hw =>
        generalize hs : s.send (.policy kind) command = sent
        obtain ⟨rc, s₁⟩ := sent
        dsimp only
        have ha : s.flow.admits (.policy kind) := admits_policy hw
        split
        case isTrue hz =>
          cases hz
          have sent : Moves s (s₁.advancePolicy kind) :=
            ((sent_of_send hs).moves_ok ha).trans (Moves.of_eq traffic_advancePolicy)
          exact sent.trans ih
        case isFalse =>
          split
          case isTrue hf => cases hf; exact send_of_flowFull hs ▸ .refl
          case isFalse   => exact (sent_of_send hs).moves_fail ha traffic_failPolicy

theorem completePolicy_moves (hp : (s.policy kind).pending) (hi : s.flow.inflight = 0) :
    Moves s (s.completePolicy kind) := by
  cases kind
  case abort  => exact .step (.abortDone hp) (by simp [completePolicy, traffic, Traffic.clear,
    stopPolicy, setPolicy, record, clearWait, clearInflight, resetLineNumber])
  case finish => exact .step (.finishDone hp hi) (by simp [completePolicy, traffic, Traffic.clear,
    stopPolicy, setPolicy, record, clearWait, clearInflight, resetLineNumber])
  case pause  => exact .step (.note (.policyDone .pause) (.inr (.inl rfl))) rfl
  case resume => exact .step (.note (.policyDone .resume) (.inr (.inr rfl))) rfl

-- The loop that works off a policy leaves it pending when all of it is handed over.
theorem pending_sendPolicy {rounds : Nat} (hp : (s.policy kind).pending)
    (h : (sendPolicy kind rounds s).1 = 1) : ((sendPolicy kind rounds s).2.policy kind).pending := by
  induction rounds generalizing s
  case zero => exact hp
  case succ rounds ih =>
    rw [sendPolicy] at h ⊢
    split at h
    case h_1 => exact hp
    case h_2 command _ =>
      split at h
      case isTrue => exact absurd h (by decide : (0 : Int) ≠ 1)
      case isFalse hw =>
        rw [if_neg hw]
        generalize hs : s.send (.policy kind) command = sent at h ⊢
        obtain ⟨rc, s₁⟩ := sent
        dsimp only at h ⊢
        split at h
        case isTrue hz =>
          cases hz
          rw [if_pos rfl]
          refine ih ?_ h
          rw [policy_advancePolicy, policy_of_send_ok hs]
          exact hp
        case isFalse =>
          split at h
          case isTrue  => exact absurd h (by decide : (0 : Int) ≠ 1)
          case isFalse => exact absurd h (by decide : (-1 : Int) ≠ 1)

theorem pollPolicy_moves : Moves s (s.pollPolicy kind).2 := by
  unfold pollPolicy
  split
  case isTrue => exact .refl
  case isFalse hp =>
    have hp : (s.policy kind).pending := by simpa using hp
    have sent := @sendPolicy_moves s kind (s.policy kind).policy.length
    have kept := @pending_sendPolicy s kind (s.policy kind).policy.length hp
    generalize sendPolicy kind (s.policy kind).policy.length s = r at sent kept
    dsimp only
    split
    case isTrue => exact sent
    case isFalse hr =>
      split
      case isTrue     => exact sent
      case isFalse hi => exact sent.trans (completePolicy_moves (kept (by simpa using hr)) (by simpa using hi))

end Policy

section Runtime

theorem traffic_handleLine {line : CString} : (s.handleLine line).2.traffic = s.traffic.respond line := by
  unfold handleLine
  dsimp only
  split <;> rfl

theorem moves_respond {allow : Bool} {line : CString} :
    Moves s ((s.handleLine line).2.reactToResponse allow (s.handleLine line).1).2 := by
  have read : (s.handleLine line).1 = (s.traffic.flow.handleResponse line).1 := rfl
  unfold reactToResponse
  rw [read]
  split
  case isTrue h =>
    refine Moves.step (.line line (by rw [h]; decide)) ?_
    rw [← traffic_handleLine]
    dsimp only
    split <;> rfl
  case isFalse =>
    split
    case isTrue h =>
      refine Moves.step (.desync line h) ?_
      rw [← traffic_handleLine]
      dsimp only
      split <;> rfl
    case isFalse h =>
      refine Moves.step (.line line h) ?_
      rw [← traffic_handleLine]
      split <;> rfl

theorem runtimeLoop_moves {allow : Bool} {rounds : Nat} {handled : Int} :
    Moves s (runtimeLoop allow rounds handled s).2 := by
  induction rounds generalizing s handled
  case zero => exact .refl
  case succ rounds ih =>
    unfold runtimeLoop
    dsimp only
    split
    case isTrue => exact .refl
    case isFalse =>
      split
      case isTrue => exact .refl
      case isFalse =>
        have responded : Moves s _ := @moves_respond s.readLine.2.2 allow s.readLine.2.1
        split
        case isTrue  => exact responded.trans ih
        case isFalse => exact responded

theorem pollRuntime_moves : Moves s s.pollRuntime.2 := by
  unfold pollRuntime
  split
  case isTrue  => exact .refl
  case isFalse => exact runtimeLoop_moves

end Runtime

section Motion

theorem pollPausePositionProbe_moves : Moves s s.pollPausePositionProbe.2 := by
  unfold pollPausePositionProbe
  split
  case isTrue => exact .refl
  case isFalse =>
    split
    case isTrue =>
      split
      case isTrue => exact .refl
      case isFalse hw =>
        have sent : Moves s (s.send .pauseProbe "M114").2 :=
          send_moves (admits_of_open hw (by simp)) (by decide)
        dsimp only
        split
        case isTrue => exact sent
        case isFalse => split <;> exact sent
    case isFalse =>
      split
      case isTrue => exact .refl
      case isFalse =>
        split
        case isTrue => exact .refl
        case isFalse =>
          refine Moves.of_eq ?_
          unfold endPauseProbe beginPauseCleanupFromCurrentPosition
          dsimp only
          split <;> rfl

theorem sendResumeHeatCommand_moves : Moves s s.sendResumeHeatCommand.2 := by
  unfold sendResumeHeatCommand
  split
  case isTrue => exact .refl
  case isFalse =>
    split
    case h_1 => exact .refl
    case h_2 command _ _ =>
      split
      case isTrue => exact .refl
      case isFalse =>
        split
        case isTrue => exact .refl
        case isFalse hw =>
          generalize hs : s.send (.policy .resume) command = sent
          obtain ⟨rc, s₁⟩ := sent
          dsimp only
          have ha : s.flow.admits (.policy .resume) := admits_policy hw
          split
          case isTrue hz =>
            cases hz
            exact (sent_of_send hs).moves_ok ha
          case isFalse =>
            split
            case isTrue hf => cases hf; exact send_of_flowFull hs ▸ .refl
            case isFalse   => exact (sent_of_send hs).moves_fail ha traffic_giveUp

theorem pollResume_moves : Moves s s.pollResume.2 := by
  unfold pollResume
  dsimp only
  have heated : Moves s (if s.resumePolicy.pending && !s.heaterWait.active && s.resumePolicy.index == 0 &&
      lt zero s.pausedNozzleSetpoint then s.sendResumeHeatCommand else (1, s)).2 := by
    split
    case isTrue  => exact sendResumeHeatCommand_moves
    case isFalse => exact .refl
  generalize (if s.resumePolicy.pending && !s.heaterWait.active && s.resumePolicy.index == 0 &&
    lt zero s.pausedNozzleSetpoint then s.sendResumeHeatCommand else (1, s)) = r at heated
  split
  case isTrue => exact heated
  case isFalse =>
    split
    case isTrue =>
      split
      case isTrue  => exact heated
      case isFalse => exact heated.trans (@pollPolicy_moves r.2.clearWait .resume)
    case isFalse => exact heated.trans pollPolicy_moves

theorem pollPauseResume_moves : Moves s s.pollPauseResume.2 := by
  unfold pollPauseResume
  dsimp only
  have probed : Moves s (if s.pausePositionProbePending then s.pollPausePositionProbe else (1, s)).2 := by
    split
    case isTrue  => exact pollPausePositionProbe_moves
    case isFalse => exact .refl
  generalize (if s.pausePositionProbePending then s.pollPausePositionProbe else (1, s)) = r at probed
  split
  case isTrue => exact probed
  case isFalse =>
    have paused : Moves s (r.2.pollPolicy .pause).2 := probed.trans pollPolicy_moves
    split
    case isTrue  => exact paused
    case isFalse => exact paused.trans pollResume_moves

theorem sendStatusProbe_moves {probes : List CString} (hl : ∀ command ∈ probes, command.length ≤ 255) :
    Moves s (sendStatusProbe probes s).2 := by
  induction probes generalizing s
  case nil => exact .refl
  case cons command probes ih =>
    rw [sendStatusProbe]
    split
    case isTrue => exact .refl
    case isFalse =>
      have sent : Moves s (s.send .statusProbe command).2 := send_moves rfl (hl _ List.mem_cons_self)
      dsimp only
      split
      case isTrue => exact sent.trans (ih fun c hc => hl c (List.mem_cons_of_mem _ hc))
      case isFalse => split <;> exact sent

theorem pollStartupProbe_moves (rc : Int) : Moves s (s.pollStartupProbe rc).2 := by
  unfold pollStartupProbe
  split
  case isTrue =>
    have sent : Moves s (sendStatusProbe ["M115", "M105", "M114"] s).2 := sendStatusProbe_moves (by decide)
    refine sent.trans (Moves.of_eq ?_)
    dsimp only
    split <;> rfl
  case isFalse => exact .refl

theorem sendVersionProbe_moves (rc : Int) : Moves s (s.sendVersionProbe rc).2 := by
  unfold sendVersionProbe
  have sent : Moves s (s.send .statusProbe "M115").2 := send_moves rfl (by decide)
  refine sent.trans (Moves.of_eq ?_)
  dsimp only
  split <;> rfl

theorem pollFirmwareProbe_moves (rc : Int) : Moves s (s.pollFirmwareProbe rc).2 := by
  unfold pollFirmwareProbe
  split
  case isTrue =>
    split
    case isTrue => exact .refl
    case isFalse =>
      dsimp only
      split
      case isTrue =>
        have counted : Moves s { s with firmwareProbeTicks := s.firmwareProbeTicks + 1 } := .refl
        exact counted.trans (sendVersionProbe_moves rc)
      case isFalse => exact .refl
  case isFalse => exact .refl

theorem pollTemperatures_moves (rc : Int) : Moves s (s.pollTemperatures rc).2 := by
  unfold pollTemperatures
  split
  case isTrue =>
    dsimp only
    split
    case isTrue =>
      have counted : Moves s { s with temperaturePollTicks := s.temperaturePollTicks + 1 } := .refl
      exact counted.trans (sendStatusProbe_moves (by decide))
    case isFalse => exact .refl
  case isFalse => exact .refl

theorem pollProbes_moves (rc : Int) : Moves s (s.pollProbes rc).2 := by
  unfold pollProbes
  have known : Moves s (if !s.status.firmware.isEmpty then { s with firmwareProbePending := false } else s) :=
    Moves.of_eq (by split <;> rfl)
  exact known.trans ((pollStartupProbe_moves _).trans ((pollFirmwareProbe_moves _).trans
    (pollTemperatures_moves _)))

theorem traffic_refreshManualStatus : s.refreshManualStatus.traffic = s.traffic := by
  unfold refreshManualStatus
  split
  case isTrue  => rfl
  case isFalse => split <;> rfl

theorem startAbort_moves : Moves s s.startAbort := by
  unfold startAbort
  dsimp only
  split
  case isTrue  => exact Moves.step .abort rfl
  case isFalse => exact Moves.step .abortUnready rfl

theorem abort_moves : Moves s s.abort.2 := by
  unfold abort
  split
  case isTrue  => exact .refl
  case isFalse => exact startAbort_moves

theorem servePolicies_moves : Moves s s.servePolicies := by
  unfold servePolicies
  exact pollPauseResume_moves.trans (pollPolicy_moves.trans (pollPolicy_moves.trans
    (Moves.of_eq traffic_refreshManualStatus)))

theorem pollPolicies_moves : Moves s s.pollPolicies := by
  unfold pollPolicies
  dsimp only
  split
  case isTrue  => exact abort_moves.trans servePolicies_moves
  case isFalse => exact servePolicies_moves

theorem pollMotion_moves : Moves s s.pollMotion.2 :=
  pollRuntime_moves.trans (pollPolicies_moves.trans (pollProbes_moves _))

end Motion

section Queue

abbrev QueueFits (s : Service) : Prop :=
  s.traffic.QueueFits

theorem traffic_advanceQueue {entry : GcodeQueueEntry} :
    (s.advanceQueue entry).traffic = s.traffic := by
  unfold advanceQueue
  dsimp only
  split
  case isTrue  => rfl
  case isFalse => split <;> rfl

theorem clearQueue_moves : Moves s s.clearQueue :=
  Moves.step (.queue [] (List.forall_mem_nil _)) rfl

theorem failQueue_moves : Moves s (s.failQueue rc) :=
  Moves.step (.queue [] (List.forall_mem_nil _)) rfl

theorem queueFits_of_traffic (h : s'.traffic = s.traffic) (fits : s.QueueFits) : s'.QueueFits := by
  rw [QueueFits, h]
  exact fits

theorem sendQueue_moves {rounds : Nat} (fits : s.QueueFits) : Moves s (sendQueue rounds s).2 := by
  induction rounds generalizing s
  case zero => exact clearQueue_moves.trans (Moves.of_eq traffic_refreshManualStatus)
  case succ rounds ih =>
    rw [sendQueue]
    split
    case h_1 => exact clearQueue_moves.trans (Moves.of_eq traffic_refreshManualStatus)
    case h_2 entry he =>
      split
      case isTrue => exact .refl
      case isFalse hw =>
        have sent : Moves s (s.send .gcodeQueue entry.command).2 :=
          send_moves (admits_of_open hw (by simp)) (fits entry (List.mem_of_getElem? he))
        have kept : (s.send .gcodeQueue entry.command).2.QueueFits := fits
        generalize s.send .gcodeQueue entry.command = r at sent kept
        have advanced : Moves s (r.2.advanceQueue entry) := sent.trans (Moves.of_eq traffic_advanceQueue)
        dsimp only
        split
        case isTrue =>
          split
          case isTrue  => exact advanced
          case isFalse => exact advanced.trans (ih (queueFits_of_traffic traffic_advanceQueue kept))
        case isFalse =>
          split
          case isTrue  => exact sent
          case isFalse => exact sent.trans failQueue_moves

theorem pollGcode_moves (fits : s.QueueFits) : Moves s s.pollGcode.2 := by
  unfold pollGcode
  split
  case isTrue => exact .refl
  case isFalse =>
    split
    case isTrue =>
      split
      case isTrue => exact .refl
      case isFalse =>
        have waited : Moves s s.clearWait := .refl
        exact waited.trans (sendQueue_moves fits)
    case isFalse => exact sendQueue_moves fits

theorem rewriteEntries_fit {rewrite : GcodeRewrite} :
    ∀ entry ∈ rewriteEntries rewrite, entry.command.length ≤ 255 := by
  intro entry he
  obtain ⟨⟨command, i⟩, -, rfl⟩ := List.mem_map.mp he
  exact Nat.le_of_lt_succ (fit_length_lt command (by decide))

theorem enqueueLines_fit {lines : List CString} {queue queue' : List GcodeQueueEntry}
    (h : enqueueLines lines queue = some queue') (fits : ∀ entry ∈ queue, entry.command.length ≤ 255) :
    ∀ entry ∈ queue', entry.command.length ≤ 255 := by
  have same := enqueueLines_eq h
  subst same
  intro entry he
  cases List.mem_append.mp he
  case inl he => exact fits entry he
  case inr he =>
    obtain ⟨line, -, he⟩ := List.mem_flatMap.mp he
    exact rewriteEntries_fit entry he

theorem runGcode_moves {lines : List CString} : Moves s (s.runGcode lines).2 := by
  unfold runGcode
  split
  case isTrue => exact .refl
  case isFalse =>
    dsimp only
    split
    case h_1 => exact clearQueue_moves
    case h_2 queue hq =>
      have short := enqueueLines_fit hq (List.forall_mem_nil _)
      have filled : Moves s (applyQueuedHeaterTargets { s.clearQueue with gcodeQueue := queue }) := by
        refine Moves.step (.queue queue short) ?_
        exact traffic_refreshManualStatus
      generalize ha : applyQueuedHeaterTargets { s.clearQueue with gcodeQueue := queue } = s₁ at filled
      have fits : s₁.QueueFits := by
        rw [← ha]
        exact queueFits_of_traffic traffic_refreshManualStatus short
      have polled : Moves s (pollGcode { s₁ with gcodeQueueActive := true }).2 :=
        have active : Moves s { s₁ with gcodeQueueActive := true } := filled
        active.trans (pollGcode_moves fits)
      have refreshed {s : Service} : Moves s s.refreshManualStatus := Moves.of_eq traffic_refreshManualStatus
      split
      case isTrue => exact filled.trans refreshed
      case isFalse =>
        split
        case isTrue  => exact polled
        case isFalse => exact polled.trans refreshed

end Queue

section Streamer

theorem traffic_updateJobTiming (now : Int) : (s.updateJobTiming now).traffic = s.traffic := by
  obtain ⟨timer, timeTotal, timeLeft, he⟩ := updateJobTiming_timed (s := s) now
  rw [he]
  rfl

theorem traffic_advanceJobIndex {which : JobIndex} : (s.advanceJobIndex which).traffic = s.traffic := by
  cases which <;> rfl

theorem sendCommandList_moves {commands : List CString} {which : JobIndex} {offset rounds : Nat}
    {sentAny : Bool} (hl : ∀ command ∈ commands, command.length ≤ 255) :
    Moves s (sendCommandList commands which offset rounds sentAny s).2 := by
  induction rounds generalizing s sentAny
  case zero => exact .refl
  case succ rounds ih =>
    rw [sendCommandList]
    split
    case h_1 => exact .refl
    case h_2 command hc =>
      split
      case isTrue => exact .refl
      case isFalse hw =>
        have sent : Moves s (s.send .streamer command).2 :=
          send_moves (admits_of_open hw (by simp)) (hl _ (List.mem_of_getElem? hc))
        dsimp only
        split
        case isTrue  => exact (sent.trans (Moves.of_eq traffic_advanceJobIndex)).trans ih
        case isFalse => split <;> exact sent

theorem sendStartup_moves : Moves s s.sendStartup.2 :=
  sendCommandList_moves (by decide)

theorem sendJobStartup_moves : Moves s s.sendJobStartup.2 := by
  unfold sendJobStartup
  split
  case isTrue =>
    have primed : Moves s (sendCommandList primeFilamentCommands .startup 0 primeFilamentCommands.length
      false s).2 := sendCommandList_moves (by decide)
    dsimp only
    split
    case isTrue  => exact primed
    case isFalse => exact primed.trans sendStartup_moves
  case isFalse => exact sendStartup_moves

theorem drained_moves {stage : PrepareStage} : Moves s ((s.record [.drained]).setStage stage) :=
  Moves.step (.note .drained (.inl rfl)) rfl

theorem pollJobPrepare_moves : Moves s s.pollJobPrepare.2 := by
  unfold pollJobPrepare
  split
  case h_1 =>
    have sent : Moves s (sendCommandList prepareHomeCommands .prepare 0 prepareHomeCommands.length
      false s).2 := sendCommandList_moves (by decide)
    dsimp only
    split <;> exact sent
  case h_2 =>
    split
    case isTrue  => exact .refl
    case isFalse => exact drained_moves
  case h_3 =>
    split
    case isTrue  => exact .refl
    case isFalse => split <;> exact .refl
  case h_4 =>
    dsimp only
    split <;> exact sendJobStartup_moves
  case h_5 =>
    split
    case isTrue  => exact .refl
    case isFalse => exact drained_moves
  case h_6 => exact .refl

theorem endJob_moves : Moves s s.endJob := by
  refine Moves.step .endJob ?_
  simp only [endJob, traffic, Traffic.clear, record, clearInflight, resetLineNumber, clearWait]
  rfl

theorem failStream_moves : Moves s (s.failStream rc) :=
  endJob_moves.trans (Moves.of_eq rfl)

theorem traffic_startLineWait : s.startLineWait.traffic = s.traffic := by
  unfold startLineWait
  dsimp only
  split
  case isTrue  => rfl
  case isFalse => split <;> rfl

theorem traffic_countStarvation : s.countStarvation.traffic = s.traffic := by
  unfold countStarvation
  split <;> rfl

theorem traffic_timed (h : Timed s s') : s'.traffic = s.traffic := by
  obtain ⟨timer, timeTotal, timeLeft, he⟩ := h
  rw [he]
  rfl

theorem nextLoop_length_le {rounds : Nat} {stream : GcodeStream} {buffer : LineBuffer} :
    (GcodeStream.nextLoop rounds stream buffer).2.1.length ≤ 255 := by
  have none : ([] : CString).length ≤ 255 := Nat.zero_le _
  induction rounds generalizing stream buffer
  case zero => exact none
  case succ rounds ih =>
    unfold GcodeStream.nextLoop
    dsimp only
    split
    case isTrue => exact none
    case isFalse =>
      split
      case isTrue => exact ih
      case isFalse =>
        split
        case isTrue =>
          split
          case h_1 => split <;> exact ih
          case h_2 => exact ih
        case isFalse =>
          split
          case isTrue => exact ih
          case isFalse =>
            split
            case h_1         => exact ih
            case h_2 command _ _ => exact Nat.le_of_lt_succ (fit_length_lt command (by decide))

-- A line of the file fits into a packet.
theorem next_length_le {stream : GcodeStream} {buffer : LineBuffer} :
    (stream.next buffer).2.1.length ≤ 255 := by
  unfold GcodeStream.next
  split
  case isTrue => exact Nat.zero_le _
  case isFalse =>
    dsimp only
    split
    case h_1 line _ _ => exact Nat.le_of_lt_succ (fit_length_lt line (by decide))
    case h_2          => exact nextLoop_length_le

theorem streamLine_moves {env : PollEnv} {line : CString} (hw : ¬s.windowClosed) (hl : line.length ≤ 255) :
    Moves s (s.streamLine env line).2 := by
  have counted : Moves s s.setStreaming.countStarvation := Moves.of_eq traffic_countStarvation
  have sent : Moves s (s.setStreaming.countStarvation.send .streamer line).2 := by
    refine counted.trans (send_moves (admits_of_open ?_ (by simp)) hl)
    have same : s.setStreaming.countStarvation.flow = s.flow := congrArg Traffic.flow traffic_countStarvation
    rwa [windowClosed, same]
  unfold streamLine
  dsimp only
  split
  case isTrue =>
    refine sent.trans (Moves.of_eq ?_)
    rw [traffic_updateJobTiming, traffic_timed (applyGcodeTimingMarkers_timed _), traffic_startLineWait]
  case isFalse =>
    split
    case isTrue  => exact sent
    case isFalse => exact sent.trans failStream_moves

theorem pollStream_moves {env : PollEnv} (hj : s.jobActive) : Moves s (s.pollStream env).2 := by
  unfold pollStream
  split
  case isTrue => exact .refl
  case isFalse hw =>
    have window : ¬s.windowClosed := by
      rw [Bool.not_eq_true, Bool.or_eq_false_iff, decide_eq_false_iff_not] at hw
      rw [Bool.not_eq_true, windowClosed, Bool.or_eq_false_iff, decide_eq_false_iff_not]
      have narrow : s.flow.inflight < jobStreamWindow := Nat.not_le.mp hw.2
      exact ⟨hw.1, Nat.not_le.mpr (narrow.trans (by decide))⟩
    dsimp only
    split
    case isTrue =>
      exact endJob_moves (s := (s.readStream env.buffer).2.2)
    case isFalse =>
      split
      case isTrue =>
        split
        case isTrue  => exact .refl
        case isFalse => exact Moves.step (.beginFinish hj) rfl
      case isFalse =>
        have read : Moves s (s.readStream env.buffer).2.2 := .refl
        exact read.trans (streamLine_moves window next_length_le)

theorem resetPrepare_moves : Moves s s.endJob.resetPrepare :=
  endJob_moves.trans (Moves.of_eq rfl)

theorem pollStreamer_moves {env : PollEnv} : Moves s (s.pollStreamer env).2 := by
  unfold pollStreamer
  split
  case isTrue => exact .refl
  case isFalse hj =>
    have timed (now : Int) : Moves s (s.updateJobTiming now) := Moves.of_eq (traffic_updateJobTiming now)
    have active : (s.updateJobTiming (env.clock 0)).jobActive := by
      have same := congrArg Traffic.job (traffic_updateJobTiming (s := s) (env.clock 0))
      rw [show (s.updateJobTiming (env.clock 0)).jobActive = s.jobActive from same]
      simpa using hj
    refine (timed (env.clock 0)).trans ?_
    generalize s.updateJobTiming (env.clock 0) = s at active
    dsimp only
    split
    case isTrue => exact resetPrepare_moves
    case isFalse =>
      split
      case isTrue => exact Moves.of_eq (traffic_updateJobTiming _)
      case isFalse =>
        split
        case isTrue => exact .refl
        case isFalse =>
          split
          case isTrue => exact resetPrepare_moves
          case isFalse =>
            split
            case isTrue => exact pollJobPrepare_moves
            case isFalse =>
              split
              case isTrue =>
                have waited : Moves s s.clearWait := .refl
                exact waited.trans (pollStream_moves active)
              case isFalse => exact .refl

theorem pollJob_moves {env : PollEnv} (fits : s.QueueFits) : Moves s (s.pollJob env).2 := by
  unfold pollJob
  split
  case isTrue => exact abort_moves
  case isFalse =>
    split
    case isTrue => exact .refl
    case isFalse =>
      split
      case isTrue  => exact pollGcode_moves fits
      case isFalse => exact pollStreamer_moves

end Streamer

section Macro

theorem waitLoop_moves {round : Service → Option Int × Service} (hr : ∀ s, Moves s (round s).2)
    {expired : List Bool} : Moves s (waitLoop round expired s).2.2 := by
  induction expired generalizing s
  case nil => exact hr s
  case cons e rest ih =>
    have first := hr s
    cases e
    case true =>
      unfold waitLoop
      split
      case h_1 h => rw [h] at first; exact first
      case h_2 h => rw [h] at first; exact first
    case false =>
      unfold waitLoop
      split
      case h_1 h => rw [h] at first; exact first
      case h_2 h => rw [h] at first; exact first.trans ih

theorem windowRound_moves (s : Service) : Moves s (windowRound s).2 := by
  unfold windowRound
  split
  case isTrue => exact .refl
  case isFalse =>
    split
    case isTrue  => exact .refl
    case isFalse => exact pollMotion_moves

theorem macroPollError_ne_zero : s.macroPollError (-1) ≠ 0 := by
  unfold macroPollError
  split <;> decide

theorem windowRound_open (h : windowRound s = (some 0, s')) : s'.macroWindowOpen := by
  unfold windowRound at h
  split at h
  case isTrue ho =>
    cases h
    exact ho
  case isFalse =>
    split at h
    case isTrue => simp at h
    case isFalse =>
      dsimp only at h
      split at h
      case isTrue =>
        have zero := Option.some.inj (congrArg Prod.fst h)
        exact absurd zero macroPollError_ne_zero
      case isFalse => simp at h

-- When the wait for the window ends well, the window is open.
theorem waitForStreamWindow_open {expired rest : List Bool}
    (h : waitForStreamWindow expired s = (0, rest, s')) : s'.macroWindowOpen := by
  unfold waitForStreamWindow at h
  induction expired generalizing s
  case nil =>
    unfold waitLoop at h
    generalize hr : windowRound s = r at h
    obtain ⟨rc, s₁⟩ := r
    cases rc
    case none => exact absurd (congrArg Prod.fst h) (by decide : (-1 : Int) ≠ 0)
    case some rc =>
      cases h
      exact windowRound_open hr
  case cons e expired ih =>
    cases e
    case true =>
      unfold waitLoop at h
      split at h
      case h_1 hr =>
        cases h
        exact windowRound_open hr
      case h_2 => exact absurd (congrArg Prod.fst h) (by decide : (-1 : Int) ≠ 0)
    case false =>
      unfold waitLoop at h
      split at h
      case h_1 hr =>
        cases h
        exact windowRound_open hr
      case h_2 => exact ih h

theorem heaterRound_moves (s : Service) : Moves s (heaterRound s).2 := by
  unfold heaterRound
  split
  case isTrue => exact .refl
  case isFalse =>
    split
    case isTrue => exact .refl
    case isFalse =>
      have applied : Moves s s.applyWait := .refl
      exact applied.trans pollMotion_moves

theorem afterMacroLine_moves {stream : GcodeStream} {expired : List Bool} :
    Moves s (s.afterMacroLine stream expired).2.2 := by
  have started : Moves s (s.startMacroWait stream) := by
    refine Moves.of_eq ?_
    unfold startMacroWait
    dsimp only
    split <;> rfl
  have waited : Moves s (if stream.asksWait then waitForHeater expired (s.startMacroWait stream)
      else (0, expired, s)).2.2 := by
    split
    case isTrue  => exact started.trans (waitLoop_moves heaterRound_moves)
    case isFalse => exact .refl
  unfold afterMacroLine
  generalize (if stream.asksWait then waitForHeater expired (s.startMacroWait stream)
    else (0, expired, s)) = r at waited
  dsimp only
  split
  case isTrue  => exact waited
  case isFalse => exact waited.trans pollMotion_moves

theorem runMacroLines_moves {buffers : Nat → LineBuffer} {rounds : Nat} {stream : GcodeStream}
    {expired : List Bool} : Moves s (runMacroLines buffers rounds stream expired s).2.2 := by
  have waited {s : Service} {expired : List Bool} : Moves s (waitForStreamWindow expired s).2.2 :=
    waitLoop_moves windowRound_moves
  induction rounds generalizing s stream expired
  case zero => exact waited
  case succ rounds ih =>
    unfold runMacroLines
    dsimp only
    split
    case isTrue => exact .refl
    case isFalse =>
      split
      case isTrue => exact waited
      case isFalse =>
        split
        case isTrue => exact .refl
        case isFalse =>
          have before := @waited s expired
          generalize hw : waitForStreamWindow expired s = r at before
          obtain ⟨rc, expired, s₁⟩ := r
          dsimp only at before ⊢
          split
          case isTrue => exact before
          case isFalse hz =>
            have hz : rc = 0 := Decidable.not_not.mp hz
            rw [hz] at hw
            have sent : Moves s (s₁.send .macroRunner (stream.next (buffers rounds)).2.1).2 :=
              before.trans (send_moves (waitForStreamWindow_open hw) next_length_le)
            split
            case isTrue => exact sent
            case isFalse =>
              have after {stream' : GcodeStream} : Moves s (afterMacroLine
                  (s₁.send .macroRunner (stream.next (buffers rounds)).2.1).2 stream' expired).2.2 :=
                sent.trans afterMacroLine_moves
              split
              case isTrue  => exact after
              case isFalse => exact after.trans ih

theorem runMacro_moves {cmd : MacroCommand} : Moves s (s.runMacro cmd).2 := by
  have ran : Moves s (s.runMacroFile cmd).2 := by
    unfold runMacroFile
    split
    case isTrue => exact .refl
    case isFalse =>
      split
      case h_1 => exact .refl
      case h_2 => exact runMacroLines_moves
  unfold runMacro
  dsimp only
  split <;> exact ran

end Macro

section Commands

theorem traffic_applyMetadata {printTime : Option Int} : (s.applyMetadata printTime).traffic = s.traffic := by
  unfold applyMetadata
  split
  case h_1 => split <;> rfl
  case h_2 => rfl

theorem startJob_moves {cmd : JobCommand} (hj : ¬s.jobActive) : Moves s (s.startJob cmd) := by
  refine Moves.step (.accept s.jobStream hj) ?_
  have reset : (s.startJob cmd).traffic = (s.resetForJob cmd).traffic := traffic_applyMetadata
  rw [reset]
  simp only [resetForJob, traffic, Traffic.clear, clearInflight, List.append_nil]

theorem accept_moves {cmd : JobCommand} : Moves s (s.accept cmd).2 := by
  unfold accept
  split
  case isTrue => exact .refl
  case isFalse =>
    split
    case isTrue => exact .refl
    case isFalse hb =>
      have idle : ¬s.jobActive := by
        intro hj
        simp [jobBusy, hj] at hb
      split
      case h_1 => exact .refl
      case h_2 file _ =>
        dsimp only
        split
        case h_1 => exact .refl
        case h_2 =>
          have opened : Moves s { s with jobStream := .open file } := .refl
          exact opened.trans (startJob_moves idle)

theorem traffic_pause : s.pause.2.traffic = s.traffic := by
  unfold pause
  split
  case isTrue => rfl
  case isFalse =>
    split
    case isTrue => rfl
    case isFalse =>
      dsimp only
      split
      case isTrue => rfl
      case isFalse =>
        dsimp only
        split <;> rfl

theorem traffic_resume : s.resume.2.traffic = s.traffic := by
  unfold resume
  split
  case isTrue => rfl
  case isFalse =>
    split
    case isTrue =>
      dsimp only
      split <;> rfl
    case isFalse =>
      split
      case isTrue => rfl
      case isFalse =>
        dsimp only
        split <;> rfl

theorem dispatch_moves (cmd : Command) : Moves s (s.dispatch cmd).2 := by
  cases cmd
  case gcode lines  => exact runGcode_moves
  case runMacro cmd => exact runMacro_moves
  case job cmd      => exact accept_moves
  case abort        => exact abort_moves
  case pause        => exact Moves.of_eq traffic_pause
  case resume       => exact Moves.of_eq traffic_resume
  case unknown      => exact .refl

-- Every call of the main loop is made of steps of the traffic.
theorem exec_moves (fits : s.QueueFits) (op : Op) : Moves s (s.exec op) := by
  have connected {env : SerialEnv} : Moves s (s.connect env) := .refl
  cases op
  case openMotion success =>
    refine Moves.of_eq ?_
    cases success <;> rfl
  case command cmd env latency   => exact connected.trans (dispatch_moves cmd)
  case pollMotion env            => exact connected.trans pollMotion_moves
  case pollJob env poll          => exact connected.trans (pollJob_moves fits)
  case refreshDiagnostics        => exact .refl

end Commands
end Service

namespace Traffic

variable {t t' : Traffic}

theorem Step.queueFits (h : Step t t') (fits : t.QueueFits) : t'.QueueFits := by
  cases h
  case abort | abortUnready => exact List.forall_mem_nil _
  case queue fits           => exact fits
  all_goals exact fits

theorem Steps.queueFits (h : Steps t t') (fits : t.QueueFits) : t'.QueueFits := by
  induction h
  case refl         => exact fits
  case tail step ih => exact step.queueFits ih

end Traffic

namespace Service

variable {s : Service} {ops : List Op}

-- Every run of the service is made of steps of the traffic.
theorem run_moves (fits : s.QueueFits) : Moves s (s.run ops) := by
  induction ops generalizing s
  case nil => exact .refl
  case cons op ops ih =>
    have moved := exec_moves fits op
    exact moved.trans (ih (moved.queueFits fits))

theorem run_queueFits : (init.run ops).QueueFits :=
  (run_moves (s := init) (List.forall_mem_nil _)).queueFits (List.forall_mem_nil _)

end Service
end Deneb
