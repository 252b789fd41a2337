import DenebModel.Execution.Progress
import DenebModel.Execution.Theorems.Whole
import DenebModel.Objects.Theorems.GcodeOutput

namespace Deneb

open CString

namespace GcodeStream

variable {stream : GcodeStream} {buffer : LineBuffer} {reads : List (Option UInt8)}

-- A line takes at least one read, unless the loop is in the middle of it.
theorem readLoop_takes {len : Nat} (h : 0 < (readLoop reads len buffer).1) :
    (readLoop reads len buffer).1 = 1 ∧
    (readLoop reads len buffer).2.2.length + (if len = 0 then 1 else 0) ≤ reads.length := by
  induction reads generalizing len buffer
  case nil =>
    simp only [readLoop] at h ⊢
    split at h
    case isTrue hl => simp [hl, Nat.ne_of_gt hl]
    case isFalse   => contradiction
  case cons c reads ih =>
    cases c
    case none => simp [readLoop] at h
    case some c =>
      have next {len' : Nat} {buffer' : LineBuffer} (h : 0 < (readLoop reads len' buffer').1) :
          (readLoop reads len' buffer').1 = 1 ∧
          (readLoop reads len' buffer').2.2.length + (if len = 0 then 1 else 0) ≤ reads.length + 1 := by
        have := ih h
        refine this.imp_right fun shorter => ?_
        split at shorter <;> split <;> omega
      unfold readLoop at h ⊢
      rw [List.length_cons]
      split at h
      case isTrue hc => simpa only [if_pos hc] using next h
      case isFalse hc =>
        simp only [if_neg hc]
        split at h
        case isTrue hn =>
          simp only [if_pos hn, true_and]
          split <;> omega
        case isFalse hn =>
          simp only [if_neg hn]
          split at h
          case isTrue hl  => simpa only [if_pos hl] using next h
          case isFalse hl => simpa only [if_neg hl] using next h

theorem readLine_takes (h : 0 < (readLine reads buffer).1) :
    ∃ buffer' rest, readLine reads buffer = (1, buffer', rest) ∧ rest.length < reads.length := by
  obtain ⟨one, shorter⟩ := readLoop_takes h
  exact ⟨_, _, Prod.ext one rfl, shorter⟩

theorem length_waitCommand {line : CString} {rewrite : GcodeRewrite}
    (h : GcodeRewrite.waitCommand line = some rewrite) : rewrite.commands.length < maxCommands := by
  have one : 1 < maxCommands := by decide
  unfold GcodeRewrite.waitCommand at h
  dsimp only at h
  split at h
  case isTrue =>
    cases h
    exact one
  case isFalse =>
    split at h
    case isTrue =>
      cases h
      exact one
    case isFalse => contradiction

theorem length_primeCommand {line : CString} {rewrite : GcodeRewrite}
    (h : GcodeRewrite.primeCommand line = some rewrite) : rewrite.commands.length < maxCommands := by
  unfold GcodeRewrite.primeCommand at h
  split at h
  case isTrue => contradiction
  case isFalse =>
    split at h
    all_goals
      cases h
      decide

theorem length_expand (text : CString) : (expand text).length < maxCommands := by
  unfold expand
  dsimp only
  split
  case isTrue => decide
  case isFalse =>
    rw [List.length_map]
    unfold GcodeRewrite.line
    split
    case isTrue => decide
    case isFalse =>
      split
      case h_1 h => exact length_waitCommand h
      case h_2 =>
        split
        case h_1 h => exact length_primeCommand h
        case h_2   => exact (by decide : 1 < maxCommands)

theorem work_nextLoop {rounds : Nat} (ho : stream.isOpen) (hp : stream.pending = [])
    (h : 0 < (nextLoop rounds stream buffer).1) :
    (nextLoop rounds stream buffer).2.2.work < maxCommands * stream.reads.length := by
  induction rounds generalizing stream buffer
  case zero => exact absurd h (Int.lt_irrefl _)
  case succ rounds ih =>
    by_cases hr : 0 < (readLine stream.reads buffer).1
    case neg =>
      obtain ⟨stream', he, _⟩ := @nextLoop_end stream buffer rounds (Int.not_lt.mp hr) ho
      rw [he] at h
      exact absurd h (Int.lt_irrefl _)
    case pos =>
      obtain ⟨buffer', rest, hr, shorter⟩ := readLine_takes hr
      cases hx : expand buffer'.text
      case nil =>
        obtain ⟨stream', he, ho', hs, hp'⟩ := @nextLoop_skip stream buffer buffer' rest rounds hr hx ho
        rw [he] at h ⊢
        have := ih ho' (hp'.trans hp) h
        rw [hs] at this
        exact this.trans (Nat.mul_lt_mul_of_pos_left shorter (by decide))
      case cons command more =>
        obtain ⟨stream', he, ⟨_, hs, hp'⟩, _⟩ := @nextLoop_emit stream buffer buffer' rest rounds hr command more hx ho
        have few : more.length + 1 < maxCommands := by
          have := length_expand buffer'.text
          rwa [hx] at this
        have : maxCommands * (rest.length + 1) ≤ maxCommands * stream.reads.length :=
          Nat.mul_le_mul_left _ shorter
        rw [he, work, hs, hp']
        rw [Nat.mul_succ] at this
        omega

-- An output of the stream is taken from what the stream has left.
theorem work_next (h : 0 < (stream.next buffer).1) : (stream.next buffer).2.2.work < stream.work := by
  have ho : stream.isOpen := by
    by_contra hc
    rw [next_closed hc] at h
    contradiction
  cases hp : stream.pending
  case nil =>
    rw [next_of_pending_nil ⟨ho, rfl, hp⟩] at h ⊢
    have left : (nextLoop (stream.reads.length + 1) stream.clearLast buffer).2.2.work <
        maxCommands * stream.reads.length := work_nextLoop ho hp h
    exact left.trans_le (Nat.le_add_right ..)
  case cons line rest =>
    have taken : stream.next buffer =
        (1, fit maxGcodeLine line, { stream.clearLast with pending := rest }) := by
      simp [next, ho, clearLast, hp]
    rw [taken, work, work, hp]
    exact Nat.lt_succ_self _

end GcodeStream

namespace Service

variable {s s' s₁ : Service} {p : Producer} {command : CString} {rc : Int} {kind : PolicyKind}

theorem work_of_inactive (h : ¬s.jobActive) : s.work = 0 :=
  if_neg h

theorem work_send (h : s.send p command = (rc, s₁)) : s₁.work = s.work := by
  have : (s.send p command).2.work = s.work := rfl
  rw [← this, h]

-- The work of a service whose job and cleanup stand as they were.
theorem work_congr (view : s'.jobView = s.jobView) (finish : s'.finishCleanup = s.finishCleanup) :
    s'.work = s.work := by
  have active : s'.jobActive = s.jobActive := congrArg JobView.active view
  have stage : s'.jobPrepareStage = s.jobPrepareStage := congrArg JobView.stage view
  have prepared : s'.jobPrepareIndex = s.jobPrepareIndex := congrArg JobView.prepareIndex view
  have started : s'.jobStartupIndex = s.jobStartupIndex := congrArg JobView.startupIndex view
  have stream : s'.jobStream = s.jobStream := congrArg JobView.stream view
  unfold work prepareWork streamWork startupList
  rw [active, stage, prepared, started, stream, finish]

theorem work_le (h : s.jobActive → s'.prepareWork + s'.streamWork ≤ s.prepareWork + s.streamWork)
    (hj : s'.jobActive → s.jobActive) : s'.work ≤ s.work := by
  unfold work
  split
  case isTrue hs =>
    rw [if_pos (hj hs)]
    exact h (hj hs)
  case isFalse => exact Nat.zero_le _

theorem work_advancePolicy : (s.advancePolicy kind).work ≤ s.work := by
  cases kind
  case finish =>
    refine work_le (fun _ => Nat.add_le_add_left ?_ _) id
    have advanced : (s.advancePolicy .finish).streamWork = if s.finishCleanup.pending
      then s.finishCleanup.policy.length - (s.finishCleanup.index + 1) + 2
      else if s.jobStream.isOpen then s.jobStream.work + MotionPolicy.finish.length + 3 else 1 := rfl
    rw [advanced, streamWork]
    by_cases hp : s.finishCleanup.pending
    case pos => rw [if_pos hp, if_pos hp]; omega
    case neg => rw [if_neg hp, if_neg hp]
  all_goals exact Nat.le_refl _

theorem work_failPolicy (hc : Closing s) : (s.failPolicy kind rc).work ≤ s.work := by
  cases kind
  case finish =>
    refine work_le (fun _ => Nat.add_le_add_left ?_ _) id
    have dropped : (s.failPolicy .finish rc).streamWork = if s.jobStream.isOpen
      then s.jobStream.work + MotionPolicy.finish.length + 3 else 1 := rfl
    rw [dropped, streamWork]
    by_cases hp : s.finishCleanup.pending
    case pos => rw [if_neg (hc hp), if_pos hp]; omega
    case neg => rw [if_neg hp]
  all_goals exact Nat.le_refl _

theorem work_completePolicy : (s.completePolicy kind).work ≤ s.work := by
  cases kind
  case finish => exact Nat.zero_le _
  all_goals exact Nat.le_refl _

theorem PolicyStep.work_le (h : PolicyStep s s') (hc : Closing s) : s'.work ≤ s.work := by
  cases h
  case send hs         => exact work_advancePolicy.trans (work_send hs).le
  case fail hs         => exact (work_failPolicy (hc.send hs)).trans (work_send hs).le
  case done            => exact work_completePolicy
  case heat hs         => exact (work_send hs).le
  case heatFail hs     => exact (work_send hs).le
  case leftover hs     => exact work_advancePolicy.trans (work_send hs).le
  case leftoverFail hs =>
    exact (work_failPolicy (Closing.send (s := s.clearWait) hc hs)).trans (work_send hs).le
  case probe hs        => exact (work_send hs).le
  case probeFail hs    => exact (work_send hs).le
  case probed =>
    unfold endPauseProbe beginPauseCleanupFromCurrentPosition
    dsimp only
    split <;> exact Nat.le_refl _

theorem work_refreshManualStatus : s.refreshManualStatus.work = s.work := by
  unfold refreshManualStatus
  split
  case isTrue  => rfl
  case isFalse => split <;> rfl

theorem MotionStep.work_le (h : MotionStep s s') (hc : Closing s) : s'.work ≤ s.work := by
  cases h
  case quiet hq      => cases hq <;> exact Nat.le_refl _
  case policy hp     => exact hp.work_le hc
  case manualStatus  => exact work_refreshManualStatus.le
  case statusProbe   => exact Nat.le_refl _
  case applyWait     => exact Nat.le_refl _
  case waitOver      => exact Nat.le_refl _

theorem not_active_startAbort : ¬s.startAbort.jobActive := by
  unfold startAbort
  dsimp only
  split <;> exact Bool.false_ne_true

theorem work_startAbort : s.startAbort.work = 0 :=
  work_of_inactive not_active_startAbort

theorem PollStep.work_le (h : PollStep s s') (hc : Closing s) : s'.work ≤ s.work := by
  cases h
  case motion hm  => exact hm.work_le hc
  case runtime hr => cases hr <;> exact Nat.le_refl _
  case abort      => exact work_startAbort.le.trans (Nat.zero_le _)
  case dropAbort  => exact Nat.le_refl _

theorem QueueStep.work_eq (h : QueueStep s s') : s'.work = s.work := by
  cases h
  case send entry s₁ _ _ _ hs =>
    have sent := work_send hs
    unfold advanceQueue
    dsimp only
    split
    case isTrue  => exact sent
    case isFalse => split <;> exact sent
  case fail hs => exact (work_send hs :)
  case done    => rfl

theorem GcodeStep.work_eq (h : GcodeStep s s') : s'.work = s.work := by
  cases h
  case queue hq      => exact hq.work_eq
  case applyWait     => rfl
  case waitOver      => rfl
  case manualStatus  => exact work_refreshManualStatus

theorem work_lt (active : s.jobActive)
    (h : s'.prepareWork + s'.streamWork < s.prepareWork + s.streamWork) : s'.work < s.work := by
  unfold work
  rw [if_pos active]
  split
  case isTrue  => exact h
  case isFalse => exact Nat.zero_lt_of_lt h

theorem work_lt_of_stage (active : s.jobActive) (h : s'.prepareWork < s.prepareWork)
    (hs : s'.streamWork = s.streamWork) : s'.work < s.work :=
  work_lt active (by rw [hs]; exact Nat.add_lt_add_right h _)

theorem work_lt_of_ended (active : s.jobActive) (ended : ¬s'.jobActive) : s'.work < s.work := by
  rw [work_of_inactive ended, work, if_pos active]
  unfold streamWork
  split
  case isTrue  => omega
  case isFalse => split <;> omega

theorem prepareWork_startup (h : s.jobPrepareStage = .startup) :
    s.prepareWork = 2 + (s.jobStream.startup.length - s.jobStartupIndex) := by
  rw [← startupList_eq]
  simp only [prepareWork, h]

theorem work_advancePrepare (active : s.jobActive) (hc : s.prepareCommand = some command) :
    s.advancePrepare.work < s.work := by
  unfold advancePrepare
  obtain ⟨stage, next, index⟩ | ⟨stage, next, index⟩ := prepareCommand_cases hc
  all_goals
    rw [index]
    refine work_lt_of_stage active ?_ rfl
    have shorter := (List.getElem?_eq_some_iff.mp next).1
  case inl =>
    simp only [prepareWork, advanceJobIndex, stage]
    omega
  case inr =>
    have advanced : (s.advanceJobIndex .startup).prepareWork =
        2 + (s.jobStream.startup.length - (s.jobStartupIndex + 1)) := prepareWork_startup stage
    rw [advanced, prepareWork_startup stage]
    omega

theorem isOpen_of_read {buffer : LineBuffer} (h : 0 ≤ (s.readStream buffer).1) : s.jobStream.isOpen := by
  by_contra hc
  have : (s.readStream buffer).1 = -1 := GcodeStream.next_closed hc
  omega

theorem length_startupList : s.startupList.length ≤ 6 := by
  unfold startupList
  split <;> decide

theorem finishCleanup_advancePrepare : s.advancePrepare.finishCleanup = s.finishCleanup := by
  unfold advancePrepare
  cases s.prepareIndex <;> rfl

theorem finishCleanup_startLineWait : s.startLineWait.finishCleanup = s.finishCleanup := by
  unfold startLineWait
  dsimp only
  split
  case isTrue  => rfl
  case isFalse => split <;> rfl

-- A step of the streamer gets on with the job, unless a prepare command could not be sent.
theorem StreamStep.work_lt (h : StreamStep s s') (active : s.jobActive)
    (notFinish : ¬s.finishCleanup.pending) :
    s'.work < s.work ∨ ∃ command rc s₁, s.prepareCommand = some command ∧
      s.send .streamer command = (rc, s₁) ∧ rc ≠ 0 ∧ rc ≠ MotionSender.flowFull ∧ s' = s₁.failPrepare rc := by
  cases h
  case prepareFail hz hf hc hs => exact .inr ⟨_, _, _, hc, hs, hz, hf, rfl⟩
  all_goals apply Or.inl
  case prepare command s₁ hc hs =>
    have view : s₁.advancePrepare.jobView = s.advancePrepare.jobView :=
      jobView_advancePrepare (jobView_send hs)
    have finish : s₁.advancePrepare.finishCleanup = s.advancePrepare.finishCleanup := by
      rw [finishCleanup_advancePrepare, finishCleanup_advancePrepare]
      exact @policy_of_send_ok s s₁ .finish _ _ hs
    rw [work_congr view finish]
    exact work_advancePrepare active hc
  case homeSent hs _ =>
    refine work_lt_of_stage active ?_ rfl
    simp only [prepareWork, hs]
    omega
  case homeDrained hs _ =>
    refine work_lt_of_stage active ?_ rfl
    simp only [prepareWork, hs, setStage, record]
    decide
  case heated hs _ =>
    refine work_lt_of_stage active ?_ rfl
    have few := @length_startupList s
    have warm : (s.clearWait.setStage .startup).prepareWork =
        2 + (s.jobStream.startup.length - s.jobStartupIndex) := prepareWork_startup rfl
    rw [warm, ← startupList_eq]
    simp only [prepareWork, hs]
    omega
  case startupSent hs _ =>
    refine work_lt_of_stage active ?_ rfl
    simp only [prepareWork, hs]
    omega
  case startupDrained hs _ =>
    refine work_lt_of_stage active ?_ rfl
    simp only [prepareWork, hs, setStage, record]
    decide
  case readFail   => exact work_lt_of_ended active Bool.false_ne_true
  case streamFail => exact work_lt_of_ended active Bool.false_ne_true
  case readEnd buffer stage _ _ hr =>
    have ho : s.jobStream.isOpen := isOpen_of_read (Int.le_of_eq hr.symm)
    refine Service.work_lt active (Nat.add_lt_add_of_le_of_lt (Nat.le_of_eq ?_) ?_)
    case refine_1 => simp only [prepareWork, beginFinish, clearWait, setStreaming, readStream, stage]
    case refine_2 =>
      have begun : (s.readStream buffer).2.2.beginFinish.streamWork = MotionPolicy.finish.length + 2 := rfl
      rw [begun, streamWork, if_neg notFinish, if_pos ho]
      omega
  case stream s₁ buffer stage _ hr hs =>
    have ho : s.jobStream.isOpen := isOpen_of_read (Int.le_of_lt hr)
    have view : s₁.startLineWait.jobView = (s.readStream buffer).2.2.jobView := by
      rw [jobView_startLineWait, jobView_send hs]
      rfl
    have finish : s₁.startLineWait.finishCleanup = (s.readStream buffer).2.2.finishCleanup := by
      rw [finishCleanup_startLineWait]
      exact (@policy_of_send_ok _ s₁ .finish _ _ hs :)
    rw [work_congr view finish]
    refine Service.work_lt active (Nat.add_lt_add_of_le_of_lt (Nat.le_of_eq ?_) ?_)
    case refine_1 => simp only [prepareWork, readStream, stage]
    have fewer : (s.jobStream.next buffer).2.2.work < s.jobStream.work := GcodeStream.work_next hr
    have read : (s.readStream buffer).2.2.streamWork =
        (s.jobStream.next buffer).2.2.work + MotionPolicy.finish.length + 3 := by
      have not' : ¬(s.readStream buffer).2.2.finishCleanup.pending := notFinish
      have ho' : (s.readStream buffer).2.2.jobStream.isOpen := GcodeStream.isOpen_next.trans ho
      rw [streamWork, if_neg not', if_pos ho']
      rfl
    rw [read, streamWork, if_neg notFinish, if_pos ho]
    omega

theorem StreamStep.work_le (h : StreamStep s s') (hs : Streams s) : s'.work ≤ s.work := by
  obtain fallen | ⟨command, rc, s₁, _, sent, _, _, rfl⟩ := h.work_lt hs.active hs.notFinish
  case inl => exact fallen.le
  case inr => exact (work_send sent).le

theorem JobStep.work_le (h : JobStep s s') (hc : Closing s) : s'.work ≤ s.work := by
  cases h
  case poll hp      => exact hp.work_le hc
  case dropWait     => exact Nat.le_refl _
  case queue _ hq   => exact hq.work_eq.le
  case errorExit ha _ _ _ => exact (work_lt_of_ended ha Bool.false_ne_true).le
  case streaming    => exact Nat.le_refl _
  case stream hs hm => exact hm.work_le hs

theorem MacroStep.work_le {cmd : MacroCommand} (h : MacroStep cmd s s') (hc : Closing s) :
    s'.work ≤ s.work := by
  cases h
  case poll hp   => exact hp.work_le hc
  case send      => exact Nat.le_refl _
  case startWait =>
    unfold startMacroWait
    dsimp only
    split <;> exact Nat.le_refl _
  case fail      => exact Nat.le_refl _

-- The work never grows over the steps of a call, each of which keeps the file closed in time.
theorem work_le_of_steps {r : Service → Service → Prop}
    (hr : ∀ {s s'}, r s s' → Closing s → s'.work ≤ s.work) (closing : ∀ {s s'}, r s s' → Closing s → Closing s')
    (h : Relation.ReflTransGen r s s') (hc : Closing s) : Closing s' ∧ s'.work ≤ s.work := by
  induction h
  case refl => exact ⟨hc, Nat.le_refl _⟩
  case tail step ih => exact ⟨closing step ih.1, (hr step ih.1).trans ih.2⟩

theorem JobSteps.closing (h : JobSteps s s') (hc : Closing s) : Closing s' :=
  (work_le_of_steps JobStep.work_le JobStep.closing h hc).1

theorem JobSteps.work_le (h : JobSteps s s') (hc : Closing s) : s'.work ≤ s.work :=
  (work_le_of_steps JobStep.work_le JobStep.closing h hc).2

theorem PollSteps.work_le (h : PollSteps s s') (hc : Closing s) : s'.work ≤ s.work :=
  (work_le_of_steps PollStep.work_le PollStep.closing h hc).2

theorem MotionSteps.work_le (h : MotionSteps s s') (hc : Closing s) : s'.work ≤ s.work :=
  (work_le_of_steps MotionStep.work_le MotionStep.closing h hc).2

theorem GcodeSteps.work_eq (h : GcodeSteps s s') : s'.work = s.work := by
  induction h
  case refl         => rfl
  case tail step ih => exact step.work_eq.trans ih

theorem work_runGcode (lines : List CString) : (s.runGcode lines).2.work = s.work := by
  obtain h | ⟨_, h | ⟨active, steps⟩⟩ := @runGcode_steps s lines
  case inl     => rw [h]
  case inr.inl => rw [h]; rfl
  case inr.inr =>
    have queued {queue : List GcodeQueueEntry} : (s.enqueued queue).work = s.work :=
      work_refreshManualStatus
    exact steps.work_eq.trans queued

theorem work_abort : s.abort.2.work ≤ s.work := by
  unfold abort
  split
  case isTrue  => exact Nat.le_refl _
  case isFalse => exact work_startAbort.le.trans (Nat.zero_le _)

theorem work_pause : s.pause.2.work = s.work := by
  unfold pause
  split
  case isTrue => rfl
  case isFalse =>
    split
    case isTrue => rfl
    case isFalse =>
      dsimp only
      split
      case isTrue  => rfl
      case isFalse =>
        dsimp only
        split <;> rfl

theorem work_resume : s.resume.2.work = s.work := by
  unfold resume
  split
  case isTrue => rfl
  case isFalse =>
    split
    case isTrue =>
      dsimp only
      split <;> rfl
    case isFalse =>
      split
      case isTrue => rfl
      case isFalse =>
        dsimp only
        split <;> rfl

theorem work_accept (busy : s.jobBusy) (cmd : JobCommand) : (s.accept cmd).2.work = s.work := by
  unfold accept
  split
  case isTrue  => rfl
  case isFalse => rfl

-- No call makes the work of an active job grow.
theorem exec_work_le (hc : Closing s) (active : s.jobActive) (op : Op) : (s.exec op).work ≤ s.work := by
  cases op
  case openMotion success => cases success <;> exact Nat.le_refl _
  case command cmd env latency =>
    change ((s.connect env).dispatch cmd).2.work ≤ (s.connect env).work
    cases cmd
    case gcode lines  => exact (work_runGcode lines).le
    case runMacro cmd =>
      exact (work_le_of_steps (s := s.connect env) MacroStep.work_le MacroStep.closing runMacro_steps hc).2
    case job cmd =>
      have busy : (s.connect env).jobBusy := by simp [jobBusy, connect, active]
      exact (work_accept busy cmd).le
    case abort        => exact work_abort
    case pause        => exact work_pause.le
    case resume       => exact work_resume.le
    case unknown      => exact Nat.le_refl _
  case pollMotion env => exact PollSteps.work_le (s := s.connect env) pollMotion_steps hc
  case pollJob env poll => exact JobSteps.work_le (s := s.connect env) pollJob_steps hc
  case refreshDiagnostics => exact Nat.le_refl _

end Service
end Deneb
