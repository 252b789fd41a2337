import DenebModel.Execution.Theorems.Progress

namespace Deneb.Service

open CString

variable {s s' s₁ : Service} {p : Producer} {command : CString} {kind : PolicyKind}

section Idle

-- What `isIdle` finds.
structure Idle (s : Service) : Prop where
  answered  : s.flow.inflight = 0
  room      : s.flow.canSend
  written   : s.writesSucceed
  warm      : s.heaterWait.ready s.status
  notError  : s.status.state ≠ .error
  notPaused : s.status.state ≠ .paused ∧ s.status.state ≠ .pausing
  notBusy   : ¬s.pauseResumeBusy
  notQueue  : ¬s.gcodeQueueActive

theorem idle_of_isIdle (h : s.isIdle) : s.Idle := by
  simp only [isIdle, Bool.and_eq_true, bne_iff_ne, beq_iff_eq, Bool.not_eq_true'] at h
  obtain ⟨⟨⟨⟨⟨⟨⟨⟨answered, room⟩, written⟩, warm⟩, notError⟩, notPaused⟩, notPausing⟩, notBusy⟩,
    notQueue⟩ := h
  exact ⟨answered, room, written, warm, notError, ⟨notPaused, notPausing⟩,
    Bool.not_eq_true _ ▸ notBusy, Bool.not_eq_true _ ▸ notQueue⟩

theorem not_hasPendingBarrier (h : s.flow.inflight = 0) : ¬s.flow.hasPendingBarrier := by
  intro hb
  obtain ⟨slot, hs, barrier⟩ := List.any_eq_true.mp hb
  have := List.countP_eq_zero.mp h slot hs
  rw [Bool.and_eq_true] at barrier
  exact this barrier.1

theorem Idle.not_windowClosed (h : s.Idle) : ¬s.windowClosed := by
  simp [windowClosed, not_hasPendingBarrier h.answered, h.room, h.answered, streamWindow]

-- A command that fits a packet goes through when the service is idle.
theorem send_idle (room : s.flow.canSend) (written : s.writesSucceed) (h : ¬Unsendable command) :
    ∃ s₁, s.send p command = (0, s₁) := by
  obtain ⟨nonempty, short⟩ := not_or.mp h
  have prepared : (s.flow.preparePacket command MotionSender.packetSize).rc = 0 := by
    by_contra hz
    obtain ⟨_, ⟨full, _⟩ | ⟨_, none⟩⟩ := FlowControl.preparePacket_of_rc_ne_zero hz
    case inl => exact preparePacket_rc_ne room full
    case inr =>
      have := @MarlinPacket.encode_isSome s.flow.nextSequence command MotionSender.packetSize
        (Nat.not_lt.mp short) (by decide)
      rw [none] at this
      contradiction
  suffices (MotionSender.sendGcode s.flow s.serial s.serialReady command).rc = 0 from
    ⟨_, Prod.ext this rfl⟩
  unfold MotionSender.sendGcode
  rw [if_neg (by simpa using nonempty)]
  dsimp only
  rw [if_neg (not_not_intro prepared)]
  cases hr : s.serialReady
  case false => rfl
  case true =>
    simp only [writesSucceed, hr, Bool.not_true, Bool.false_or, Bool.and_eq_true, List.all_eq_true] at written
    have next : s.serial.writes.headD true = true := by
      cases hw : s.serial.writes
      case nil    => rfl
      case cons w _ => exact written.2 w (hw ▸ List.mem_cons_self)
    rw [SerialTransport.writeAll, written.1, next]
    rfl

end Idle

section Prepare

theorem sendable_of_prepareCommand (h : s.prepareCommand = some command) : ¬Unsendable command := by
  have sendable : ∀ c ∈ prepareHomeCommands ++ primeFilamentCommands ++ startupCommands,
      ¬(c = [] ∨ 255 < c.length) := by decide
  obtain ⟨_, next, _⟩ | ⟨_, next, _⟩ := prepareCommand_cases h
  all_goals have member := List.mem_of_getElem? next
  case inl => exact sendable _ (List.mem_append_left _ (List.mem_append_left _ member))
  case inr =>
    unfold GcodeStream.startup at member
    apply sendable
    rw [List.append_assoc]
    refine List.mem_append_right _ ?_
    split at member
    case isTrue  => exact List.mem_append_right _ member
    case isFalse => exact member

variable {stage : PrepareStage} {stream : GcodeStream} {commands : List CString} {which : JobIndex}
variable {offset : Nat}

-- The next command of the list goes through.
theorem sendCommandList_work_lt {rounds : Nat} (sentAny : Bool) (idle : s.Idle)
    (at' : ListAt stage stream commands which offset s)
    (hl : commands.length ≤ s.jobIndex which - offset + (rounds + 1))
    (next : commands[s.jobIndex which - offset]? = some command) :
    (sendCommandList commands which offset (rounds + 1) sentAny s).2.work < s.work := by
  have hp : s.prepareCommand = some command := at'.prepareCommand_eq next
  obtain ⟨s₁, hs⟩ := send_idle (p := .streamer) idle.room idle.written (sendable_of_prepareCommand hp)
  obtain ⟨flow, serial, i, he, _⟩ := send_ok hs
  have advanced : s₁.advancePrepare = s₁.advanceJobIndex which := by
    rw [advancePrepare, ← at'.index, he]
    rfl
  have step : StreamStep s (s₁.advanceJobIndex which) := advanced ▸ .prepare hp hs
  have rest : ListAt stage stream commands which offset (s₁.advanceJobIndex which) := he ▸ at'.advance
  have reached : s₁.jobIndex which = s.jobIndex which := by
    rw [he]
    cases which <;> rfl
  obtain ⟨steps, _⟩ := @sendCommandList_steps _ _ _ _ _ _ rounds true rest (by
    rw [jobIndex_advanceJobIndex, reached]
    have := at'.reached
    omega)
  have sent : sendCommandList commands which offset (rounds + 1) sentAny s =
      sendCommandList commands which offset rounds true (s₁.advanceJobIndex which) := by
    rw [sendCommandList, next]
    dsimp only
    rw [if_neg idle.not_windowClosed, hs]
    rfl
  have fallen : (s₁.advanceJobIndex which).work < s.work := by
    obtain fallen | ⟨command', rc, s₂, hp', hs', hz, _⟩ :=
      step.work_lt at'.streams.active at'.streams.notFinish
    case inl => exact fallen
    case inr =>
      cases hp.symm.trans hp'
      cases hs.symm.trans hs'
      contradiction
  rw [sent]
  exact (steps.work_le (step.closing at'.streams.notFinish)).trans_lt fallen

theorem sendCommandList_work_lt_of_waits {rounds : Nat} (sentAny : Bool) (idle : s.Idle)
    (at' : ListAt stage stream commands which offset s)
    (hl : commands.length ≤ s.jobIndex which - offset + (rounds + 1))
    (waits : (sendCommandList commands which offset (rounds + 1) sentAny s).1 ≤ 1) :
    (sendCommandList commands which offset (rounds + 1) sentAny s).2.work < s.work := by
  cases next : commands[s.jobIndex which - offset]?
  case some => exact sendCommandList_work_lt sentAny idle at' hl next
  case none =>
    rw [sendCommandList, next] at waits
    contradiction

theorem sendJobStartup_work_lt (hc : Closing s) (idle : s.Idle) (hs : Streams s)
    (stage : s.jobPrepareStage = .startup) (waits : s.sendJobStartup.1 ≤ 1) :
    s.sendJobStartup.2.work < s.work := by
  unfold sendJobStartup at waits ⊢
  split at waits
  case isTrue h =>
    rw [if_pos h]
    simp only [Bool.and_eq_true, Bool.not_eq_true', decide_eq_true_eq] at h
    have at' := ListAt.prime hs stage (by simp [h.1])
    have fits : primeFilamentCommands.length ≤ s.jobIndex .startup - 0 + (1 + 1) := Nat.le_add_left ..
    obtain ⟨steps, done⟩ := @sendCommandList_steps s _ _ _ _ _ _ false at' fits
    have fallen := sendCommandList_work_lt false idle at' fits
      (List.getElem?_eq_getElem h.2)
    have same : primeFilamentCommands.length = 1 + 1 := rfl
    rw [same]
    generalize sendCommandList primeFilamentCommands .startup 0 (1 + 1) false s = r at steps done fallen
    dsimp only
    split
    case isTrue => exact fallen
    case isFalse hr =>
      obtain ⟨at', hl⟩ := done (by omega)
      obtain ⟨more, _⟩ := sendStartup_steps at'.streams at'.stage fun _ => hl
      exact (more.work_le (steps.closing hc)).trans_lt fallen
  case isFalse h =>
    rw [if_neg h]
    have at' := ListAt.startup hs stage (by simpa using h)
    exact sendCommandList_work_lt_of_waits false idle at' (Nat.le_add_left ..) waits

-- A poll of an idle service gets on with the prepare stages.
theorem pollJobPrepare_work_lt (hc : Closing s) (idle : s.Idle) (hs : Streams s)
    (hn : s.jobPrepareStage ≠ .done) : s.pollJobPrepare.2.work < s.work := by
  -- A step that ends a stage gets on with the job in any case.
  have ended {s₁ s₂ : Service} (step : StreamStep s₁ s₂) (streams : Streams s₁)
      (unsent : s₁.prepareCommand = none) : s₂.work < s₁.work := by
    obtain fallen | ⟨command, _, _, hp, _⟩ := step.work_lt streams.active streams.notFinish
    case inl => exact fallen
    case inr =>
      rw [unsent] at hp
      contradiction
  unfold pollJobPrepare
  split
  case h_1 stage =>
    have at' : ListAt .home s.jobStream prepareHomeCommands .prepare 0 s :=
      ⟨hs, stage, rfl, by rw [prepareIndex, stage], Nat.zero_le _, by simp [prepareList, stage]⟩
    have fits : prepareHomeCommands.length ≤ s.jobIndex .prepare - 0 + (1 + 1) := Nat.le_add_left ..
    obtain ⟨steps, done⟩ := @sendCommandList_steps s _ _ _ _ _ _ false at' fits
    have waits := sendCommandList_work_lt_of_waits false idle at' fits
    have same : prepareHomeCommands.length = 1 + 1 := rfl
    rw [same]
    generalize sendCommandList prepareHomeCommands .prepare 0 (1 + 1) false s = r at steps done waits
    dsimp only
    split
    case isTrue hr => exact waits hr
    case isFalse hr =>
      obtain ⟨at', hl⟩ := done (by omega)
      refine (ended (.homeSent at'.stage hl) at'.streams ?_).trans_le (steps.work_le hc)
      rw [prepareCommand, at'.index, prepareList, at'.stage]
      exact List.getElem?_eq_none hl
  case h_2 stage =>
    rw [if_neg (not_not_intro idle.answered)]
    exact ended (.homeDrained stage idle.answered) hs (by simp [prepareCommand, prepareList, stage])
  case h_3 stage =>
    rw [if_pos idle.warm]
    exact ended (.heated stage idle.warm) hs (by simp [prepareCommand, prepareList, stage])
  case h_4 stage =>
    obtain ⟨steps, done⟩ := sendJobStartup_steps hs stage
    have waits := sendJobStartup_work_lt hc idle hs stage
    generalize s.sendJobStartup = r at steps done waits
    dsimp only
    split
    case isTrue hr => exact waits hr
    case isFalse hr =>
      have sent := done (by omega)
      refine (ended (.startupSent sent.stage sent.sent) sent.streams ?_).trans_le (steps.work_le hc)
      rw [prepareCommand, prepareIndex_eq_startup sent.stage, prepareList, sent.stage]
      exact List.getElem?_eq_none sent.sent
  case h_5 stage =>
    rw [if_neg (not_not_intro idle.answered)]
    exact ended (.startupDrained stage idle.answered) hs (by simp [prepareCommand, prepareList, stage])
  case h_6 stage => exact absurd stage hn

end Prepare

section Polls

variable {env : PollEnv}

theorem Timed.idle (h : Timed s s') (idle : s.Idle) : s'.Idle := by
  obtain ⟨_, _, _, rfl⟩ := h
  exact ⟨idle.1, idle.2, idle.3, idle.4, idle.5, idle.6, idle.7, idle.8⟩

theorem Timed.work_eq (h : Timed s s') : s'.work = s.work := by
  obtain ⟨_, _, _, rfl⟩ := h
  rfl

theorem Timed.closing (h : Timed s s') (hc : Closing s) : Closing s' := by
  obtain ⟨_, _, _, rfl⟩ := h
  exact hc

theorem StreamStep.work_lt_of_done (h : StreamStep s s') (hs : Streams s)
    (stage : s.jobPrepareStage = .done) : s'.work < s.work := by
  obtain fallen | ⟨_, _, _, hp, _⟩ := h.work_lt hs.active hs.notFinish
  case inl => exact fallen
  case inr => simp [prepareCommand, prepareList, stage] at hp

-- A poll of an idle service takes an output of the file, or ends the file or the job.
theorem pollStream_work_lt (idle : s.Idle) (hs : Streams s) (stage : s.jobPrepareStage = .done)
    (hw : ¬s.heaterWait.active) : (s.pollStream env).2.work < s.work := by
  have clear : ¬(s.flow.hasPendingBarrier || !s.flow.canSend || jobStreamWindow ≤ s.flow.inflight) := by
    simp [not_hasPendingBarrier idle.answered, idle.room, idle.answered, jobStreamWindow]
  have answered : (s.readStream env.buffer).2.2.flow.inflight = 0 := idle.answered
  unfold pollStream
  rw [if_neg clear]
  dsimp only
  split
  case isTrue hr => exact (StreamStep.readFail env.buffer stage hw hr).work_lt_of_done hs stage
  case isFalse hn =>
    split
    case isTrue hz =>
      rw [if_neg (not_not_intro answered)]
      exact (StreamStep.readEnd env.buffer stage hw idle.answered hz).work_lt_of_done hs stage
    case isFalse hz =>
      let t := { s with plannerStarvationCount := s.plannerStarvationCount + 1 }
      have streams : Streams t := ⟨hs.1, hs.2, hs.3, hs.4, hs.5, hs.6⟩
      have hr : 0 < (t.readStream env.buffer).1 := (by omega : 0 < (s.readStream env.buffer).1)
      change _ < t.work
      obtain ⟨s₁, sent, timed⟩ | ⟨rc, s₁, sent, hz, hf, he⟩ := @streamLine_cases
        (s.readStream env.buffer).2.2 env (s.readStream env.buffer).2.1 (t.readStream env.buffer).2.2 rfl idle.room idle.answered
      case inl =>
        rw [timed.work_eq]
        exact (StreamStep.stream (s := t) env.buffer stage hw hr sent).work_lt_of_done streams stage
      case inr =>
        rw [he]
        exact (StreamStep.streamFail (s := t) env.buffer stage hw hr sent hz hf).work_lt_of_done streams stage

theorem pollStreamer_work_lt (hc : Closing s) (idle : s.Idle) (active : s.jobActive)
    (notAborted : ¬s.abortRequested) (notFinish : ¬s.finishCleanup.pending) :
    (s.pollStreamer env).2.work < s.work := by
  have timed := @updateJobTiming_timed s (env.clock 0)
  have streams : Streams (s.updateJobTiming (env.clock 0)) := by
    obtain ⟨_, _, _, he⟩ := timed
    rw [he]
    exact ⟨active, idle.notBusy, idle.notQueue, idle.notError, idle.notPaused, notFinish⟩
  have notAborted : ¬(s.updateJobTiming (env.clock 0)).abortRequested := by
    obtain ⟨_, _, _, he⟩ := timed
    rw [he]
    exact notAborted
  have idle := timed.idle idle
  have hc := timed.closing hc
  rw [← timed.work_eq]
  unfold pollStreamer
  rw [if_neg (by simp [active])]
  generalize s.updateJobTiming (env.clock 0) = s at *
  have notPaused : ¬(s.status.state == .paused || s.status.state == .pausing) := by
    simpa using idle.notPaused
  dsimp only
  rw [if_neg idle.notError, if_neg notPaused, if_neg streams.notFinish, if_neg notAborted]
  split
  case isTrue hn => exact pollJobPrepare_work_lt hc idle streams hn
  case isFalse stage =>
    rw [if_pos idle.warm]
    have cold : ¬s.clearWait.heaterWait.active := Bool.false_ne_true
    have idle' : Idle s.clearWait :=
      ⟨idle.1, idle.2, idle.3, by simp [HeaterWait.ready, cold], idle.5, idle.6, idle.7, idle.8⟩
    have streams' : Streams s.clearWait :=
      ⟨streams.1, streams.2, streams.3, streams.4, streams.5, streams.6⟩
    exact pollStream_work_lt idle' streams' (Decidable.not_not.mp stage) cold

theorem abort_work_lt (active : s.jobActive) : s.abort.2.work < s.work := by
  have abortable : s.abortable := by simp [abortable, active]
  unfold abort
  rw [if_neg (by simp [abortable])]
  exact work_lt_of_ended active not_active_startAbort

theorem pollJob_work_lt (hc : Closing s) (idle : s.Idle) (active : s.jobActive)
    (notFinish : ¬s.finishCleanup.pending) : (s.pollJob env).2.work < s.work := by
  unfold pollJob
  split
  case isTrue => exact abort_work_lt active
  case isFalse ha =>
    rw [if_neg idle.notBusy, if_neg idle.notQueue]
    exact pollStreamer_work_lt hc idle active ha notFinish

end Polls

section Finish

theorem work_lt_of_finish (active : s.jobActive) (pending : s.finishCleanup.pending)
    (prepare : s'.prepareWork = s.prepareWork)
    (h : s'.streamWork < s.finishCleanup.policy.length - s.finishCleanup.index + 2) : s'.work < s.work := by
  refine work_lt active ?_
  rw [prepare, streamWork.eq_1 s, if_pos pending]
  exact Nat.add_lt_add_left h _

theorem work_advanceFinish (active : s.jobActive) (pending : s.finishCleanup.pending)
    (next : s.finishCleanup.policy[s.finishCleanup.index]? = some command) :
    (s.advancePolicy .finish).work < s.work := by
  refine work_lt_of_finish active pending rfl ?_
  have advanced : (s.advancePolicy .finish).streamWork =
      s.finishCleanup.policy.length - (s.finishCleanup.index + 1) + 2 := if_pos pending
  have := (List.getElem?_eq_some_iff.mp next).1
  rw [advanced]
  omega

theorem work_failFinish {rc : Int} (hc : Closing s) (active : s.jobActive)
    (pending : s.finishCleanup.pending) : (s.failPolicy .finish rc).work < s.work := by
  refine work_lt_of_finish active pending rfl ?_
  have dropped : (s.failPolicy .finish rc).streamWork = if s.jobStream.isOpen
    then s.jobStream.work + MotionPolicy.finish.length + 3 else 1 := rfl
  rw [dropped, if_neg (hc pending)]
  omega

-- The next command of the finish cleanup goes through, or the cleanup fails.
theorem sendFinish_work_lt {rounds : Nat} (hc : Closing s) (idle : s.Idle) (active : s.jobActive)
    (pending : s.finishCleanup.pending)
    (hl : s.finishCleanup.policy.length ≤ s.finishCleanup.index + rounds) :
    (sendPolicy .finish rounds s).2.work < s.work ∨ sendPolicy .finish rounds s = (1, s) := by
  cases rounds
  case zero => exact .inr rfl
  case succ rounds =>
    cases next : s.finishCleanup.policy[s.finishCleanup.index]?
    case none =>
      right
      rw [sendPolicy, policy, next]
    case some command =>
      left
      generalize hs : s.send (.policy .finish) command = sent
      obtain ⟨rc, s₁⟩ := sent
      have full : rc ≠ MotionSender.flowFull := by
        have := @send_rc_ne_flowFull _ (.policy .finish) command idle.room
        rwa [hs] at this
      have kept : s₁.work = s.work := work_send hs
      have same : s₁.finishCleanup = s.finishCleanup := by
        have : (s.send (.policy .finish) command).2.finishCleanup = s.finishCleanup := rfl
        rw [← this, hs]
      have active' : s₁.jobActive := by
        have : (s.send (.policy .finish) command).2.jobActive = s.jobActive := rfl
        rw [hs] at this
        exact this.trans active
      have pending' : s₁.finishCleanup.pending := same ▸ pending
      have hc' : Closing s₁ := hc.send hs
      rw [sendPolicy, policy, next]
      dsimp only
      rw [if_neg idle.not_windowClosed, hs]
      dsimp only
      split
      case isTrue =>
        obtain ⟨steps, _⟩ := @sendPolicy_steps (s₁.advancePolicy .finish) .finish rounds pending'
          (absurd · (by decide)) (by
            rw [policy_advancePolicy, policy, same]
            dsimp only
            omega)
        rw [← kept]
        exact (steps.work_le hc'.advancePolicy).trans_lt (work_advanceFinish active' pending' (same ▸ next))
      case isFalse =>
        rw [← kept]
        exact work_failFinish hc' active' pending'

theorem pollPolicy_finish_work_lt (hc : Closing s) (idle : s.Idle) (active : s.jobActive)
    (pending : s.finishCleanup.pending) : (s.pollPolicy .finish).2.work < s.work := by
  have sent := sendFinish_work_lt hc idle active pending (Nat.le_add_left ..)
  have positive : 0 < s.work := Nat.zero_lt_of_lt (@work_failFinish _ 0 hc active pending)
  unfold pollPolicy
  rw [if_neg (by simp [policy, pending])]
  dsimp only [policy]
  generalize sendPolicy .finish s.finishCleanup.policy.length s = r at sent ⊢
  split
  case isTrue hr =>
    refine sent.resolve_right fun he => hr ?_
    rw [he]
  case isFalse =>
    split
    case isTrue hi =>
      refine sent.resolve_right fun he => hi ?_
      rw [he]
      exact idle.answered
    case isFalse => exact positive

theorem pollPauseResume_of_not_busy (h : ¬s.pauseResumeBusy) : s.pollPauseResume = (0, s) := by
  simp only [pauseResumeBusy, Bool.or_eq_true, not_or, Bool.not_eq_true] at h
  obtain ⟨⟨probe, pause⟩, resume⟩ := h
  simp [pollPauseResume, pollResume, pollPolicy, policy, probe, pause, resume]

theorem pollPolicies_work_lt (hc : Closing s) (owned : s.Owned) (idle : s.Idle)
    (pending : s.finishCleanup.pending) : s.pollPolicies.work < s.work := by
  have active : s.jobActive := owned.finish pending
  have notAbort : ¬s.abortCleanup.pending := fun h => owned.abort h active
  have unneeded : ¬s.needsAbort := by simp [needsAbort, idle.notError]
  have skipped : s.pollPolicy .abort = (0, s) := by simp [pollPolicy, policy, notAbort]
  unfold pollPolicies servePolicies
  rw [if_neg unneeded]
  dsimp only
  rw [pollPauseResume_of_not_busy idle.notBusy, skipped, work_refreshManualStatus]
  exact pollPolicy_finish_work_lt hc idle active pending

end Finish

-- The two invariants that the descent of the work rests on.
structure Sound (s : Service) : Prop where
  closing : Closing s
  owned   : s.Owned

theorem Sound.exec (sound : Sound s) (op : Op) : Sound (s.exec op) := by
  obtain ⟨_, _, exec⟩ := @exec_refines s op
  exact ⟨exec_closing sound.closing op,
    exec.keeps Lifecycle.JobChange.abortWithoutJob sound.owned.abort,
    exec.keeps Lifecycle.JobChange.finishWithJob sound.owned.finish⟩

theorem run_sound {ops : List Op} : Sound (init.run ops) :=
  ⟨run_closing, run_abortWithoutJob, run_finishWithJob⟩

theorem PollSteps.owned (h : PollSteps s s') (owned : s.Owned) : s'.Owned := by
  induction h
  case refl => exact owned
  case tail step ih =>
    obtain ⟨_, _, lifecycle⟩ := step.refines
    exact ⟨lifecycle.jobChange.abortWithoutJob ih.abort, lifecycle.jobChange.finishWithJob ih.finish⟩

theorem finishCleanup_reactToResponse (allow : Bool) (flowRc : Int) :
    (s.reactToResponse allow flowRc).2.finishCleanup = s.finishCleanup := by
  unfold reactToResponse
  split
  case isTrue =>
    dsimp only
    split <;> rfl
  case isFalse =>
    split
    case isTrue =>
      dsimp only
      split <;> rfl
    case isFalse => split <;> rfl

theorem finishCleanup_runtimeLoop {allow : Bool} {rounds : Nat} {handled : Int} :
    (runtimeLoop allow rounds handled s).2.finishCleanup = s.finishCleanup := by
  induction rounds generalizing s handled
  case zero => rfl
  case succ rounds ih =>
    unfold runtimeLoop
    dsimp only
    split
    case isTrue => rfl
    case isFalse =>
      split
      case isTrue => rfl
      case isFalse =>
        have read : (s.readLine.2.2.handleLine s.readLine.2.1).2.finishCleanup = s.finishCleanup := rfl
        generalize s.readLine.2.2.handleLine s.readLine.2.1 = r at read ⊢
        have reacted := finishCleanup_reactToResponse (s := r.2) allow r.1
        generalize r.2.reactToResponse allow r.1 = r' at reacted ⊢
        split
        case isTrue  => exact ih.trans (reacted.trans read)
        case isFalse => exact reacted.trans read

theorem finishCleanup_pollRuntime : s.pollRuntime.2.finishCleanup = s.finishCleanup := by
  unfold pollRuntime
  split
  case isTrue  => rfl
  case isFalse => exact finishCleanup_runtimeLoop

theorem pollMotion_work_lt (hc : Closing s) (owned : s.Owned) (idle : s.pollRuntime.2.Idle)
    (pending : s.finishCleanup.pending) : s.pollMotion.2.work < s.work := by
  have steps : PollSteps s s.pollRuntime.2 := pollRuntime_steps
  have read := (work_le_of_steps PollStep.work_le PollStep.closing steps hc)
  have pending' : s.pollRuntime.2.finishCleanup.pending := by
    rw [finishCleanup_pollRuntime]
    exact pending
  have served := pollPolicies_work_lt read.1 (steps.owned owned) idle pending'
  have policies := (work_le_of_steps PollStep.work_le PollStep.closing
    (pollPolicies_steps (s := s.pollRuntime.2)) read.1).1
  have probed := (pollProbes_steps (s := s.pollRuntime.2.pollPolicies) s.pollRuntime.1).work_le policies
  exact probed.trans_lt (served.trans_le read.2)

-- The polls that have to get on with the job do so.
theorem exec_work_lt (sound : Sound s) (active : s.jobActive) {op : Op} (h : s.advances op) :
    (s.exec op).work < s.work := by
  cases op
  case pollJob env poll =>
    simp only [advances, Bool.and_eq_true, Bool.not_eq_true'] at h
    have closing : Closing (s.connect env) := sound.closing
    have notFinish : ¬(s.connect env).finishCleanup.pending := by simp [connect, h.1]
    exact pollJob_work_lt (s := s.connect env) closing (idle_of_isIdle h.2) active notFinish
  case pollMotion env =>
    simp only [advances, Bool.and_eq_true] at h
    have closing : Closing (s.connect env) := sound.closing
    have owned : (s.connect env).Owned := ⟨sound.owned.abort, sound.owned.finish⟩
    have pending : (s.connect env).finishCleanup.pending := h.1
    exact pollMotion_work_lt (s := s.connect env) closing owned (idle_of_isIdle h.2) pending
  all_goals contradiction

theorem ranked : Ranking.Ranked exec advances Sound (fun s => s.jobActive) work where
  keeps sound         := sound.exec _
  le sound active _   := exec_work_le sound.closing active _
  lt sound active _ h := exec_work_lt sound active h

end Deneb.Service
