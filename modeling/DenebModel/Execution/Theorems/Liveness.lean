import DenebModel.Execution.Theorems.Advance
import DenebModel.Execution.Theorems.Delivery

namespace Deneb.Lifecycle

open Labelled

variable {l l' : Lifecycle} {recorded : List Event}

-- The job goes on, or the record says that it is done or aborted.
def GoesOn (l : Lifecycle) (recorded : List Event) (l' : Lifecycle) : Prop :=
  l.job → l'.job ∨ .policyDone .finish ∈ recorded ∨ .aborted ∈ recorded

theorem GoesOn.of_job (h : l'.job = l.job) : GoesOn l recorded l' :=
  fun hj => .inl (h.trans hj)

theorem PolicyStep.goesOn (h : PolicyStep l recorded l') : GoesOn l recorded l' := by
  cases h
  case finishDone => exact fun _ => .inr (.inl List.mem_cons_self)
  all_goals exact .of_job rfl

theorem PollStep.goesOn (h : PollStep l recorded l') : GoesOn l recorded l' := by
  cases h
  case abort      => exact fun _ => .inr (.inr List.mem_cons_self)
  case policy h   => exact h.goesOn
  case line h     => cases h <;> exact .of_job rfl
  case manual h   => cases h <;> exact .of_job rfl
  case wait h     => cases h <;> exact .of_job rfl
  all_goals exact .of_job rfl

theorem MacroStep.goesOn {mayWait : Prop} (h : MacroStep mayWait l recorded l') : GoesOn l recorded l' := by
  cases h
  case poll h => exact h.goesOn
  all_goals exact .of_job rfl

theorem GcodeStep.job_eq (h : GcodeStep l recorded l') : l'.job = l.job := by
  cases h
  case queue h  => cases h <;> rfl
  case wait h   => cases h <;> rfl
  case manual h => cases h <;> rfl

theorem GoesOn.steps {step : Lifecycle → List Event → Lifecycle → Prop}
    (hs : ∀ {l recorded l'}, step l recorded l' → GoesOn l recorded l') (h : Steps step l recorded l') :
    GoesOn l recorded l' := by
  induction h
  case refl => exact .of_job rfl
  case tail steps step ih =>
    intro hj
    obtain active | done | aborted := ih hj
    case inl =>
      exact (hs step active).imp_right (Or.imp (List.mem_append_right _) (List.mem_append_right _))
    case inr.inl => exact .inr (.inl (List.mem_append_left _ done))
    case inr.inr => exact .inr (.inr (List.mem_append_left _ aborted))

-- All calls but the polls of the job.
theorem Exec.goesOn {op : Service.Op} (h : Exec op l recorded l')
    (hop : ∀ env poll, op ≠ .pollJob env poll) : GoesOn l recorded l' := by
  cases h
  case pollMotion h => exact GoesOn.steps PollStep.goesOn h
  case pollJob env poll _ => exact absurd rfl (hop env poll)
  case runMacro h   => exact GoesOn.steps MacroStep.goesOn h
  case gcode manual steps =>
    refine .of_job (steps.keeps (p := (·.job = l.job)) (fun step h => step.job_eq.trans h) ?_)
    cases manual <;> rfl
  case job   => exact fun _ => .inl rfl
  case abort => exact fun _ => .inr (.inr List.mem_cons_self)
  all_goals exact .of_job rfl

end Deneb.Lifecycle

namespace Deneb.Service

open CString

variable {s s₁ : Service} {env : PollEnv}

-- How a job can end: it is done, it is aborted, or an error is reported.
def Ends (recorded : List Event) (s : Service) : Prop :=
  .policyDone .finish ∈ recorded ∨ .aborted ∈ recorded ∨ s.status.state = .error

section Streamer

variable {commands : List CString} {which : JobIndex} {offset rounds : Nat} {sentAny : Bool}

theorem jobActive_of_send {p : Producer} {command : CString} {rc : Int} (h : s.send p command = (rc, s₁)) :
    s₁.jobActive = s.jobActive := by
  have : (s.send p command).2.jobActive = s.jobActive := rfl
  rw [← this, h]

theorem jobActive_sendCommandList :
    (sendCommandList commands which offset rounds sentAny s).2.jobActive = s.jobActive := by
  induction rounds generalizing s sentAny
  case zero => rfl
  case succ rounds ih =>
    unfold sendCommandList
    split
    case h_1 => rfl
    case h_2 command _ =>
      split
      case isTrue => rfl
      case isFalse =>
        generalize hs : s.send .streamer command = sent
        obtain ⟨rc, s₁⟩ := sent
        have sent : s₁.jobActive = s.jobActive := jobActive_of_send hs
        dsimp only
        split
        case isTrue =>
          have advanced : (s₁.advanceJobIndex which).jobActive = s₁.jobActive := by cases which <;> rfl
          exact ih.trans (advanced.trans sent)
        case isFalse => split <;> exact sent

theorem jobActive_sendJobStartup : s.sendJobStartup.2.jobActive = s.jobActive := by
  unfold sendJobStartup
  split
  case isTrue =>
    dsimp only
    split
    case isTrue  => exact jobActive_sendCommandList
    case isFalse => exact jobActive_sendCommandList.trans jobActive_sendCommandList
  case isFalse => exact jobActive_sendCommandList

theorem jobActive_pollJobPrepare : s.pollJobPrepare.2.jobActive = s.jobActive := by
  unfold pollJobPrepare
  split
  case h_1 =>
    dsimp only
    split <;> exact jobActive_sendCommandList
  case h_3 =>
    split
    case isTrue  => rfl
    case isFalse => split <;> rfl
  case h_4 =>
    dsimp only
    split <;> exact jobActive_sendJobStartup
  case h_6 => rfl
  all_goals split <;> rfl

-- The streamer gives up a job with an error.
theorem pollStream_ends (active : s.jobActive) (ended : ¬(s.pollStream env).2.jobActive) :
    (s.pollStream env).2.status.state = .error := by
  unfold pollStream at ended ⊢
  split at ended
  case isTrue => exact absurd active ended
  case isFalse open' =>
    rw [if_neg open']
    dsimp only at ended ⊢
    split at ended
    case isTrue hr =>
      rw [if_pos hr]
      rfl
    case isFalse hn =>
      rw [if_neg hn]
      split at ended
      case isTrue => split at ended <;> exact absurd active ended
      case isFalse hz =>
        rw [if_neg hz]
        simp only [Bool.or_eq_true, Bool.not_eq_true', not_or, Bool.not_eq_false] at open'
        have answered : s.flow.inflight = 0 := by
          have := mt decide_eq_true open'.2
          rw [jobStreamWindow] at this
          omega
        obtain ⟨s₁, sent, _, _, _, he⟩ | ⟨rc, s₁, _, _, _, he⟩ := @streamLine_cases
          (s.readStream env.buffer).2.2 env (s.readStream env.buffer).2.1 _ rfl open'.1.2 answered
        case inr =>
          rw [he]
          rfl
        case inl =>
          rw [he] at ended
          have kept : s₁.startLineWait.jobActive = s₁.jobActive := congrArg JobView.active jobView_startLineWait
          exact absurd (kept.trans ((jobActive_of_send sent).trans active)) ended

theorem pollStreamer_ends (active : s.jobActive) (notAborted : ¬s.abortRequested)
    (ended : ¬(s.pollStreamer env).2.jobActive) : (s.pollStreamer env).2.status.state = .error := by
  have timed := @updateJobTiming_timed s (env.clock 0)
  have active' : (s.updateJobTiming (env.clock 0)).jobActive := by
    obtain ⟨_, _, _, he⟩ := timed
    rw [he]
    exact active
  have notAborted' : ¬(s.updateJobTiming (env.clock 0)).abortRequested := by
    obtain ⟨_, _, _, he⟩ := timed
    rw [he]
    exact notAborted
  unfold pollStreamer at ended ⊢
  have there : ¬(!s.jobActive) = true := by simp [active]
  rw [if_neg there] at ended ⊢
  generalize s.updateJobTiming (env.clock 0) = s at *
  dsimp only at ended ⊢
  split at ended
  case isTrue he =>
    rw [if_pos he]
    exact he
  case isFalse he =>
    rw [if_neg he]
    split at ended
    case isTrue =>
      obtain ⟨_, _, _, ht⟩ := @updateJobTiming_timed s (env.clock 1)
      rw [ht] at ended
      exact absurd active' ended
    case isFalse hp =>
      rw [if_neg hp]
      split at ended
      case isTrue => exact absurd active' ended
      case isFalse hf =>
        rw [if_neg hf, if_neg notAborted']
        split at ended
        case isTrue =>
          rw [jobActive_pollJobPrepare] at ended
          exact absurd active' ended
        case isFalse stage =>
          rw [if_neg stage]
          split at ended
          case isTrue hw =>
            rw [if_pos hw]
            exact pollStream_ends (s := s.clearWait) active' ended
          case isFalse => exact absurd active' ended

end Streamer

theorem GcodeSteps.jobActive_eq (h : GcodeSteps s s₁) : s₁.jobActive = s.jobActive := by
  induction h
  case refl => rfl
  case tail step ih =>
    obtain ⟨_, _, lifecycle⟩ := step.refines
    exact lifecycle.job_eq.trans ih

theorem exec_ends {op : Op} (active : s.jobActive) (ended : ¬(s.exec op).jobActive) :
    Ends (s.events [op]) (s.exec op) := by
  by_cases hop : ∃ env poll, op = .pollJob env poll
  case neg =>
    obtain ⟨recorded, ht, exec⟩ := @exec_refines s op
    obtain active' | done | aborted := exec.goesOn (fun env poll h => hop ⟨env, poll, h⟩) active
    case inl => exact absurd active' ended
    all_goals rw [events_single ht]
    case inr.inl => exact .inl done
    case inr.inr => exact .inr (.inl aborted)
  case pos =>
    obtain ⟨serial, poll, rfl⟩ := hop
    change ¬((s.connect serial).pollJob poll).2.jobActive at ended
    have active : (s.connect serial).jobActive := active
    have same : s.trace = (s.connect serial).trace := rfl
    change Ends (s.events [_]) ((s.connect serial).pollJob poll).2
    by_cases ha : (s.connect serial).abortRequested
    case pos =>
      have abortable : (s.connect serial).abortable := by simp [abortable, active]
      have aborted : ((s.connect serial).pollJob poll).2 = (s.connect serial).startAbort := by
        simp [pollJob, ha, abort, abortable]
      obtain ⟨events, ht, _⟩ := @trace_startAbort (s.connect serial)
      have recorded : (s.exec (.pollJob serial poll)).trace = s.trace ++ .aborted :: events := by
        rw [same, ← ht, ← aborted]
        rfl
      rw [events_single recorded]
      exact .inr (.inl List.mem_cons_self)
    case neg =>
      refine .inr (.inr ?_)
      unfold pollJob at ended ⊢
      rw [if_neg ha] at ended ⊢
      split at ended
      case isTrue => exact absurd active ended
      case isFalse hb =>
        rw [if_neg hb]
        split at ended
        case isTrue =>
          have steps : GcodeSteps (s.connect serial) (s.connect serial).pollGcode.2 := pollGcode_steps
          exact absurd (steps.jobActive_eq.trans active) ended
        case isFalse hq =>
          rw [if_neg hq]
          exact pollStreamer_ends active ha ended

-- A job ends after at most as many polls that find the service idle as its work says.
theorem ends_of_advancing (sound : Sound s) (active : s.jobActive) {ops : List Op}
    (polled : s.work < s.advancing ops) :
    ∃ past op rest, ops = past ++ op :: rest ∧ (s.run past).jobActive ∧
      ¬(s.run (past ++ [op])).jobActive ∧ Ends ((s.run past).events [op]) (s.run (past ++ [op])) := by
  obtain ⟨past, op, rest, split, active', ended⟩ := ranked.ends sound active polled
  have next : s.run (past ++ [op]) = (s.run past).exec op := List.foldl_append
  refine ⟨past, op, rest, split, active', ?_⟩
  rw [next]
  exact ⟨ended, exec_ends active' ended⟩

theorem work_startJob {cmd : JobCommand} (ho : s.jobStream.isOpen) :
    (s.startJob cmd).work = s.jobStream.work + 27 := by
  obtain ⟨timer, total, left, he⟩ := @applyMetadata_eq (s.resetForJob cmd) cmd.printTime
  have started : (s.startJob cmd).work = (s.resetForJob cmd).work := by
    unfold startJob
    rw [he]
    rfl
  have prepare : (s.resetForJob cmd).prepareWork = 13 := rfl
  have stream : (s.resetForJob cmd).streamWork = s.jobStream.work + 14 := if_pos ho
  rw [started, work, if_pos (show (s.resetForJob cmd).jobActive from rfl), prepare, stream]
  omega

theorem work_accepted {cmd : JobCommand} {file : JobFile} (idle : ¬s.jobActive)
    (active : (s.accept cmd).2.jobActive) (hf : cmd.jobFile = some file) :
    (s.accept cmd).2.work = maxCommands * file.reads.length + 27 := by
  unfold accept at active ⊢
  split at active
  case isTrue => exact absurd active idle
  case isFalse he =>
    split at active
    case isTrue => exact absurd active idle
    case isFalse hb =>
      rw [if_neg he, if_neg hb]
      simp only [hf] at active ⊢
      cases hv : cmd.buildVolumeError
      case some =>
        rw [hv] at active
        exact absurd active idle
      case none => exact work_startJob rfl

-- A job that was accepted ends after at most 16 polls for each byte of its file, and 27 more, that find
-- the service idle. Whatever calls are made between them, it ends with its finish cleanup, with an abort
-- or with an error.
theorem job_ends {ops later : List Op} {cmd : JobCommand} {serial : SerialEnv} {latency : UInt32}
    {file : JobFile} (h : Accepts ops cmd serial latency s) (hf : cmd.jobFile = some file)
    (polled : maxCommands * file.reads.length + 27 < s.advancing later) :
    ∃ past op rest, later = past ++ op :: rest ∧ (s.run past).jobActive ∧
      ¬(s.run (past ++ [op])).jobActive ∧ Ends ((s.run past).events [op]) (s.run (past ++ [op])) := by
  have sound : Sound s := h.exec ▸ run_sound.exec _
  refine ends_of_advancing sound h.active ?_
  have active := h.active
  rw [← h.exec] at active polled ⊢
  have accepted : (exec (init.run ops) (.command (.job cmd) serial latency)).work =
      maxCommands * file.reads.length + 27 :=
    work_accepted (s := (init.run ops).connect serial) h.idle active hf
  rwa [accepted]

-- The controller acknowledges everything, and the job is polled on after its end.
def moveLater : List Op :=
  moveRounds ++ List.replicate 110 (.pollJob {} {})

theorem moveJob_ends : ∃ past op rest, moveLater = past ++ op :: rest ∧ (moveAccepted.run past).jobActive ∧
    ¬(moveAccepted.run (past ++ [op])).jobActive ∧
    Ends ((moveAccepted.run past).events [op]) (moveAccepted.run (past ++ [op])) :=
  job_ends moveJob_accepts rfl (by decide +kernel)

end Deneb.Service
