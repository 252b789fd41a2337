import DenebModel.Primitives.History
import DenebModel.Execution.Theorems.Complete
import DenebModel.Execution.Theorems.HandOff
import DenebModel.Execution.Theorems.Traffic

namespace Deneb

open CString Labelled History

namespace Service

variable {s s' s₁ : Service} {p : Producer} {command : CString} {rc : Int} {kind : PolicyKind}

section Closing

-- The file of the job is closed before the finish cleanup begins.
def Closing (s : Service) : Prop :=
  s.finishCleanup.pending → ¬s.jobStream.isOpen

theorem Closing.send (h : Closing s) (hs : s.send p command = (rc, s₁)) : Closing s₁ := by
  have sent : s₁ = (s.send p command).2 := by rw [hs]
  rw [sent]
  exact h

theorem Closing.advancePolicy (h : Closing s) : Closing (s.advancePolicy kind) := by
  cases kind <;> exact h

theorem Closing.failPolicy (h : Closing s) : Closing (s.failPolicy kind rc) := by
  cases kind
  case finish => exact (absurd · Bool.false_ne_true)
  all_goals exact h

theorem Closing.completePolicy (h : Closing s) : Closing (s.completePolicy kind) := by
  cases kind
  case finish => exact (absurd · Bool.false_ne_true)
  all_goals exact h

theorem PolicyStep.closing (h : PolicyStep s s') (hc : Closing s) : Closing s' := by
  cases h
  case send hs         => exact (hc.send hs).advancePolicy
  case fail hs         => exact (hc.send hs).failPolicy
  case done            => exact hc.completePolicy
  case heat hs         => exact (hc.send hs :)
  case heatFail hs     => exact (hc.send hs :)
  case leftover hs     => exact (Closing.send (s := s.clearWait) hc hs).advancePolicy
  case leftoverFail hs => exact (Closing.send (s := s.clearWait) hc hs).failPolicy
  case probe hs        => exact (hc.send hs :)
  case probeFail hs    => exact (hc.send hs :)
  case probed =>
    unfold endPauseProbe beginPauseCleanupFromCurrentPosition
    dsimp only
    split <;> exact hc

theorem refreshManualStatus_closing (h : Closing s) : Closing s.refreshManualStatus := by
  unfold refreshManualStatus
  split
  case isTrue  => exact h
  case isFalse => split <;> exact h

theorem MotionStep.closing (h : MotionStep s s') (hc : Closing s) : Closing s' := by
  cases h
  case quiet hq      => cases hq <;> exact hc
  case policy hp     => exact hp.closing hc
  case manualStatus  => exact refreshManualStatus_closing hc
  case statusProbe   => exact hc
  case applyWait     => exact hc
  case waitOver      => exact hc

theorem PollStep.closing (h : PollStep s s') (hc : Closing s) : Closing s' := by
  cases h
  case motion hm  => exact hm.closing hc
  case runtime hr => cases hr <;> exact hc
  case abort =>
    unfold startAbort
    dsimp only
    split <;> exact (absurd · Bool.false_ne_true)
  case dropAbort => exact hc

theorem QueueStep.closing (h : QueueStep s s') (hc : Closing s) : Closing s' := by
  cases h
  case send entry s₁ _ _ _ hs =>
    have sent := hc.send hs
    unfold advanceQueue
    dsimp only
    split
    case isTrue  => exact sent
    case isFalse => split <;> exact sent
  case fail hs => exact (hc.send hs :)
  case done    => exact hc

theorem StreamStep.closing (h : StreamStep s s') (notFinish : ¬s.finishCleanup.pending) : Closing s' := by
  have hc : Closing s := fun h => absurd h notFinish
  cases h
  case prepare s₁ _ hs =>
    have sent := hc.send hs
    unfold advancePrepare
    cases s₁.prepareIndex <;> exact sent
  case prepareFail hs => exact (hc.send hs :)
  case readFail       => exact (absurd · Bool.false_ne_true)
  case readEnd        => exact fun _ => Bool.false_ne_true
  case streamFail     => exact (absurd · Bool.false_ne_true)
  case stream s₁ buffer _ _ _ hs =>
    have read : Closing (s.readStream buffer).2.2.setStreaming := fun h => absurd h notFinish
    have sent := read.send hs
    unfold startLineWait
    dsimp only
    split
    case isTrue  => exact sent
    case isFalse => split <;> exact sent
  all_goals exact hc

theorem JobStep.closing (h : JobStep s s') (hc : Closing s) : Closing s' := by
  cases h
  case poll hp      => exact hp.closing hc
  case dropWait     => exact hc
  case queue _ hq   => exact hq.closing hc
  case errorExit    => exact (absurd · Bool.false_ne_true)
  case streaming    => exact hc
  case stream hs hm => exact hm.closing hs.notFinish

theorem GcodeStep.closing (h : GcodeStep s s') (hc : Closing s) : Closing s' := by
  cases h
  case queue hq      => exact hq.closing hc
  case applyWait     => exact hc
  case waitOver      => exact hc
  case manualStatus  => exact refreshManualStatus_closing hc

theorem MacroStep.closing {cmd : MacroCommand} (h : MacroStep cmd s s') (hc : Closing s) : Closing s' := by
  cases h
  case poll hp   => exact hp.closing hc
  case send      => exact hc
  case startWait =>
    unfold startMacroWait
    dsimp only
    split <;> exact hc
  case fail      => exact hc

end Closing
end Service

namespace GcodeStream

-- All that is to be done for the job is done: the file has no more commands.
def PlanDone (stream : GcodeStream) (events : List Event) : Prop :=
  ∃ lines stream' buffer, stream.Emits lines stream' ∧ (stream'.next buffer).1 = 0 ∧
    marks events = stream.plan lines

variable {stream : GcodeStream} {buffer : LineBuffer} {events recorded : List Event}

theorem isOpen_nextLoop {rounds : Nat} : (nextLoop rounds stream buffer).2.2.isOpen = stream.isOpen := by
  induction rounds generalizing stream buffer
  case zero => rfl
  case succ rounds ih =>
    unfold nextLoop
    dsimp only
    split
    case isTrue => rfl
    case isFalse =>
      split
      case isTrue => exact ih
      case isFalse =>
        split
        case isTrue =>
          split
          case h_1 => split <;> exact ih
          case h_2 => exact ih
        case isFalse =>
          split
          case isTrue => exact ih
          case isFalse =>
            split
            case h_1 => exact ih
            case h_2 => rfl

theorem isOpen_next : (stream.next buffer).2.2.isOpen = stream.isOpen := by
  unfold next
  split
  case isTrue => rfl
  case isFalse =>
    dsimp only
    split
    case h_1 => rfl
    case h_2 => exact isOpen_nextLoop

theorem next_closed (h : ¬stream.isOpen) : (stream.next buffer).1 = -1 := by
  simp [next, h]

theorem PlanDone.append (h : stream.PlanDone events) (hm : ∀ e ∈ recorded, e.mark = none) :
    stream.PlanDone (events ++ recorded) := by
  obtain ⟨lines, stream', buffer, emits, ended, done⟩ := h
  refine ⟨lines, stream', buffer, emits, ended, ?_⟩
  rw [Service.marks_append, Service.marks_eq_nil hm, List.append_nil, done]

end GcodeStream

namespace Service

variable {s s' s₁ : Service} {stream : GcodeStream} {events recorded : List Event}

-- An active job has its file open until all that is to be done for it is done.
def Rests (stream : GcodeStream) (events : List Event) (s : Service) : Prop :=
  s.jobActive → s.jobStream.isOpen ∨ (s.jobPrepareStage = .done ∧ stream.PlanDone events)

theorem Rests.quiet (h : Rests stream events s) (hm : ∀ e ∈ recorded, e.mark = none)
    (hj : s'.jobActive → s.jobActive ∧ s'.jobView = s.jobView) : Rests stream (events ++ recorded) s' := by
  intro active
  obtain ⟨was, view⟩ := hj active
  have stage : s'.jobPrepareStage = s.jobPrepareStage := congrArg JobView.stage view
  have same : s'.jobStream = s.jobStream := congrArg JobView.stream view
  rw [stage, same]
  exact (h was).imp_right fun ⟨hs, hd⟩ => ⟨hs, hd.append hm⟩

theorem Rests.over (h : ¬s.jobActive) : Rests stream events s :=
  (absurd · h)

theorem StreamStep.rests (h : StreamStep s s') (active : s.jobActive)
    (handed : HandedOff stream events s) (rests : Rests stream events s)
    (ht : s'.trace = s.trace ++ recorded) : Rests stream (events ++ recorded) s' := by
  have unready (hn : s.jobPrepareStage ≠ .done) : s.jobStream.isOpen :=
    (rests active).resolve_right fun h => hn h.1
  have opened {buffer : LineBuffer} (hr : 0 ≤ (s.readStream buffer).1) : s.jobStream.isOpen := by
    by_contra hc
    have : (s.readStream buffer).1 = -1 := GcodeStream.next_closed hc
    omega
  have still {s' : Service} (hn : s.jobPrepareStage ≠ .done) (he : s'.jobStream = s.jobStream) :
      Rests stream (events ++ recorded) s' := by
    intro _
    rw [he]
    exact .inl (unready hn)
  have preparing {command : CString} (hc : s.prepareCommand = some command) : s.jobPrepareStage ≠ .done := by
    obtain ⟨hs, _⟩ | ⟨hs, _⟩ := prepareCommand_cases hc <;> simp [hs]
  cases h
  case prepare command s₁ hc hs =>
    refine still (preparing hc) ?_
    have view := jobView_advancePrepare (jobView_send hs)
    rw [show s₁.advancePrepare.jobStream = s.advancePrepare.jobStream from congrArg JobView.stream view]
    unfold advancePrepare
    cases s.prepareIndex <;> rfl
  case prepareFail command rc s₁ _ _ hc hs =>
    exact still (preparing hc) (congrArg JobView.stream (jobView_send hs))
  case homeSent hs _       => exact still (by simp [hs]) rfl
  case homeDrained hs _    => exact still (by simp [hs]) rfl
  case heated hs _         => exact still (by simp [hs]) rfl
  case startupSent hs _    => exact still (by simp [hs]) rfl
  case startupDrained hs _ => exact still (by simp [hs]) rfl
  case readFail            => exact .over Bool.false_ne_true
  case readEnd buffer hs _ hi hr =>
    intro _
    refine .inr ⟨hs, ?_⟩
    have progress := handed.progress active
    unfold JobView.Progress at progress
    rw [show s.jobView.stage = .done from hs] at progress
    obtain ⟨lines, stream', emits, hst, hm⟩ := progress
    have same : s.jobStream = stream' := hst.resolve_right fun h => h (opened (Int.le_of_eq hr.symm))
    have nothing : recorded = [] := List.append_right_eq_self.mp ht.symm
    rw [nothing, List.append_nil]
    exact ⟨lines, stream', buffer, emits, by rw [← same]; exact hr, hm⟩
  case stream s₁ buffer hs _ hr hsend =>
    intro _
    have view : s₁.startLineWait.jobView = (s.readStream buffer).2.2.jobView := by
      rw [jobView_startLineWait, jobView_send hsend]
      rfl
    rw [show s₁.startLineWait.jobStream = (s.jobStream.next buffer).2.2 from congrArg JobView.stream view,
      GcodeStream.isOpen_next]
    exact .inl (opened (Int.le_of_lt hr))
  case streamFail => exact .over Bool.false_ne_true

-- What holds of the job that was accepted last, if its file was open.
def JobRests (s : Service) : Prop :=
  ∀ job, jobRecord s.trace = some job → job.stream.isOpen → (∀ e ∈ job.events, ¬e.isWriteFailed) →
    Rests job.stream job.events s

theorem JobRests.append (h : JobRests s) (ht : s'.trace = s.trace ++ recorded)
    (hr : ∀ e ∈ recorded, ¬e.isAccepted)
    (hs : ∀ job, jobRecord s.trace = some job → (∀ e ∈ job.events, ¬e.isWriteFailed) →
      Rests job.stream job.events s → Rests job.stream (job.events ++ recorded) s') : JobRests s' := by
  intro job hjob open' written
  rw [ht, jobRecord_append hr] at hjob
  obtain ⟨job, hj, rfl⟩ := Option.map_eq_some_iff.mp hjob
  have written := (List.forall_mem_append.mp written).1
  exact hs job hj written (h job hj open' written)

theorem JobRests.others (h : JobRests s) (ht : s'.trace = s.trace ++ recorded)
    (hr : ∀ e ∈ recorded, e.mark = none ∧ ¬e.isAccepted)
    (hj : s'.jobActive → s.jobActive ∧ s'.jobView = s.jobView) : JobRests s' :=
  h.append ht (fun e he => (hr e he).2) fun _ _ _ rests => rests.quiet (fun e he => (hr e he).1) hj

theorem Entry.jobRests (h : Entry s s') (handed : JobHandedOff s) (hp : JobRests s) : JobRests s' := by
  cases h
  case note recorded hn job _ ht =>
    exact hp.others ht (fun e he => mark_of_isNote (hn e he)) job.kept
  case stop recorded hn hj _ ht =>
    exact hp.others ht (fun e he => mark_of_isNote (hn e he)) fun h => absurd h hj
  case hand producer command i hne job _ ht =>
    refine hp.others ht ?_ job.kept
    intro e he
    cases List.mem_singleton.mp he
    cases producer
    case streamer => contradiction
    all_goals exact ⟨rfl, Bool.false_ne_true⟩
  case drop slots event hev job _ ht =>
    refine hp.others ht ?_ job.kept
    intro e he
    obtain ⟨i, _, rfl⟩ := List.mem_map.mp he
    obtain rfl | rfl := hev
    case inl => exact ⟨rfl, Bool.false_ne_true⟩
    case inr => exact ⟨rfl, Bool.false_ne_true⟩
  case clear _ hj _ ht =>
    exact hp.others ht (fun e he => ⟨(mark_cleared e he).1, (mark_cleared e he).2.1⟩)
      fun h => absurd h hj
  case finish _ hj _ ht =>
    refine hp.others ht ?_ fun h => absurd h hj
    intro e he
    cases List.mem_singleton.mp he
    exact ⟨rfl, Bool.false_ne_true⟩
  case stream hs h =>
    have ⟨recorded, ht, refined⟩ := StreamStep.refines hs.notFinish h
    refine hp.append ht (not_accepted_of_stream refined) fun job hj written rests => ?_
    exact h.rests hs.active ((handed job hj).inv written) rests ht
  case accept ht =>
    intro job hjob open' _ _
    rw [ht, jobRecord_accepted] at hjob
    cases hjob
    exact .inl open'

-- What holds of the job between two steps.
structure Worked (s : Service) : Prop where
  owned   : s.Owned
  closing : s.Closing
  handed  : JobHandedOff s
  rests   : JobRests s

theorem Worked.done (h : Worked s) (hf : s.finishCleanup.pending) {job : JobRecord}
    (hj : jobRecord s.trace = some job) (open' : job.stream.isOpen)
    (written : ∀ e ∈ job.events, ¬e.isWriteFailed) : job.stream.PlanDone job.events :=
  ((h.rests job hj open' written (h.owned.finish hf)).resolve_left (h.closing hf)).2

end Service

namespace Lifecycle

-- A finish cleanup is completed only while it is pending, and nothing is recorded before that.
def Finishes (l : Lifecycle) (recorded : List Event) : Prop :=
  .policyDone .finish ∈ recorded →
    l.pending .finish ∧ ∃ tail, recorded = .policyDone .finish :: tail ∧ ∀ e ∈ tail, e.isSilent

variable {l l' : Lifecycle} {recorded : List Event}

theorem Finishes.of_ne (h : ∀ e ∈ recorded, e ≠ .policyDone .finish) : Finishes l recorded :=
  fun hd => absurd rfl (h _ hd)

theorem ne_finish_of_isSilent {e : Event} (h : e.isSilent) : e ≠ .policyDone .finish := by
  rintro rfl
  contradiction

theorem ne_finish_of_unsent {job : Bool} {p : Producer} {command : CString}
    (h : Unsent job p command recorded) : ∀ e ∈ recorded, e ≠ .policyDone .finish := by
  cases h <;> simp

theorem ne_finish_of_attempt {job : Bool} {p : Producer} {command : CString}
    (h : Attempt job p command recorded) : ∀ e ∈ recorded, e ≠ .policyDone .finish := by
  cases h
  case sent          => simp
  case unsent unsent => exact ne_finish_of_unsent unsent

theorem PolicyStep.finishes (h : PolicyStep l recorded l') : Finishes l recorded := by
  cases h
  case fail unsent _ =>
    exact .of_ne (List.forall_mem_append.mpr ⟨ne_finish_of_unsent unsent, by simp⟩)
  case abortDone silent _ =>
    exact .of_ne (List.forall_mem_cons.mpr ⟨by simp, fun e he => ne_finish_of_isSilent (silent e he)⟩)
  case finishDone tail silent hp _ => exact fun _ => ⟨hp, tail, rfl, silent⟩
  case probeFail unsent => exact .of_ne (ne_finish_of_unsent unsent)
  all_goals exact .of_ne (by simp)

theorem QueueStep.ne_finish (h : QueueStep l recorded l') : ∀ e ∈ recorded, e ≠ .policyDone .finish := by
  cases h
  case send        => simp
  case fail unsent => exact ne_finish_of_unsent unsent
  case done        => exact List.forall_mem_nil _

theorem PollStep.finishes (h : PollStep l recorded l') : Finishes l recorded := by
  cases h
  case silent silent => exact .of_ne fun e he => ne_finish_of_isSilent (silent e he)
  case line silent _ =>
    exact .of_ne (List.forall_mem_cons.mpr ⟨by simp, fun e he => ne_finish_of_isSilent (silent e he)⟩)
  case abort silent _ =>
    exact .of_ne (List.forall_mem_cons.mpr ⟨by simp, fun e he => ne_finish_of_isSilent (silent e he)⟩)
  case policy h      => exact h.finishes
  case probe attempt => exact .of_ne (ne_finish_of_attempt attempt)
  all_goals exact .of_ne (List.forall_mem_nil _)

theorem StreamStep.finishes (h : StreamStep l recorded l') : Finishes l recorded := by
  cases h
  case prepareFail unsent => exact .of_ne (ne_finish_of_unsent unsent)
  case stage silent       => exact .of_ne fun e he => ne_finish_of_isSilent (silent e he)
  case readFail silent    => exact .of_ne fun e he => ne_finish_of_isSilent (silent e he)
  case streamFail silent unsent =>
    exact .of_ne (List.forall_mem_append.mpr ⟨ne_finish_of_unsent unsent,
      fun e he => ne_finish_of_isSilent (silent e he)⟩)
  all_goals exact .of_ne (by simp)

theorem JobStep.finishes (h : JobStep l recorded l') : Finishes l recorded := by
  cases h
  case poll h   => exact h.finishes
  case queue h  => exact .of_ne h.ne_finish
  case errorExit silent =>
    refine .of_ne (List.forall_mem_append.mpr ⟨?_, fun e he => ne_finish_of_isSilent (silent e he)⟩)
    unfold dropFinish
    split <;> simp
  case streaming => exact .of_ne (List.forall_mem_nil _)
  case stream h  => exact h.finishes

theorem MacroStep.finishes {mayWait : Prop} (h : MacroStep mayWait l recorded l') : Finishes l recorded := by
  cases h
  case poll h       => exact h.finishes
  case send attempt => exact .of_ne (ne_finish_of_attempt attempt)
  all_goals exact .of_ne (List.forall_mem_nil _)

end Lifecycle

namespace Service

variable {s s' : Service} {recorded : List Event}

-- When a job is done, all that was to be done for it is done, if no write has failed.
def DoneWhole (past : List Event) (e : Event) : Prop :=
  e = .policyDone .finish → ∀ job, jobRecord past = some job → job.stream.isOpen →
    (∀ e ∈ job.events, ¬e.isWriteFailed) → job.stream.PlanDone job.events

def JobWhole (s : Service) : Prop :=
  Preceded DoneWhole s.trace

theorem JobWhole.append (h : JobWhole s) (worked : Worked s) (ht : s'.trace = s.trace ++ recorded)
    (hf : s.lifecycle.Finishes recorded) : JobWhole s' := by
  rw [JobWhole, ht]
  refine preceded_append.mpr ⟨h, ?_⟩
  by_cases hd : .policyDone .finish ∈ recorded
  case pos =>
    obtain ⟨pending, tail, rfl, silent⟩ := hf hd
    refine preceded_cons.mpr ⟨fun _ job hj open' written => ?_, .of_forall fun e he _ hd => ?_⟩
    case refine_1 =>
      rw [List.append_nil] at hj
      exact worked.done pending hj open' written
    case refine_2 => exact absurd hd (Lifecycle.ne_finish_of_isSilent (silent e he))
  case neg => exact .of_forall fun e he _ hd' => absurd (hd' ▸ he) hd

-- What holds between two steps, for the job and for its record.
structure Tracked (s : Service) : Prop where
  worked : Worked s
  whole  : JobWhole s

-- The steps of a call, which refine those of the lifecycle, keep it.
theorem Tracked.steps {r : Service → Service → Prop} {step : Lifecycle → List Event → Lifecycle → Prop}
    (hr : ∀ {s s'}, r s s' → Refines step s s')
    (hchange : ∀ {l recorded l'}, step l recorded l' → Lifecycle.JobChange l l')
    (hfinish : ∀ {l recorded l'}, step l recorded l' → l.Finishes recorded)
    (hentry : ∀ {s s'}, r s s' → s.Owned → Entries s s')
    (hclosing : ∀ {s s'}, r s s' → Closing s → Closing s')
    (h : Relation.ReflTransGen r s s') (tracked : Tracked s) : Tracked s' := by
  induction h
  case refl => exact tracked
  case tail step ih =>
    have ⟨recorded, ht, lifecycle⟩ := hr step
    have change := hchange lifecycle
    have worked := ih.worked
    have entries := hentry step worked.owned
    have both := Entries.keeps (fun {_ _} entry (h : JobHandedOff _ ∧ JobRests _) =>
      ⟨entry.jobHandedOff h.1, entry.jobRests h.1 h.2⟩) entries ⟨worked.handed, worked.rests⟩
    refine ⟨⟨⟨change.abortWithoutJob worked.owned.abort, change.finishWithJob worked.owned.finish⟩,
      hclosing step worked.closing, both.1, both.2⟩, ?_⟩
    exact ih.whole.append worked ht (hfinish lifecycle)

section Commands

theorem accept_closing (cmd : JobCommand) (hc : Closing s) : Closing (s.accept cmd).2 := by
  unfold accept
  split
  case isTrue => exact hc
  case isFalse =>
    split
    case isTrue => exact hc
    case isFalse =>
      split
      case h_1 => exact fun _ => Bool.false_ne_true
      case h_2 file _ =>
        dsimp only
        split
        case h_1 => exact fun _ => Bool.false_ne_true
        case h_2 =>
          have ⟨timer, total, left, he⟩ :=
            @applyMetadata_eq ({ s with jobStream := .open file }.resetForJob cmd) cmd.printTime
          unfold startJob
          rw [he]
          exact (absurd · Bool.false_ne_true)

theorem abort_closing (hc : Closing s) : Closing s.abort.2 := by
  unfold abort
  split
  case isTrue => exact hc
  case isFalse =>
    unfold startAbort
    dsimp only
    split <;> exact (absurd · Bool.false_ne_true)

theorem pause_closing (hc : Closing s) : Closing s.pause.2 := by
  unfold pause
  split
  case isTrue => exact hc
  case isFalse =>
    split
    case isTrue => exact hc
    case isFalse =>
      dsimp only
      split
      case isTrue => exact hc
      case isFalse =>
        dsimp only
        split <;> exact hc

theorem resume_closing (hc : Closing s) : Closing s.resume.2 := by
  unfold resume
  split
  case isTrue => exact hc
  case isFalse =>
    split
    case isTrue =>
      dsimp only
      split <;> exact hc
    case isFalse =>
      split
      case isTrue => exact hc
      case isFalse =>
        dsimp only
        split <;> exact hc

theorem closing_of_steps {r : Service → Service → Prop} (hr : ∀ {s s'}, r s s' → Closing s → Closing s')
    (h : Relation.ReflTransGen r s s') (hc : Closing s) : Closing s' := by
  induction h
  case refl         => exact hc
  case tail step ih => exact hr step ih

theorem runGcode_closing (lines : List CString) (hc : Closing s) : Closing (s.runGcode lines).2 := by
  obtain h | ⟨_, h | ⟨active, steps⟩⟩ := @runGcode_steps s lines
  case inl     => rw [h]; exact hc
  case inr.inl => rw [h]; exact hc
  case inr.inr => exact closing_of_steps GcodeStep.closing steps (refreshManualStatus_closing hc)

theorem exec_closing (hc : Closing s) (op : Op) : Closing (s.exec op) := by
  cases op
  case openMotion success => cases success <;> exact hc
  case command cmd env latency =>
    have connected : Closing (s.connect env) := hc
    have dispatched : Closing ((s.connect env).dispatch cmd).2 := by
      cases cmd
      case gcode lines  => exact runGcode_closing lines connected
      case runMacro cmd => exact closing_of_steps MacroStep.closing runMacro_steps connected
      case job cmd      => exact accept_closing cmd connected
      case abort        => exact abort_closing connected
      case pause        => exact pause_closing connected
      case resume       => exact resume_closing connected
      case unknown      => exact connected
    exact dispatched
  case pollMotion env     => exact closing_of_steps PollStep.closing pollMotion_steps (s := s.connect env) hc
  case pollJob env poll   => exact closing_of_steps JobStep.closing pollJob_steps (s := s.connect env) hc
  case refreshDiagnostics => exact hc

theorem accept_trace (cmd : JobCommand) : (s.accept cmd).2.trace = s.trace ∨ ∃ file,
    (s.accept cmd).2.trace = s.trace ++ s.flow.pendingSlots.map .cleared ++ [.jobAccepted (.open file)] := by
  unfold accept
  split
  case isTrue => exact .inl rfl
  case isFalse =>
    split
    case isTrue => exact .inl rfl
    case isFalse =>
      split
      case h_1 => exact .inl rfl
      case h_2 file _ =>
        dsimp only
        split
        case h_1 => exact .inl rfl
        case h_2 =>
          have ⟨timer, total, left, he⟩ :=
            @applyMetadata_eq ({ s with jobStream := .open file }.resetForJob cmd) cmd.printTime
          refine .inr ⟨file, ?_⟩
          unfold startJob
          rw [he]
          rfl

-- A call that neither accepts a job nor ends one.
def Idles (s s' : Service) : Prop :=
  ∃ recorded, s'.trace = s.trace ++ recorded ∧ ∀ e ∈ recorded, ¬e.isAccepted ∧ e ≠ .policyDone .finish

theorem Idles.of_eq (h : s'.trace = s.trace) : Idles s s' :=
  ⟨[], by rw [h, List.append_nil], List.forall_mem_nil _⟩

theorem gcodeSteps_idles (h : GcodeSteps s s') : Idles s s' := by
  induction h
  case refl => exact .of_eq rfl
  case tail step ih =>
    obtain ⟨before, hb, quiet⟩ := ih
    have ⟨recorded, ht, lifecycle⟩ := step.refines
    refine ⟨before ++ recorded, by rw [ht, hb, List.append_assoc], List.forall_mem_append.mpr ⟨quiet, ?_⟩⟩
    refine fun e he => ⟨lifecycle.completes.accepted e he, ?_⟩
    rintro rfl
    cases lifecycle
    case queue h   => exact h.ne_finish _ he rfl
    case wait      => contradiction
    case manual    => contradiction

theorem runGcode_idles (lines : List CString) : Idles s (s.runGcode lines).2 := by
  obtain h | ⟨_, h | ⟨active, steps⟩⟩ := @runGcode_steps s lines
  case inl     => rw [h]; exact .of_eq rfl
  case inr.inl => rw [h]; exact .of_eq rfl
  case inr.inr =>
    obtain ⟨recorded, ht, quiet⟩ := gcodeSteps_idles steps
    exact ⟨recorded, by rw [ht]; exact congrArg (· ++ recorded) trace_refreshManualStatus, quiet⟩

theorem abort_idles : Idles s s.abort.2 := by
  unfold abort
  split
  case isTrue => exact .of_eq rfl
  case isFalse =>
    obtain ⟨events, ht, silent⟩ := @trace_startAbort s
    refine ⟨.aborted :: events, ht, List.forall_mem_cons.mpr ⟨by simp [Event.isAccepted], fun e he => ?_⟩⟩
    exact ⟨not_accepted_of_isSilent (silent e he), Lifecycle.ne_finish_of_isSilent (silent e he)⟩

theorem dispatch_idles {cmd : Command} (hr : ∀ m, cmd ≠ .runMacro m) (hj : ∀ job, cmd ≠ .job job) :
    Idles s (s.dispatch cmd).2 := by
  cases cmd
  case gcode lines => exact runGcode_idles lines
  case runMacro m  => exact absurd rfl (hr m)
  case job job     => exact absurd rfl (hj job)
  case abort       => exact abort_idles
  case pause       => exact .of_eq (congrArg Traffic.trace traffic_pause)
  case resume      => exact .of_eq (congrArg Traffic.trace traffic_resume)
  case unknown     => exact .of_eq rfl

-- Every job that was accepted has its file open.
def AcceptedOpen (s : Service) : Prop :=
  ∀ stream, .jobAccepted stream ∈ s.trace → stream.isOpen

theorem Idles.acceptedOpen (h : Idles s s') (ha : AcceptedOpen s) : AcceptedOpen s' := by
  obtain ⟨recorded, ht, quiet⟩ := h
  intro stream hs
  rw [ht] at hs
  cases List.mem_append.mp hs
  case inl hs => exact ha stream hs
  case inr hs => exact absurd rfl (quiet _ hs).1

theorem Idles.jobWhole (h : Idles s s') (worked : Worked s) (whole : JobWhole s) : JobWhole s' := by
  obtain ⟨recorded, ht, quiet⟩ := h
  exact whole.append worked ht (.of_ne fun e he => (quiet e he).2)

theorem accept_jobWhole (cmd : JobCommand) (worked : Worked s) (whole : JobWhole s) :
    JobWhole (s.accept cmd).2 := by
  obtain ht | ⟨file, ht⟩ := accept_trace (s := s) cmd
  case inl => exact (Idles.of_eq ht).jobWhole worked whole
  case inr =>
    rw [List.append_assoc] at ht
    refine whole.append worked ht (.of_ne (List.forall_mem_append.mpr ⟨?_, by simp⟩))
    exact List.forall_mem_map.mpr (by simp)

theorem Worked.connect (worked : Worked s) {env : SerialEnv} : Worked (s.connect env) := by
  have connected : Entry s (s.connect env) := .silent (.of_view rfl) rfl rfl
  exact ⟨⟨worked.owned.abort, worked.owned.finish⟩, worked.closing, connected.jobHandedOff worked.handed,
    connected.jobRests worked.handed worked.rests⟩

theorem dispatch_jobWhole (cmd : Command) (worked : Worked s) (whole : JobWhole s) :
    JobWhole (s.dispatch cmd).2 := by
  cases cmd
  case job cmd => exact accept_jobWhole cmd worked whole
  case runMacro cmd =>
    exact (Tracked.steps MacroStep.refines Lifecycle.MacroStep.jobChange Lifecycle.MacroStep.finishes
      MacroStep.entries MacroStep.closing runMacro_steps ⟨worked, whole⟩).whole
  all_goals exact (dispatch_idles (by simp) (by simp)).jobWhole worked whole

theorem exec_jobWhole (worked : Worked s) (whole : JobWhole s) (op : Op) : JobWhole (s.exec op) := by
  cases op
  case openMotion success =>
    have idle : Idles s (s.openMotion success) := .of_eq (by cases success <;> rfl)
    exact idle.jobWhole worked whole
  case command cmd env latency => exact dispatch_jobWhole cmd worked.connect whole
  case pollMotion env =>
    exact (Tracked.steps PollStep.refines Lifecycle.PollStep.jobChange Lifecycle.PollStep.finishes
      PollStep.entries PollStep.closing pollMotion_steps
      ⟨worked.connect, whole⟩).whole
  case pollJob env poll =>
    exact (Tracked.steps JobStep.refines Lifecycle.JobStep.jobChange Lifecycle.JobStep.finishes
      JobStep.entries JobStep.closing pollJob_steps ⟨worked.connect, whole⟩).whole
  case refreshDiagnostics => exact whole

theorem run_closing {ops : List Op} : Closing (init.run ops) := by
  induction ops using List.reverseRec
  case nil => exact (absurd · Bool.false_ne_true)
  case append_singleton ops op ih =>
    rw [run, List.foldl_append]
    exact exec_closing ih op

theorem run_worked {ops : List Op} : Worked (init.run ops) := by
  have idle : JobHandedOff init ∧ JobRests init := by simp [JobHandedOff, JobRests, init, jobRecord]
  have job : JobHandedOff (init.run ops) ∧ JobRests (init.run ops) := run_entries
    (p := fun s => JobHandedOff s ∧ JobRests s)
    (fun {_ _} entry h => ⟨entry.jobHandedOff h.1, entry.jobRests h.1 h.2⟩) idle
  exact ⟨⟨run_abortWithoutJob, run_finishWithJob⟩, run_closing, job.1, job.2⟩

theorem run_jobWhole {ops : List Op} : JobWhole (init.run ops) := by
  induction ops using List.reverseRec
  case nil => exact preceded_nil
  case append_singleton ops op ih =>
    rw [run, List.foldl_append]
    exact exec_jobWhole run_worked ih op

theorem acceptedOpen_of_steps {r : Service → Service → Prop} {step : Lifecycle → List Event → Lifecycle → Prop}
    (hr : ∀ {s s'}, r s s' → Refines step s s')
    (hcomplete : ∀ {l recorded l'}, step l recorded l' → Lifecycle.Completes l recorded l')
    (h : Relation.ReflTransGen r s s') (ha : AcceptedOpen s) : AcceptedOpen s' := by
  induction h
  case refl => exact ha
  case tail step ih =>
    have ⟨recorded, ht, lifecycle⟩ := hr step
    intro stream hs
    rw [ht] at hs
    cases List.mem_append.mp hs
    case inl hs => exact ih stream hs
    case inr hs => exact absurd rfl ((hcomplete lifecycle).accepted _ hs)

theorem accept_acceptedOpen (cmd : JobCommand) (ha : AcceptedOpen s) : AcceptedOpen (s.accept cmd).2 := by
  obtain ht | ⟨file, ht⟩ := accept_trace (s := s) cmd
  case inl => rw [AcceptedOpen, ht]; exact ha
  case inr =>
    intro stream hs
    rw [ht, List.mem_append, List.mem_append] at hs
    obtain (hs | hs) | hs := hs
    case inl.inl => exact ha stream hs
    case inl.inr =>
      obtain ⟨i, _, he⟩ := List.mem_map.mp hs
      contradiction
    case inr =>
      cases List.mem_singleton.mp hs
      rfl

theorem exec_acceptedOpen (ha : AcceptedOpen s) (op : Op) : AcceptedOpen (s.exec op) := by
  cases op
  case openMotion success =>
    have idle : Idles s (s.openMotion success) := .of_eq (by cases success <;> rfl)
    exact idle.acceptedOpen ha
  case command cmd env latency =>
    have connected : AcceptedOpen (s.connect env) := ha
    have dispatched : AcceptedOpen ((s.connect env).dispatch cmd).2 := by
      cases cmd
      case job cmd => exact accept_acceptedOpen cmd connected
      case runMacro cmd =>
        exact acceptedOpen_of_steps MacroStep.refines Lifecycle.MacroStep.completes runMacro_steps connected
      all_goals exact (dispatch_idles (by simp) (by simp)).acceptedOpen connected
    exact dispatched
  case pollMotion env =>
    exact acceptedOpen_of_steps (s := s.connect env) PollStep.refines Lifecycle.PollStep.completes
      pollMotion_steps ha
  case pollJob env poll =>
    exact acceptedOpen_of_steps (s := s.connect env) JobStep.refines Lifecycle.JobStep.completes
      pollJob_steps ha
  case refreshDiagnostics => exact ha

theorem run_acceptedOpen {ops : List Op} : AcceptedOpen (init.run ops) := by
  induction ops using List.reverseRec
  case nil => exact fun _ h => absurd h List.not_mem_nil
  case append_singleton ops op ih =>
    rw [run, List.foldl_append]
    exact exec_acceptedOpen ih op

-- When a job is complete, and none of its writes failed, the streamer has handed over the home, prime and
-- startup commands and every output of the job file up to its end, in this order.
theorem complete_whole {ops : List Op} (h : (init.run ops).status.state = .complete) :
    ∃ before stream events after,
      (init.run ops).trace = before ++ .jobAccepted stream :: (events ++ .policyDone .finish :: after) ∧
      (∀ e ∈ events ++ after, ¬e.isAccepted) ∧
      ((∀ e ∈ events, ¬e.isWriteFailed) → ∃ lines stream' buffer, stream.Emits lines stream' ∧
        (stream'.next buffer).1 = 0 ∧ marks events = stream.plan lines) := by
  obtain ⟨job, hj, hd⟩ := run_finished h
  obtain ⟨before, hs, hn⟩ := jobRecord_split hj
  obtain ⟨events, after, he⟩ := List.append_of_mem hd
  have opened : job.stream.isOpen := run_acceptedOpen _ (hs ▸ List.mem_append_right _ List.mem_cons_self)
  refine ⟨before, job.stream, events, after, by rw [hs, he], ?_, ?_⟩
  case refine_1 =>
    intro e hm
    refine hn e ?_
    rw [he]
    cases List.mem_append.mp hm
    case inl hm => exact List.mem_append_left _ hm
    case inr hm => exact List.mem_append_right _ (List.mem_cons_of_mem _ hm)
  case refine_2 =>
    have past : jobRecord (before ++ .jobAccepted job.stream :: events) =
        some { stream := job.stream, events := events } :=
      jobRecord_since fun e hm => hn e (he ▸ List.mem_append_left _ hm)
    have whole : (init.run ops).trace =
        (before ++ .jobAccepted job.stream :: events) ++ .policyDone .finish :: after := by
      rw [hs, he, List.append_assoc, List.cons_append]
    exact run_jobWhole _ _ _ whole rfl _ past opened

def acknowledgedJob : List Op :=
  coldJob ++ (List.replicate 18 [.pollJob {} {}, .pollMotion (.ofLines ["ok", "ok", "ok", "ok"])]).flatten

theorem acknowledgedJob_whole : (init.run acknowledgedJob).status.state = .complete ∧
    ∃ before stream events after, (init.run acknowledgedJob).trace =
        before ++ .jobAccepted stream :: (events ++ .policyDone .finish :: after) ∧
      (∀ e ∈ events ++ after, ¬e.isAccepted) ∧
      ((∀ e ∈ events, ¬e.isWriteFailed) → ∃ lines stream' buffer, stream.Emits lines stream' ∧
        (stream'.next buffer).1 = 0 ∧ marks events = stream.plan lines) := by
  have complete : (init.run acknowledgedJob).status.state = .complete := by decide +kernel
  exact ⟨complete, complete_whole complete⟩

end Commands

end Service
end Deneb
