import DenebModel.Execution.Theorems.Held
import Mathlib.Data.List.Induction

namespace Deneb

open CString BinaryFloat Relation

-- Events that say nothing about the commands of a job and the slots of the flow control.
def Event.isNote : Event → Bool
  | writeFailed | line _ | aborted | policyFailed _ => true
  | policyDone kind                                 => kind ≠ .finish
  | _                                               => false

def Event.isAccepted : Event → Bool
  | jobAccepted _ => true
  | _             => false

-- The job that was accepted last, and what is recorded since.
structure JobRecord where
  stream : GcodeStream
  events : List Event

def JobRecord.append (job : JobRecord) (events : List Event) : JobRecord :=
  { job with events := job.events ++ events }

def JobRecord.enter (job : Option JobRecord) : Event → Option JobRecord
  | .jobAccepted stream => some { stream := stream, events := [] }
  | e                   => job.map (·.append [e])

def jobRecord (events : List Event) : Option JobRecord :=
  events.foldl JobRecord.enter none

section Record

variable {events events' before : List Event} {stream : GcodeStream}

theorem JobRecord.foldl_enter {job : Option JobRecord} (h : ∀ e ∈ events, ¬e.isAccepted) :
    events.foldl enter job = job.map (·.append events) := by
  induction events generalizing job
  case nil => cases job <;> simp [append]
  case cons e events ih =>
    have ⟨he, hs⟩ := List.forall_mem_cons.mp h
    have entered : enter job e = job.map (·.append [e]) := by
      cases e
      case jobAccepted => exact absurd rfl he
      all_goals rfl
    rw [List.foldl_cons, ih hs, entered]
    cases job <;> simp [append]

theorem jobRecord_append (h : ∀ e ∈ events', ¬e.isAccepted) :
    jobRecord (events ++ events') = (jobRecord events).map (·.append events') := by
  rw [jobRecord, List.foldl_append, JobRecord.foldl_enter h]
  rfl

theorem jobRecord_accepted :
    jobRecord (events ++ [.jobAccepted stream]) = some { stream := stream, events := [] } := by
  rw [jobRecord, List.foldl_append]
  rfl

theorem jobRecord_since (h : ∀ e ∈ events, ¬e.isAccepted) :
    jobRecord (before ++ .jobAccepted stream :: events) =
      some { stream := stream, events := events } := by
  have : before ++ .jobAccepted stream :: events = (before ++ [.jobAccepted stream]) ++ events := by
    simp
  rw [this, jobRecord_append h, jobRecord_accepted]
  rfl

-- The record begins with the job that was accepted last.
theorem jobRecord_split {job : JobRecord} (h : jobRecord events = some job) :
    ∃ before, events = before ++ .jobAccepted job.stream :: job.events ∧
      ∀ e ∈ job.events, ¬e.isAccepted := by
  induction events using List.reverseRec generalizing job
  case nil => contradiction
  case append_singleton events e ih =>
    by_cases he : e.isAccepted
    case pos =>
      cases e
      case jobAccepted =>
        rw [jobRecord_accepted] at h
        cases h
        exact ⟨events, rfl, (List.forall_mem_nil _)⟩
      all_goals contradiction
    case neg =>
      rw [jobRecord_append (by simpa using he)] at h
      obtain ⟨job, hjob, rfl⟩ := Option.map_eq_some_iff.mp h
      have ⟨before, hs, hn⟩ := ih hjob
      refine ⟨before, by simp [hs, JobRecord.append], fun e' he' => ?_⟩
      cases List.mem_append.mp he'
      case inl he' => exact hn e' he'
      case inr he' => rwa [List.mem_singleton.mp he']

theorem not_accepted_of_unsent {job : Bool} {p : Producer} {command : CString}
    (h : Lifecycle.Unsent job p command events) : ∀ e ∈ events, ¬e.isAccepted := by
  cases h <;> simp [Event.isAccepted]

theorem not_accepted_of_isSilent {e : Event} (h : e.isSilent) : ¬e.isAccepted := by
  cases e
  case jobAccepted => contradiction
  all_goals exact Bool.false_ne_true

theorem not_accepted_of_stream {l l' : Lifecycle} (h : l.StreamStep events l') :
    ∀ e ∈ events, ¬e.isAccepted := by
  cases h
  case prepare     => simp [Event.isAccepted]
  case prepareFail unsent => exact not_accepted_of_unsent unsent
  case stage hs    => exact fun e he => not_accepted_of_isSilent (hs e he)
  case readFail hs => exact fun e he => not_accepted_of_isSilent (hs e he)
  case finish      => exact List.forall_mem_nil _
  case stream      => simp [Event.isAccepted]
  case streamFail hs unsent =>
    intro e he
    cases List.mem_append.mp he
    case inl he => exact not_accepted_of_unsent unsent e he
    case inr he => exact not_accepted_of_isSilent (hs e he)

end Record

namespace Service

-- The part of the service that the job streamer works on.
structure JobView where
  active       : Bool
  stage        : PrepareStage
  prepareIndex : Nat
  startupIndex : Nat
  stream       : GcodeStream

def jobView (s : Service) : JobView where
  active       := s.jobActive
  stage        := s.jobPrepareStage
  prepareIndex := s.jobPrepareIndex
  startupIndex := s.jobStartupIndex
  stream       := s.jobStream

-- An active job stays as it is.
structure SameJob (s s' : Service) : Prop where
  active : s'.jobActive = s.jobActive
  view   : s.jobActive → s'.jobView = s.jobView

def SamePending (s s' : Service) : Prop :=
  ∀ i, (s'.flow.slot i).pending = (s.flow.slot i).pending

def NonePending (s : Service) : Prop :=
  ∀ i, ¬(s.flow.slot i).pending

-- What can happen to the job, the slots of the flow control and the record, one at a time.
inductive Entry : Service → Service → Prop
  | note (events) :
    SameJob s s' → SamePending s s' → s'.trace = s.trace ++ events → (∀ e ∈ events, e.isNote) →
    Entry s s'
  -- The job ends.
  | stop (events) :
    ¬s'.jobActive → SamePending s s' → s'.trace = s.trace ++ events → (∀ e ∈ events, e.isNote) →
    Entry s s'
  -- A producer other than the streamer hands over a command.
  | hand (producer command i) :
    producer ≠ .streamer → SameJob s s' → TakesSlot s.flow i s'.flow →
    s'.trace = s.trace ++ [.handed producer command i s.jobActive] → Entry s s'
  -- Pending packets are acknowledged or dropped by a resync.
  | drop (slots : List Nat) (event : Nat → Event) :
    event = .acknowledged ∨ event = .resynced → SameJob s s' →
    (∀ i, (s'.flow.slot i).pending ↔ (s.flow.slot i).pending ∧ i ∉ slots) →
    s'.trace = s.trace ++ slots.map event → Entry s s'
  -- The pending packets are dropped when there is no job.
  | clear :
    ¬s.jobActive → ¬s'.jobActive → NonePending s' →
    s'.trace = s.trace ++ s.flow.pendingSlots.map .cleared → Entry s s'
  | finish :
    NonePending s → s.jobActive → ¬s'.jobActive → SamePending s s' → s'.trace = s.trace ++ [.policyDone .finish] →
    Entry s s'
  | stream : Streams s → StreamStep s s' → Entry s s'
  | accept :
    SamePending s s' → s'.jobActive → s'.jobPrepareStage = .home → s'.jobPrepareIndex = 0 →
    s'.jobStartupIndex = 0 → s'.trace = s.trace ++ [.jobAccepted s'.jobStream] → Entry s s'

abbrev Entries : Service → Service → Prop :=
  ReflTransGen Entry

-- An abort cleanup comes after the job, and a finish cleanup belongs to it.
structure Owned (s : Service) : Prop where
  abort  : s.lifecycle.AbortWithoutJob
  finish : s.lifecycle.FinishWithJob

variable {s s' s₁ : Service} {p : Producer} {command : CString} {rc : Int} {kind : PolicyKind}

section Notes

theorem SameJob.of_view (h : s'.jobView = s.jobView) : SameJob s s' :=
  ⟨congrArg JobView.active h, fun _ => h⟩

theorem SameJob.kept (h : SameJob s s') (hj : s'.jobActive) :
    s.jobActive ∧ s'.jobView = s.jobView := by
  have hs : s.jobActive := by rw [← h.active]; exact hj
  exact ⟨hs, h.view hs⟩

theorem NonePending.of_inflight (h : s.flow.inflight = 0) : NonePending s := by
  intro i hp
  by_cases hi : i < s.flow.slots.length
  case pos =>
    have none := List.countP_eq_zero.mp h
    rw [FlowControl.slot_eq_getElem hi] at hp
    exact none _ (List.getElem_mem hi) hp
  case neg =>
    rw [FlowControl.slot_of_le (s.flow.slots_length ▸ Nat.not_lt.mp hi)] at hp
    contradiction

theorem mem_pendingSlots {flow : FlowControl} {i : Nat} :
    i ∈ flow.pendingSlots ↔ (flow.slot i).pending := by
  simp only [FlowControl.pendingSlots, List.mem_filter, List.mem_range, and_iff_right_iff_imp]
  intro hp
  by_contra hi
  rw [FlowControl.slot_of_le (Nat.not_lt.mp hi)] at hp
  contradiction

theorem nonePending_clear (h : s.flow.slots = List.replicate flowWindow {}) : NonePending s := by
  intro i
  have : s.flow.slot i = ({} : FlowControl).clearInflight.slot i := by
    simp [FlowControl.slot, h, FlowControl.clearInflight]
  rw [this, FlowControl.slot_clearInflight]
  exact Bool.false_ne_true

-- A step that changes neither the job nor the flow control and records nothing.
theorem Entry.silent (job : SameJob s s') (flow : s'.flow = s.flow) (trace : s'.trace = s.trace) :
    Entry s s' :=
  .note [] job (fun _ => by rw [flow]) (by rw [trace, List.append_nil])
    (List.forall_mem_nil _)

theorem send_entries (h : s.send p command = (rc, s₁)) (hp : p ≠ .streamer) : Entries s s₁ := by
  by_cases hz : rc = 0
  case pos =>
    cases hz
    have ⟨flow, serial, i, he, takes⟩ := send_ok h
    rw [he]
    exact .single (.hand p command i hp (.of_view rfl) takes rfl)
  case neg =>
    by_cases hf : rc = MotionSender.flowFull
    case pos =>
      cases hf
      rw [send_of_flowFull h]
    case neg =>
      obtain ⟨flow, serial, events, he, ⟨rfl, _, hs⟩ | ⟨i, rfl, takes⟩⟩ := send_fail h hz hf
      case inl =>
        rw [he]
        refine .single (.note [] (.of_view rfl) (fun i => ?_) rfl (List.forall_mem_nil _))
        rw [FlowControl.slot_of_slots_eq hs]
      case inr =>
        have first : Entry s { s with
            flow  := flow
            trace := s.trace ++ [.handed p command i s.jobActive] } :=
          .hand p command i hp (.of_view rfl) takes rfl
        refine .head first (.single (.note [.writeFailed] ?_ (fun i => ?_) ?_ (by simp [Event.isNote])))
        case refine_1 => rw [he]; exact .of_view rfl
        case refine_2 => rw [he]
        case refine_3 => rw [he]; simp

theorem attempt_entries (hp : p ≠ .streamer) : Entries s (s.send p command).2 :=
  have sent : s.send p command = ((s.send p command).1, (s.send p command).2) := rfl
  send_entries sent hp

end Notes

section Steps

theorem sameJob_setPolicy {run : PolicyRun} : SameJob s (s.setPolicy kind run) := by
  cases kind <;> exact .of_view rfl

theorem flow_setPolicy {run : PolicyRun} : (s.setPolicy kind run).flow = s.flow := by
  cases kind <;> rfl

theorem Entry.setPolicy {run : PolicyRun} : Entry s (s.setPolicy kind run) :=
  .silent sameJob_setPolicy flow_setPolicy trace_setPolicy

theorem failPolicy_entry : Entry s (s.failPolicy kind rc) := by
  refine .note [.policyFailed kind] ?_ (fun i => ?_) trace_failPolicy (by simp [Event.isNote])
  case refine_1 => cases kind <;> exact .of_view rfl
  case refine_2 => cases kind <;> rfl

theorem completePolicy_entries (ha : s.Owned) (hp : (s.policy kind).pending)
    (hi : s.flow.inflight = 0) : Entries s (s.completePolicy kind) := by
  cases kind
  case abort =>
    have hj := ha.abort hp
    have noted : Entry s ((s.stopPolicy .abort).record [.policyDone .abort]) :=
      .note [.policyDone .abort] (.of_view rfl) (fun _ => rfl) rfl (by simp [Event.isNote])
    exact .head noted (.single (.clear hj hj (nonePending_clear rfl) rfl))
  case finish =>
    have done : Entry s { (s.stopPolicy .finish).record [.policyDone .finish] with
        jobActive := false } :=
      .finish (.of_inflight hi) (ha.finish hp) Bool.false_ne_true (fun _ => rfl) rfl
    exact .head done (.single (.clear Bool.false_ne_true Bool.false_ne_true (nonePending_clear rfl) rfl))
  case pause =>
    exact .single (.note [.policyDone .pause] (.of_view rfl) (fun _ => rfl) rfl (by simp [Event.isNote]))
  case resume =>
    exact .single (.note [.policyDone .resume] (.of_view rfl) (fun _ => rfl) rfl (by simp [Event.isNote]))

theorem PolicyStep.entries (h : PolicyStep s s') (ha : s.Owned) : Entries s s' := by
  have wait {s : Service} : Entry s s.clearWait := .silent (.of_view rfl) rfl rfl
  cases h
  case send h                  => exact (send_entries h nofun).tail .setPolicy
  case fail h                  => exact (send_entries h nofun).tail failPolicy_entry
  case done kind hp _ _ hi     => exact completePolicy_entries ha hp hi
  case heat h                  => exact (send_entries h nofun).tail (.silent (.of_view rfl) rfl rfl)
  case heatFail h =>
    refine (send_entries h nofun).tail (.note [.policyFailed .resume] (.of_view rfl) (fun _ => rfl) rfl ?_)
    simp [Event.isNote]
  case leftover h              => exact .head wait ((send_entries h nofun).tail .setPolicy)
  case leftoverFail h          => exact .head wait ((send_entries h nofun).tail failPolicy_entry)
  case probe h                 => exact (send_entries h nofun).tail (.silent (.of_view rfl) rfl rfl)
  case probeFail h             => exact (send_entries h nofun).tail (.silent (.of_view rfl) rfl rfl)
  case probed =>
    refine .single (.silent ?_ ?_ trace_endPauseProbe)
    all_goals
      unfold endPauseProbe beginPauseCleanupFromCurrentPosition
      dsimp only
      split
    case refine_1.isTrue | refine_1.isFalse => exact .of_view rfl
    case refine_2.isTrue | refine_2.isFalse => rfl

theorem handleLine_entries {line : CString} : Entries s (s.handleLine line).2 := by
  have ht : (s.handleLine line).2.trace = s.trace ++ .line line ::
      (acknowledgedSlots s.flow (s.handleLine line).2.flow).map .acknowledged := rfl
  have hv : (s.handleLine line).2.jobView = s.jobView := rfl
  have mono : ∀ i, ((s.handleLine line).2.flow.slot i).pending → (s.flow.slot i).pending :=
    fun _ h => FlowControl.pending_handleResponse h
  generalize (s.handleLine line).2 = s₁ at ht hv mono
  have noted : Entry s { s₁ with flow := s.flow, trace := s.trace ++ [.line line] } :=
    .note [.line line] (.of_view hv) (fun _ => rfl) rfl (by simp [Event.isNote])
  refine .head noted (.single (.drop (acknowledgedSlots s.flow s₁.flow) .acknowledged (.inl rfl)
    (.of_view rfl) (fun i => ?_) ?_))
  case refine_1 =>
    simp only [acknowledgedSlots, List.mem_filter, mem_pendingSlots, Bool.not_eq_true',
      not_and, Bool.not_eq_false]
    exact ⟨fun h => ⟨mono i h, fun _ => h⟩, fun ⟨h, h'⟩ => h' h⟩
  case refine_2 => rw [ht, List.append_assoc]; rfl

theorem RuntimeStep.entries (h : RuntimeStep s s') : Entries s s' := by
  cases h
  case line => exact handleLine_entries
  case resync =>
    refine .single (.drop s.flow.pendingSlots .resynced (.inr rfl) (.of_view rfl) (fun i => ?_) rfl)
    have none : NonePending s.resyncToExpected := nonePending_clear rfl
    simp [mem_pendingSlots, none i]
  case error => exact .single (.silent (.of_view rfl) rfl rfl)

theorem refreshManualStatus_entry : Entry s s.refreshManualStatus := by
  refine .silent ?_ ?_ trace_refreshManualStatus
  all_goals
    unfold refreshManualStatus
    split
  case refine_1.isTrue => exact .of_view rfl
  case refine_2.isTrue => rfl
  all_goals split
  case refine_1.isFalse.isTrue | refine_1.isFalse.isFalse => exact .of_view rfl
  case refine_2.isFalse.isTrue | refine_2.isFalse.isFalse => rfl

theorem MotionStep.entries (h : MotionStep s s') (ha : s.Owned) :
    Entries s s' := by
  cases h
  case quiet h               => cases h <;> exact .single (.silent (.of_view rfl) rfl rfl)
  case policy h              => exact h.entries ha
  case manualStatus          => exact .single refreshManualStatus_entry
  case statusProbe command _ => exact attempt_entries nofun
  case applyWait             => exact .single (.silent (.of_view rfl) rfl rfl)
  case waitOver              => exact .single (.silent (.of_view rfl) rfl rfl)

theorem startAbort_entries : Entries s s.startAbort := by
  unfold startAbort
  dsimp only
  split
  case isTrue =>
    exact .single (.stop [.aborted] Bool.false_ne_true (fun _ => rfl) rfl (by simp [Event.isNote]))
  case isFalse =>
    have stopped : Entry s { s with jobActive := false, trace := s.trace ++ [.aborted] } :=
      .stop [.aborted] Bool.false_ne_true (fun _ => rfl) rfl (by simp [Event.isNote])
    exact .head stopped (.single (.clear Bool.false_ne_true Bool.false_ne_true
      (nonePending_clear rfl) rfl))

theorem PollStep.entries (h : PollStep s s') (ha : s.Owned) : Entries s s' := by
  cases h
  case motion h  => exact h.entries ha
  case runtime h => exact h.entries
  case abort     => exact startAbort_entries
  case dropAbort => exact .single (.silent (.of_view rfl) rfl rfl)

theorem QueueStep.entries (h : QueueStep s s') : Entries s s' := by
  cases h
  case send h =>
    refine (send_entries h nofun).tail (.silent ?_ ?_ trace_advanceQueue)
    all_goals
      unfold advanceQueue
      dsimp only
      split
    case refine_1.isTrue => exact .of_view rfl
    case refine_2.isTrue => rfl
    all_goals split
    case refine_1.isFalse.isTrue | refine_1.isFalse.isFalse => exact .of_view rfl
    case refine_2.isFalse.isTrue | refine_2.isFalse.isFalse => rfl
  case fail h => exact (send_entries h nofun).tail (.silent (.of_view rfl) rfl rfl)
  case done   => exact .single (.silent (.of_view rfl) rfl rfl)

theorem endJob_entries : Entries s s.endJob.resetPrepare := by
  have stopped : Entry s { s with
      jobActive := false
      trace     := s.trace ++ if s.finishCleanup.pending then [.policyFailed .finish] else [] } := by
    refine .stop _ Bool.false_ne_true (fun _ => rfl) rfl ?_
    split <;> simp [Event.isNote]
  exact .head stopped (.single (.clear Bool.false_ne_true Bool.false_ne_true
    (nonePending_clear rfl) rfl))

theorem JobStep.entries (h : JobStep s s') (ha : s.Owned) : Entries s s' := by
  cases h
  case poll h      => exact h.entries ha
  case dropWait    => exact .single (.silent (.of_view rfl) rfl rfl)
  case queue h     => exact h.entries
  case errorExit   => exact endJob_entries
  case streaming   => exact .single (.silent (.of_view rfl) rfl rfl)
  case stream hs h => exact .single (.stream hs h)

theorem GcodeStep.entries (h : GcodeStep s s') : Entries s s' := by
  cases h
  case queue h      => exact h.entries
  case applyWait    => exact .single (.silent (.of_view rfl) rfl rfl)
  case waitOver     => exact .single (.silent (.of_view rfl) rfl rfl)
  case manualStatus => exact .single refreshManualStatus_entry

theorem MacroStep.entries {cmd : MacroCommand} (h : MacroStep cmd s s')
    (ha : s.Owned) : Entries s s' := by
  cases h
  case poll h    => exact h.entries ha
  case send line => exact attempt_entries nofun
  case startWait =>
    unfold startMacroWait
    dsimp only
    split <;> exact .single (.silent (.of_view rfl) rfl rfl)
  case fail      => exact .single (.silent (.of_view rfl) rfl rfl)

-- The entries of a call, made of those of its steps.
theorem entries_of_steps {r : Service → Service → Prop}
    {step : Lifecycle → List Event → Lifecycle → Prop}
    (hr : ∀ {s s'}, r s s' → Refines step s s')
    (hchange : ∀ {l recorded l'}, step l recorded l' → Lifecycle.JobChange l l')
    (hentry : ∀ {s s'}, r s s' → s.Owned → Entries s s')
    (ha : s.Owned) (h : ReflTransGen r s s') : Entries s s' := by
  suffices Entries s s' ∧ s'.Owned from this.1
  induction h
  case refl => exact ⟨.refl, ha⟩
  case tail step ih =>
    have ⟨_, _, lifecycle⟩ := hr step
    have change := hchange lifecycle
    exact ⟨ih.1.trans (hentry step ih.2),
      change.abortWithoutJob ih.2.abort, change.finishWithJob ih.2.finish⟩

end Steps

section Commands

-- Without a job its stream may change.
theorem Entry.idle (hj : ¬s.jobActive) (active : s'.jobActive = s.jobActive)
    (flow : s'.flow = s.flow) (trace : s'.trace = s.trace) : Entry s s' :=
  .silent ⟨active, fun h => absurd h hj⟩ flow trace

theorem startJob_entries (cmd : JobCommand) (hj : ¬s.jobActive) : Entries s (s.startJob cmd) := by
  have cleared : Entry s s.clearInflight := .clear hj hj (nonePending_clear rfl) rfl
  have ⟨timer, total, left, he⟩ := @applyMetadata_eq (s.resetForJob cmd) cmd.printTime
  unfold startJob
  rw [he]
  exact .head cleared (.single (.accept (fun _ => rfl) rfl rfl rfl rfl rfl))

theorem accept_entries (cmd : JobCommand) : Entries s (s.accept cmd).2 := by
  unfold accept
  split
  case isTrue => exact .refl
  case isFalse =>
    split
    case isTrue => exact .refl
    case isFalse hb =>
      have hj : ¬s.jobActive := fun h => hb (by simp [jobBusy, h])
      split
      case h_1 => exact .single (.idle hj rfl rfl rfl)
      case h_2 file _ =>
        dsimp only
        have opened : Entry s { s with jobStream := .open file } := .idle hj rfl rfl rfl
        split
        case h_1 => exact .single (.idle hj rfl rfl rfl)
        case h_2 => exact .head opened (startJob_entries cmd hj)

theorem abort_entries : Entries s s.abort.2 := by
  unfold abort
  split
  case isTrue  => exact .single (.silent (.of_view rfl) rfl rfl)
  case isFalse => exact startAbort_entries

theorem pause_entry : Entry s s.pause.2 := by
  unfold pause
  split
  case isTrue => exact .silent (.of_view rfl) rfl rfl
  case isFalse =>
    split
    case isTrue => exact .silent (.of_view rfl) rfl rfl
    case isFalse =>
      obtain hp | ⟨_, rc, hrc, hp⟩ := pause_cases s.status
      case inl =>
        simp only [hp]
        exact .silent (.of_view rfl) rfl rfl
      case inr =>
        simp only [hp, if_neg (Int.not_lt.mpr hrc)]
        split <;> exact .silent (.of_view rfl) rfl rfl

theorem resume_entry : Entry s s.resume.2 := by
  unfold resume
  split
  case isTrue => exact .silent (.of_view rfl) rfl rfl
  case isFalse =>
    split
    case isTrue =>
      dsimp only
      split <;> exact .silent (.of_view rfl) rfl rfl
    case isFalse =>
      split
      case isTrue => exact .silent (.of_view rfl) rfl rfl
      case isFalse =>
        dsimp only
        split <;> exact .silent (.of_view rfl) rfl rfl

theorem gcodeSteps_entries (h : GcodeSteps s s') : Entries s s' := by
  induction h
  case refl         => exact .refl
  case tail step ih => exact ih.trans step.entries

theorem enqueued_entries (queue : List GcodeQueueEntry) : Entries s (s.enqueued queue) := by
  have applied {s : Service} : Entries s s.applyQueuedHeaterTargets := by
    unfold applyQueuedHeaterTargets
    generalize s.gcodeQueue.foldl _ s.status = status
    have set : Entries s { s with status := status } := .single (.silent (.of_view rfl) rfl rfl)
    exact set.tail refreshManualStatus_entry
  have set : Entry s { s.clearQueue with gcodeQueue := queue } := .silent (.of_view rfl) rfl rfl
  exact .head set applied

theorem runGcode_entries (lines : List CString) : Entries s (s.runGcode lines).2 := by
  have cleared : Entry s s.clearQueue := .silent (.of_view rfl) rfl rfl
  obtain h | ⟨_, h | ⟨active, steps⟩⟩ := @runGcode_steps s lines
  case inl     => rw [h]
  case inr.inl => rw [h]; exact .single cleared
  case inr.inr =>
    have activated {s : Service} : Entry s { s with gcodeQueueActive := active } :=
      .silent (.of_view rfl) rfl rfl
    exact (enqueued_entries _).trans (.head activated (gcodeSteps_entries steps))

theorem exec_entries (ha : s.Owned) (op : Op) : Entries s (s.exec op) := by
  have connected {env : SerialEnv} : Entry s (s.connect env) := .silent (.of_view rfl) rfl rfl
  have owned {env : SerialEnv} : (s.connect env).Owned := ⟨ha.abort, ha.finish⟩
  cases op
  case openMotion success =>
    cases success <;> exact .single (.silent (.of_view rfl) rfl rfl)
  case command cmd env latency =>
    have dispatched : Entries (s.connect env) ((s.connect env).dispatch cmd).2 := by
      cases cmd
      case gcode lines  => exact runGcode_entries lines
      case runMacro cmd =>
        exact entries_of_steps MacroStep.refines Lifecycle.MacroStep.jobChange
          MacroStep.entries owned runMacro_steps
      case job cmd      => exact accept_entries cmd
      case abort        => exact abort_entries
      case pause        => exact .single pause_entry
      case resume       => exact .single resume_entry
      case unknown      => exact .refl
    exact .head connected (dispatched.tail (.silent (.of_view rfl) rfl rfl))
  case pollMotion env =>
    exact .head connected (entries_of_steps PollStep.refines Lifecycle.PollStep.jobChange
      PollStep.entries owned pollMotion_steps)
  case pollJob env poll =>
    exact .head connected (entries_of_steps JobStep.refines Lifecycle.JobStep.jobChange
      JobStep.entries owned pollJob_steps)
  case refreshDiagnostics => exact .single (.silent (.of_view rfl) rfl rfl)

theorem Entries.keeps {p : Service → Prop} (hstep : ∀ {s s'}, Entry s s' → p s → p s')
    (h : Entries s s') (hp : p s) : p s' := by
  induction h
  case refl         => exact hp
  case tail step ih => exact hstep step ih

-- A property that every entry keeps holds in every run.
theorem run_entries {p : Service → Prop} (hstep : ∀ {s s'}, Entry s s' → p s → p s')
    (hp : p init) {ops : List Op} : p (init.run ops) := by
  induction ops using List.reverseRec
  case nil => exact hp
  case append_singleton ops op ih =>
    rw [run, List.foldl_append]
    exact (exec_entries ⟨run_abortWithoutJob, run_finishWithJob⟩ op).keeps hstep ih

end Commands

end Service

end Deneb
