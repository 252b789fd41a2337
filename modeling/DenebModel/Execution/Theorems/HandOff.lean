import DenebModel.Execution.Theorems.Ledger

namespace Deneb

open CString Labelled

def Event.isWriteFailed : Event → Bool
  | writeFailed => true
  | _           => false

-- What the job streamer does, as far as it is recorded: it hands over a command, or it finds (`none`)
-- that nothing is in flight at the end of a prepare stage.
def Event.mark : Event → Option (Option CString)
  | handed .streamer command _ _ => some (some command)
  | drained                      => some none
  | _                            => none

def marks (events : List Event) : List (Option CString) :=
  events.filterMap Event.mark

namespace GcodeStream

-- The commands between the home commands and those of the file.
def startup (stream : GcodeStream) : List CString :=
  (if stream.hasPrimeCmd then [] else Service.primeFilamentCommands) ++ Service.startupCommands

-- What the streamer has done when it has handed over the lines of the file.
def plan (stream : GcodeStream) (lines : List CString) : List (Option CString) :=
  Service.prepareHomeCommands.map some ++ none :: (stream.startup.map some ++ none :: lines.map some)

-- A prefix of what is to be done for the job, for some successive outputs of its file.
def Planned (stream : GcodeStream) (done : List (Option CString)) : Prop :=
  ∃ lines stream', stream.Emits lines stream' ∧ done <+: stream.plan lines

end GcodeStream

namespace Service

-- What was done for the job when its streamer is at some place.
def JobView.Progress (view : JobView) (stream : GcodeStream) (done : List (Option CString)) : Prop :=
  match view.stage with
  | .home =>
    view.stream = stream ∧ view.startupIndex = 0 ∧
      done = (prepareHomeCommands.take view.prepareIndex).map some
  | .homeDrain =>
    view.stream = stream ∧ view.startupIndex = 0 ∧ done = prepareHomeCommands.map some
  | .heat =>
    view.stream = stream ∧ view.startupIndex = 0 ∧ done = prepareHomeCommands.map some ++ [none]
  | .startup =>
    view.stream = stream ∧
      done = prepareHomeCommands.map some ++ none :: (stream.startup.take view.startupIndex).map some
  | .startupDrain =>
    view.stream = stream ∧ done = prepareHomeCommands.map some ++ none :: stream.startup.map some
  -- The stream is closed at the end of the file.
  | .done =>
    ∃ lines stream', stream.Emits lines stream' ∧ (view.stream = stream' ∨ ¬view.stream.isOpen) ∧
      done = stream.plan lines

-- What holds of the events since a job was accepted, as long as no write failed.
structure HandedOff (stream : GcodeStream) (events : List Event) (s : Service) : Prop where
  planned  : stream.Planned (marks events)
  progress : s.jobActive → s.jobView.Progress stream (marks events)

variable {s s' s₁ : Service} {stream : GcodeStream} {events recorded : List Event} {rc : Int}
variable {command : CString}

theorem marks_append : marks (events ++ recorded) = marks events ++ marks recorded :=
  List.filterMap_append

theorem marks_eq_nil (h : ∀ e ∈ events, e.mark = none) : marks events = [] :=
  List.filterMap_eq_nil_iff.mpr h

theorem JobView.Progress.planned {view : JobView} {done : List (Option CString)}
    (h : view.Progress stream done) : stream.Planned done := by
  have unread : stream.Emits [] stream := .nil
  have home : stream.plan [] = prepareHomeCommands.map some ++
      none :: (stream.startup.map some ++ [none]) := rfl
  unfold Progress at h
  split at h
  case h_1 =>
    refine ⟨[], stream, unread, ?_⟩
    rw [h.2.2, home]
    exact ((List.take_prefix _ _).map some).trans (List.prefix_append _ _)
  case h_2 =>
    refine ⟨[], stream, unread, ?_⟩
    rw [h.2.2, home]
    exact List.prefix_append _ _
  case h_3 =>
    refine ⟨[], stream, unread, ?_⟩
    rw [h.2.2, home]
    exact (List.prefix_append_right_inj _).mpr (List.prefix_append [none] _)
  case h_4 =>
    refine ⟨[], stream, unread, ?_⟩
    rw [h.2, home]
    refine (List.prefix_append_right_inj _).mpr (List.cons_prefix_cons.mpr ⟨rfl, ?_⟩)
    exact ((List.take_prefix _ _).map some).trans (List.prefix_append _ _)
  case h_5 =>
    refine ⟨[], stream, unread, ?_⟩
    rw [h.2, home]
    exact (List.prefix_append_right_inj _).mpr (List.cons_prefix_cons.mpr ⟨rfl, List.prefix_append _ _⟩)
  case h_6 =>
    obtain ⟨lines, stream', emits, _, rfl⟩ := h
    exact ⟨lines, stream', emits, List.prefix_rfl⟩

-- The streamer does nothing that is recorded, and the job stays or ends.
theorem HandedOff.quiet (h : HandedOff stream events s) (hm : ∀ e ∈ recorded, e.mark = none)
    (hj : s'.jobActive → s.jobActive ∧ s'.jobView = s.jobView) :
    Until Event.isWriteFailed (fun es => stream.Planned (marks (events ++ es)))
      (fun es => HandedOff stream (events ++ es)) recorded s' := by
  have same {es : List Event} (he : es ⊆ recorded) : marks (events ++ es) = marks events := by
    rw [marks_append, marks_eq_nil fun e h => hm e (he h), List.append_nil]
  refine ⟨?_, fun _ => ⟨?_, fun hs => ?_⟩⟩
  case refine_1 => rw [upTo, same (List.takeWhile_subset _)]; exact h.planned
  case refine_2 => rw [same (List.Subset.refl _)]; exact h.planned
  case refine_3 =>
    rw [same (List.Subset.refl _), (hj hs).2]
    exact h.progress (hj hs).1

-- The streamer makes progress, and no write fails.
theorem HandedOff.advance (hn : ∀ e ∈ recorded, ¬e.isWriteFailed)
    (h : s'.jobView.Progress stream (marks (events ++ recorded))) :
    Until Event.isWriteFailed (fun es => stream.Planned (marks (events ++ es)))
      (fun es => HandedOff stream (events ++ es)) recorded s' :=
  .of_none hn h.planned ⟨h.planned, fun _ => h⟩

theorem startupList_eq : s.startupList = s.jobStream.startup := by
  unfold startupList GcodeStream.startup
  split <;> rfl

-- The command that a prepare stage hands over next.
theorem prepareCommand_cases (h : s.prepareCommand = some command) :
    s.jobPrepareStage = .home ∧ prepareHomeCommands[s.jobPrepareIndex]? = some command ∧
      s.prepareIndex = .prepare ∨
    s.jobPrepareStage = .startup ∧ s.jobStream.startup[s.jobStartupIndex]? = some command ∧
      s.prepareIndex = .startup := by
  unfold prepareCommand prepareList prepareIndex at *
  rw [← startupList_eq]
  cases hs : s.jobPrepareStage
  case home    => rw [hs] at h; exact .inl ⟨rfl, h, rfl⟩
  case startup => rw [hs] at h; exact .inr ⟨rfl, h, rfl⟩
  all_goals
    rw [hs] at h
    simp at h

-- The command is handed over.
theorem progress_prepare {done : List (Option CString)} (hc : s.prepareCommand = some command)
    (h : s.jobView.Progress stream done) (ha : s'.jobView = s.advancePrepare.jobView) :
    s'.jobView.Progress stream (done ++ [some command]) := by
  rw [ha]
  unfold advancePrepare
  unfold JobView.Progress at h ⊢
  obtain ⟨hs, hc, hi⟩ | ⟨hs, hc, hi⟩ := prepareCommand_cases hc
  case inl =>
    have hv : s.jobView.stage = .home := hs
    have hv' : (s.advanceJobIndex .prepare).jobView.stage = .home := hs
    rw [hv] at h
    rw [hi, hv']
    refine ⟨h.1, h.2.1, ?_⟩
    rw [h.2.2]
    change _ = (prepareHomeCommands.take (s.jobPrepareIndex + 1)).map some
    rw [List.take_add_one, hc]
    simp [jobView]
  case inr =>
    have hv : s.jobView.stage = .startup := hs
    have hv' : (s.advanceJobIndex .startup).jobView.stage = .startup := hs
    rw [hv] at h
    rw [hi, hv']
    refine ⟨h.1, ?_⟩
    have he : s.jobStream = stream := h.1
    rw [h.2]
    change _ = _ ++ none :: (stream.startup.take (s.jobStartupIndex + 1)).map some
    rw [List.take_add_one, ← he, hc]
    simp [jobView]

-- The outputs of the file go on with the line that is read.
theorem emits_readStream {lines : List CString} {stream' : GcodeStream} {buffer : LineBuffer}
    (emits : stream.Emits lines stream') (hs : s.jobStream = stream' ∨ ¬s.jobStream.isOpen)
    (hr : 0 < (s.readStream buffer).1) :
    stream.Emits (lines ++ [(s.readStream buffer).2.1]) (s.readStream buffer).2.2.jobStream := by
  cases hs
  case inl hs =>
    rw [← hs] at emits
    exact .next buffer emits rfl hr
  case inr hc =>
    have : (s.readStream buffer).1 = -1 := by simp [readStream, GcodeStream.next, hc]
    rw [this] at hr
    contradiction

theorem jobView_startLineWait : s.startLineWait.jobView = s.jobView := by
  unfold startLineWait
  dsimp only
  split
  case isTrue => rfl
  case isFalse =>
    split
    case isTrue  => rfl
    case isFalse => rfl

theorem plan_append {lines : List CString} :
    stream.plan lines ++ [some command] = stream.plan (lines ++ [command]) := by
  simp [GcodeStream.plan]

-- What the streamer records, and that the events since the job was accepted stay as planned.
def Follows (stream : GcodeStream) (events : List Event) (s s' : Service) : Prop :=
  ∃ recorded, s'.trace = s.trace ++ recorded ∧ (∀ e ∈ recorded, ¬e.isAccepted) ∧
    Until Event.isWriteFailed (fun es => stream.Planned (marks (events ++ es)))
      (fun es => HandedOff stream (events ++ es)) recorded s'

theorem Follows.silent (ht : s'.trace = s.trace) (h : s'.jobView.Progress stream (marks events)) :
    Follows stream events s s' :=
  ⟨[], by rw [ht, List.append_nil], (List.forall_mem_nil _),
    HandedOff.advance (List.forall_mem_nil _) (by rwa [List.append_nil])⟩

theorem mark_cleared {slots : List Nat} :
    ∀ e ∈ slots.map Event.cleared, e.mark = none ∧ ¬e.isAccepted ∧ ¬e.isWriteFailed := by
  simp [Event.mark, Event.isAccepted, Event.isWriteFailed]

-- The job ends after a command could not be sent.
theorem follows_unsent {tail : List Event} (h : HandedOff stream events s) (ha : s.jobActive)
    (unsent : Lifecycle.Unsent s.jobActive .streamer command recorded)
    (hs : s'.jobActive → s'.jobView = s.jobView)
    (hp : stream.Planned (marks events ++ [some command]))
    (ht : s'.trace = s.trace ++ (recorded ++ tail))
    (htail : ∀ e ∈ tail, e.mark = none ∧ ¬e.isAccepted ∧ ¬e.isWriteFailed) :
    Follows stream events s s' := by
  refine ⟨recorded ++ tail, ht, ?_, ?_⟩
  case refine_1 =>
    intro e he
    cases List.mem_append.mp he
    case inl he => exact not_accepted_of_unsent unsent e he
    case inr he => exact (htail e he).2.1
  case refine_2 =>
    cases unsent
    case refused =>
      exact h.quiet (fun e he => (htail e he).1) fun hs' => ⟨ha, hs hs'⟩
    case failed slot =>
      refine ⟨?_, fun hn => absurd rfl (hn .writeFailed (by simp))⟩
      have : upTo Event.isWriteFailed
          ([.handed .streamer command slot s.jobActive, .writeFailed] ++ tail) =
          [.handed .streamer command slot s.jobActive] := rfl
      rw [this, marks_append]
      exact hp

theorem jobView_send (h : s.send .streamer command = (rc, s₁)) : s₁.jobView = s.jobView := by
  have : (s.send .streamer command).2.jobView = s.jobView := rfl
  rw [← this, h]

theorem jobView_advancePrepare (h : s₁.jobView = s.jobView) :
    s₁.advancePrepare.jobView = s.advancePrepare.jobView := by
  have stage : s₁.jobPrepareStage = s.jobPrepareStage := congrArg JobView.stage h
  have hi : s₁.prepareIndex = s.prepareIndex := by
    unfold prepareIndex
    rw [stage]
  unfold advancePrepare
  rw [hi]
  cases s.prepareIndex
  case prepare =>
    exact congrArg (fun v => { v with prepareIndex := v.prepareIndex + 1 }) h
  case startup =>
    exact congrArg (fun v => { v with startupIndex := v.startupIndex + 1 }) h

-- A line of the file is handed over, or cannot be sent.
theorem progress_line {buffer : LineBuffer} {done : List (Option CString)}
    (hd : s.jobPrepareStage = .done) (hr : 0 < (s.readStream buffer).1)
    (h : s.jobView.Progress stream done)
    (hs : s'.jobView = (s.readStream buffer).2.2.jobView) :
    s'.jobView.Progress stream (done ++ [some (s.readStream buffer).2.1]) := by
  have hv : s.jobView.stage = .done := hd
  have hv' : s'.jobView.stage = .done := by rw [hs]; exact hd
  unfold JobView.Progress at h ⊢
  rw [hv] at h
  rw [hv']
  obtain ⟨lines, stream', emits, hst, rfl⟩ := h
  refine ⟨_, _, emits_readStream emits hst hr, .inl ?_, plan_append⟩
  rw [hs]
  rfl

theorem StreamStep.follows (h : StreamStep s s') (ha : s.jobActive)
    (notFinish : ¬s.finishCleanup.pending) (handed : HandedOff stream events s) :
    Follows stream events s s' := by
  have progress := handed.progress ha
  have quiet {tail : List Event} (ht : s'.trace = s.trace ++ tail) (hj : ¬s'.jobActive)
      (htail : ∀ e ∈ tail, e.mark = none ∧ ¬e.isAccepted ∧ ¬e.isWriteFailed) :
      Follows stream events s s' :=
    ⟨tail, ht, fun e he => (htail e he).2.1,
      handed.quiet (fun e he => (htail e he).1) fun h => absurd h hj⟩
  cases h
  case prepare command s₁ hc hs =>
    obtain ⟨_, i, ht⟩ := send_ok_lifecycle hs
    have hv := jobView_advancePrepare (jobView_send hs)
    refine ⟨_, trace_advancePrepare.trans ht, by simp [Event.isAccepted],
      HandedOff.advance (by simp [Event.isWriteFailed]) ?_⟩
    rw [marks_append]
    exact progress_prepare hc progress hv
  case prepareFail command _ s₁ hz hf hc hs =>
    obtain ⟨_, recorded, ht, unsent⟩ := send_fail_lifecycle hs hz hf
    have hp : s.advancePrepare.jobView.Progress stream (marks events ++ [some command]) :=
      progress_prepare hc progress rfl
    refine follows_unsent handed ha unsent (fun _ => ?_) hp.planned ?_ (List.forall_mem_nil _)
    case refine_1 => exact (jobView_send hs :)
    case refine_2 => rw [List.append_nil]; exact ht
  case homeSent hs hl =>
    refine .silent rfl ?_
    unfold JobView.Progress at progress
    rw [show s.jobView.stage = .home from hs] at progress
    refine ⟨progress.1, progress.2.1, ?_⟩
    rw [progress.2.2, List.take_of_length_le (by exact hl)]
  case homeDrained hs _ =>
    refine ⟨[.drained], rfl, by simp [Event.isAccepted],
      HandedOff.advance (by simp [Event.isWriteFailed]) ?_⟩
    unfold JobView.Progress at progress
    rw [show s.jobView.stage = .homeDrain from hs] at progress
    refine ⟨progress.1, progress.2.1, ?_⟩
    rw [marks_append, progress.2.2]
    rfl
  case heated hs _ =>
    refine .silent rfl ?_
    unfold JobView.Progress at progress
    rw [show s.jobView.stage = .heat from hs] at progress
    have hz : s.jobStartupIndex = 0 := progress.2.1
    refine ⟨progress.1, ?_⟩
    rw [progress.2.2]
    change _ = _ ++ none :: (stream.startup.take s.jobStartupIndex).map some
    rw [hz]
    rfl
  case startupSent hs hl =>
    refine .silent rfl ?_
    unfold JobView.Progress at progress
    rw [show s.jobView.stage = .startup from hs] at progress
    have he : s.jobStream = stream := progress.1
    refine ⟨progress.1, ?_⟩
    rw [startupList_eq, he] at hl
    rw [progress.2, List.take_of_length_le (by exact hl)]
  case startupDrained hs _ =>
    refine ⟨[.drained], rfl, by simp [Event.isAccepted],
      HandedOff.advance (by simp [Event.isWriteFailed]) ?_⟩
    unfold JobView.Progress at progress
    rw [show s.jobView.stage = .startupDrain from hs] at progress
    refine ⟨[], stream, .nil, .inl progress.1, ?_⟩
    rw [marks_append, progress.2]
    simp [GcodeStream.plan, marks, Event.mark]
  case readFail buffer _ _ _ =>
    refine @quiet (s.flow.pendingSlots.map .cleared) ?_ Bool.false_ne_true mark_cleared
    have := @trace_endJob (s.readStream buffer).2.2
    rwa [dropFinish_eq_nil (by exact notFinish)] at this
  case readEnd buffer hs _ _ _ =>
    refine .silent rfl ?_
    unfold JobView.Progress at progress
    rw [show s.jobView.stage = .done from hs] at progress
    obtain ⟨lines, stream', emits, _, hm⟩ := progress
    have hv : (s.readStream buffer).2.2.beginFinish.jobView.stage = .done := hs
    unfold JobView.Progress
    rw [hv]
    exact ⟨lines, stream', emits, .inr Bool.false_ne_true, hm⟩
  case stream s₁ buffer hs _ hr hsend =>
    obtain ⟨_, i, ht⟩ := send_ok_lifecycle hsend
    refine ⟨_, trace_startLineWait.trans ht, by simp [Event.isAccepted],
      HandedOff.advance (by simp [Event.isWriteFailed]) ?_⟩
    rw [marks_append]
    refine progress_line hs hr progress ?_
    rw [jobView_startLineWait, jobView_send hsend]
    rfl
  case streamFail rc s₁ buffer hz hf hs _ hr hsend =>
    obtain ⟨hl, recorded, ht, unsent⟩ := send_fail_lifecycle hsend hz hf
    have hp : (s.readStream buffer).2.2.jobView.Progress stream
        (marks events ++ [some (s.readStream buffer).2.1]) :=
      progress_line hs hr progress rfl
    refine follows_unsent handed ha unsent (fun h => absurd h Bool.false_ne_true) hp.planned ?_
      (@mark_cleared s₁.flow.pendingSlots)
    rw [← List.append_assoc, show s.trace ++ recorded = s₁.trace from ht.symm]
    have := @trace_endJob s₁
    rwa [dropFinish_eq_nil (by
      rw [show s₁.finishCleanup = s.finishCleanup from congrArg (Lifecycle.policy · .finish) hl]
      exact notFinish)] at this

-- What holds of the job that was accepted last.
def JobHandedOff (s : Service) : Prop :=
  ∀ job, jobRecord s.trace = some job →
    Until Event.isWriteFailed (fun es => job.stream.Planned (marks es)) (HandedOff job.stream)
      job.events s

theorem JobHandedOff.follows (h : JobHandedOff s)
    (hf : ∀ {stream events}, HandedOff stream events s → Follows stream events s s')
    (ht : s'.trace = s.trace ++ recorded) (hr : ∀ e ∈ recorded, ¬e.isAccepted) :
    JobHandedOff s' := by
  intro job hjob
  rw [ht, jobRecord_append hr] at hjob
  obtain ⟨job, hj, rfl⟩ := Option.map_eq_some_iff.mp hjob
  refine (h job hj).append fun handed => ?_
  obtain ⟨recorded', ht', _, next⟩ := hf handed
  rw [ht] at ht'
  rw [List.append_cancel_left ht']
  exact next

theorem mark_of_isNote {e : Event} (h : e.isNote) : e.mark = none ∧ ¬e.isAccepted := by
  cases e
  case writeFailed | line | aborted | policyDone | policyFailed =>
    exact ⟨rfl, Bool.false_ne_true⟩
  all_goals contradiction

-- A step of the ledger that the streamer has no part in.
theorem JobHandedOff.others (h : JobHandedOff s) (ht : s'.trace = s.trace ++ recorded)
    (hr : ∀ e ∈ recorded, e.mark = none ∧ ¬e.isAccepted)
    (hj : s'.jobActive → s.jobActive ∧ s'.jobView = s.jobView) : JobHandedOff s' :=
  h.follows (fun handed => ⟨recorded, ht, fun e he => (hr e he).2,
    handed.quiet (fun e he => (hr e he).1) hj⟩) ht fun e he => (hr e he).2

theorem Entry.jobHandedOff (h : Entry s s') (hp : JobHandedOff s) : JobHandedOff s' := by
  cases h
  case note recorded hn job _ ht =>
    exact hp.others ht (fun e he => mark_of_isNote (hn e he)) job.kept
  case stop recorded hn hj _ ht =>
    exact hp.others ht (fun e he => mark_of_isNote (hn e he)) fun h => absurd h hj
  case hand producer command i hne job _ ht =>
    refine hp.others ht ?_ job.kept
    intro e he
    cases List.mem_singleton.mp he
    cases producer
    case streamer => contradiction
    all_goals exact ⟨rfl, Bool.false_ne_true⟩
  case drop slots event hev job _ ht =>
    refine hp.others ht ?_ job.kept
    intro e he
    obtain ⟨i, _, rfl⟩ := List.mem_map.mp he
    obtain rfl | rfl := hev
    case inl => exact ⟨rfl, Bool.false_ne_true⟩
    case inr => exact ⟨rfl, Bool.false_ne_true⟩
  case clear _ hj _ ht =>
    exact hp.others ht (fun e he => ⟨(mark_cleared e he).1, (mark_cleared e he).2.1⟩)
      fun h => absurd h hj
  case finish _ hj _ ht =>
    refine hp.others ht ?_ fun h => absurd h hj
    intro e he
    cases List.mem_singleton.mp he
    exact ⟨rfl, Bool.false_ne_true⟩
  case stream hs h =>
    have ⟨recorded, ht, refined⟩ := StreamStep.refines hs.notFinish h
    refine hp.follows (fun handed => h.follows hs.active hs.notFinish handed) ht ?_
    exact not_accepted_of_stream refined
  case accept hst hpi hsi _ ht =>
    intro job hjob
    rw [ht, jobRecord_accepted] at hjob
    cases hjob
    have progress : s'.jobView.Progress s'.jobStream [] := by
      unfold JobView.Progress
      rw [show s'.jobView.stage = .home from hst]
      refine ⟨rfl, hsi, ?_⟩
      rw [show s'.jobView.prepareIndex = 0 from hpi]
      rfl
    exact .nil progress.planned ⟨progress.planned, fun _ => progress⟩

end Service
end Deneb
