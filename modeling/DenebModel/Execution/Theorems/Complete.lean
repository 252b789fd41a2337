import DenebModel.Execution.Theorems.Ledger

namespace Deneb

open CString

-- How a packet leaves the window of the flow control.
inductive Leaving
  | acknowledged
  | resynced
  | cleared
  deriving DecidableEq

def Event.leaving (slot : Nat) : Event → Option Leaving
  | acknowledged i => if i = slot then some .acknowledged else none
  | resynced i     => if i = slot then some .resynced else none
  | cleared i      => if i = slot then some .cleared else none
  | _              => none

-- How the packet in a slot leaves the window in the course of the events.
def leaving (slot : Nat) (events : List Event) : Option Leaving :=
  events.findSome? (Event.leaving slot)

-- A property of the slot of every command that the streamer handed over, and of what follows it.
def EachStreamed (p : Nat → List Event → Prop) (events : List Event) : Prop :=
  ∀ before command i job after, events = before ++ .handed .streamer command i job :: after → p i after

-- All commands of the streamer are acknowledged, or dropped by a resync.
def Settled (events : List Event) : Prop :=
  EachStreamed (fun i after =>
    leaving i after = some .acknowledged ∨ leaving i after = some .resynced) events

variable {events recorded : List Event} {p q : Nat → List Event → Prop}

theorem leaving_append {i : Nat} :
    leaving i (events ++ recorded) = (leaving i events).or (leaving i recorded) :=
  List.findSome?_append

theorem leaving_eq_none {i : Nat} (h : ∀ e ∈ events, e.leaving i = none) : leaving i events = none :=
  List.findSome?_eq_none_iff.mpr h

-- A slot among those of the events.
theorem leaving_map {i : Nat} {slots : List Nat} {event : Nat → Event} {how : Leaving}
    (h : ∀ i j, (event i).leaving j = if i = j then some how else none) :
    leaving i (slots.map event) = if i ∈ slots then some how else none := by
  induction slots
  case nil => rfl
  case cons j slots ih =>
    rw [List.map_cons, leaving, List.findSome?_cons, h]
    by_cases hj : j = i
    case pos => simp [hj]
    case neg =>
      rw [if_neg hj]
      rw [leaving] at ih
      simp only [ih, List.mem_cons, Ne.symm hj, false_or]

theorem EachStreamed.mono (h : EachStreamed p events) (hpq : ∀ {i after}, p i after → q i after) :
    EachStreamed q events :=
  fun _ _ _ _ _ he => hpq (h _ _ _ _ _ he)

theorem EachStreamed.append (h : EachStreamed (fun i after => p i (after ++ recorded)) events)
    (hr : EachStreamed p recorded) : EachStreamed p (events ++ recorded) := by
  intro before command i job after he
  obtain ⟨rest, _, hs⟩ | ⟨rest, rfl, hs⟩ := List.append_eq_append_iff.mp he
  case inl => exact hr rest command i job after hs
  case inr =>
    cases rest
    case nil => exact hr [] command i job after hs.symm
    case cons e rest =>
      have ⟨first, rest'⟩ := List.cons_eq_cons.mp hs
      rw [rest']
      exact h before command i job rest (by rw [first])

theorem EachStreamed.of_none (h : ∀ command i job, .handed .streamer command i job ∉ events) :
    EachStreamed p events := by
  intro before command i job after he
  exact absurd (he ▸ List.mem_append_right _ List.mem_cons_self) (h command i job)

theorem Settled.append (h : Settled events)
    (hn : ∀ command i job, .handed .streamer command i job ∉ recorded) :
    Settled (events ++ recorded) := by
  refine EachStreamed.append (h.mono fun {i after} hs => ?_) (.of_none hn)
  rw [leaving_append]
  obtain hs | hs := hs
  case inl => rw [hs]; exact .inl rfl
  case inr => rw [hs]; exact .inr rfl

theorem TakesSlot.pending {flow flow' : FlowControl} {i : Nat} (takes : TakesSlot flow i flow') {j : Nat}
    (h : (flow.slot j).pending) : (flow'.slot j).pending := by
  by_cases hj : j = i
  case pos => rw [hj]; exact takes.taken
  case neg => rw [takes.others j hj]; exact h

namespace Service

variable {s s' s₁ : Service} {i : Nat} {command : CString}

-- Where the packet of a slot is after the events: in the window if it has not left it, and it is
-- dropped without a resync only when the job has ended.
def Fate (s : Service) (i : Nat) (events : List Event) : Prop :=
  match leaving i events with
  | none                           => (s.flow.slot i).pending
  | some .cleared                  => ¬s.jobActive
  | some .acknowledged | some .resynced => True

-- What holds of the events since the job was accepted.
structure Accounts (events : List Event) (s : Service) : Prop where
  fate : EachStreamed s.Fate events
  done : .policyDone .finish ∈ events → ¬s.jobActive ∧ Settled events

-- What an entry of the ledger does to the packets in the window.
structure Accounting (s : Service) (recorded : List Event) (s' : Service) : Prop where
  trace    : s'.trace = s.trace ++ recorded
  accepted : ∀ e ∈ recorded, ¬e.isAccepted
  active   : s'.jobActive → s.jobActive
  notDone  : .policyDone .finish ∉ recorded
  kept     : ∀ i, (s.flow.slot i).pending → s'.Fate i recorded
  streamed : EachStreamed s'.Fate recorded
  idle     : ¬s.jobActive → ∀ command i job, .handed .streamer command i job ∉ recorded

theorem Fate.append (h : s.Fate i events) (active : s'.jobActive → s.jobActive)
    (kept : (s.flow.slot i).pending → s'.Fate i recorded) : s'.Fate i (events ++ recorded) := by
  unfold Fate at h kept ⊢
  rw [leaving_append]
  split at h
  case h_1 hn => rw [hn]; exact kept h
  case h_2 hc => rw [hc]; exact fun hj => h (active hj)
  case h_3 ha => rw [ha]; trivial
  case h_4 hr => rw [hr]; trivial

theorem Accounts.append (h : Accounts events s) (step : Accounting s recorded s') :
    Accounts (events ++ recorded) s' := by
  constructor
  case fate =>
    exact EachStreamed.append (h.fate.mono fun hf => hf.append step.active (step.kept _)) step.streamed
  case done =>
    intro hd
    cases List.mem_append.mp hd
    case inl hd =>
      have ⟨idle, settled⟩ := h.done hd
      exact ⟨fun hj => idle (step.active hj), settled.append (step.idle idle)⟩
    case inr hd => exact absurd hd step.notDone

-- All packets have left the window while the job was active.
theorem Accounts.settled (h : Accounts events s) (none : NonePending s) (active : s.jobActive) :
    Settled events := by
  refine h.fate.mono fun {i after} hf => ?_
  unfold Fate at hf
  split at hf
  case h_1    => exact absurd hf (none i)
  case h_2    => exact absurd active hf
  case h_3 ha => exact .inl ha
  case h_4 hr => exact .inr hr

-- An event that says nothing about the packets of the streamer.
def Neutral : Event → Bool
  | .acknowledged _ | .resynced _ | .cleared _ | .jobAccepted _ => false
  | .handed producer _ _ _ => producer ≠ .streamer
  | .policyDone kind       => kind ≠ .finish
  | _                      => true

theorem neutral_of_isNote {e : Event} (h : e.isNote) : Neutral e := by
  cases e
  case policyDone => exact h
  case writeFailed | line | aborted | policyFailed => rfl
  all_goals contradiction

theorem leaving_of_neutral {e : Event} (h : Neutral e) : e.leaving i = none := by
  cases e
  case acknowledged | resynced | cleared => contradiction
  all_goals rfl

theorem Accounting.note (ht : s'.trace = s.trace ++ recorded) (hn : ∀ e ∈ recorded, Neutral e)
    (same : SamePending s s') (active : s'.jobActive → s.jobActive) : Accounting s recorded s' := by
  have streamed (command i job) : Event.handed .streamer command i job ∉ recorded :=
    fun he => absurd (hn _ he) (by simp [Neutral])
  refine ⟨ht, ?_, active, ?_, ?_, .of_none streamed, fun _ => streamed⟩
  case refine_1 =>
    intro e he
    have := hn e he
    cases e
    case jobAccepted => contradiction
    all_goals exact Bool.false_ne_true
  case refine_2 => exact fun he => absurd (hn _ he) (by simp [Neutral])
  case refine_3 =>
    intro i hp
    rw [Fate, leaving_eq_none fun e he => leaving_of_neutral (hn e he), same i]
    exact hp

-- A command is handed over, and its packet may not be written.
theorem Accounting.hand {producer : Producer} (tail : List Event) (takes : TakesSlot s.flow i s'.flow)
    (active : s'.jobActive = s.jobActive) (htail : tail ⊆ [.writeFailed])
    (hp : producer = .streamer → s.jobActive)
    (ht : s'.trace = s.trace ++ .handed producer command i s.jobActive :: tail) :
    Accounting s (.handed producer command i s.jobActive :: tail) s' := by
  have failed {e : Event} (he : e ∈ tail) : e = .writeFailed := List.mem_singleton.mp (htail he)
  have leaves {j : Nat} : leaving j tail = none :=
    leaving_eq_none fun e he => by rw [failed he]; rfl
  refine ⟨ht, ?_, fun h => by rwa [← active], ?_, ?_, ?_, ?_⟩
  case refine_1 =>
    intro e he
    cases List.mem_cons.mp he
    case inl he => rw [he]; exact Bool.false_ne_true
    case inr he => rw [failed he]; exact Bool.false_ne_true
  case refine_2 =>
    intro he
    cases List.mem_cons.mp he
    case inl he => contradiction
    case inr he => exact absurd (failed he) (by simp)
  case refine_3 =>
    intro j hj
    have : leaving j (.handed producer command i s.jobActive :: tail) = none := leaves
    rw [Fate, this]
    exact takes.pending hj
  case refine_4 =>
    intro before command' j job after he
    cases before
    case nil =>
      have ⟨first, rest⟩ := List.cons_eq_cons.mp he
      cases first
      rw [Fate, ← rest, leaves]
      exact takes.taken
    case cons e before =>
      have ⟨_, rest⟩ := List.cons_eq_cons.mp he
      have : .handed .streamer command' j job ∈ tail := by rw [rest]; simp
      exact absurd (failed this) (by simp)
  case refine_5 =>
    intro idle command' j job he
    cases List.mem_cons.mp he
    case inl he =>
      cases he
      exact idle (hp rfl)
    case inr he => exact absurd (failed he) (by simp)

-- Packets leave the window.
theorem Accounting.leave {slots : List Nat} {event : Nat → Event} {how : Leaving}
    (ht : s'.trace = s.trace ++ slots.map event)
    (he : ∀ i j, (event i).leaving j = if i = j then some how else none)
    (hj : s'.jobActive → s.jobActive) (hc : how = .cleared → ¬s'.jobActive)
    (hp : ∀ i, (s.flow.slot i).pending → i ∉ slots → (s'.flow.slot i).pending) :
    Accounting s (slots.map event) s' := by
  have others {e : Event} (h : e ∈ slots.map event) : ∃ i, e.leaving i = some how := by
    obtain ⟨i, _, rfl⟩ := List.mem_map.mp h
    exact ⟨i, by rw [he, if_pos rfl]⟩
  have none {command i job} : Event.handed .streamer command i job ∉ slots.map event := by
    intro h
    obtain ⟨_, h⟩ := others h
    contradiction
  refine ⟨ht, ?_, hj, ?_, ?_, .of_none fun _ _ _ => none, fun _ _ _ _ => none⟩
  case refine_1 =>
    intro e h
    obtain ⟨_, h⟩ := others h
    cases e
    case jobAccepted => contradiction
    all_goals exact Bool.false_ne_true
  case refine_2 =>
    intro h
    obtain ⟨_, h⟩ := others h
    contradiction
  case refine_3 =>
    intro i hi
    rw [Fate, leaving_map he]
    by_cases hm : i ∈ slots
    case pos =>
      rw [if_pos hm]
      cases how
      case cleared => exact hc rfl
      all_goals trivial
    case neg => rw [if_neg hm]; exact hp i hi hm

-- What holds of the job that was accepted last.
structure JobAccounts (s : Service) : Prop where
  accounts : ∀ job, jobRecord s.trace = some job → Accounts job.events s
  active   : s.jobActive → (jobRecord s.trace).isSome
  finished : .policyDone .finish ∈ s.trace → (jobRecord s.trace).isSome

theorem JobAccounts.step (h : JobAccounts s) (step : Accounting s recorded s') : JobAccounts s' := by
  have record := @jobRecord_append s.trace recorded step.accepted
  rw [← step.trace] at record
  constructor
  case accounts =>
    intro job hj
    rw [record] at hj
    obtain ⟨job, hjob, rfl⟩ := Option.map_eq_some_iff.mp hj
    exact (h.accounts job hjob).append step
  case active =>
    intro hj
    rw [record, Option.isSome_map]
    exact h.active (step.active hj)
  case finished =>
    intro hd
    rw [record, Option.isSome_map]
    rw [step.trace] at hd
    cases List.mem_append.mp hd
    case inl hd => exact h.finished hd
    case inr hd => exact absurd hd step.notDone

theorem JobAccounts.silent (h : JobAccounts s) (flow : s'.flow = s.flow) (trace : s'.trace = s.trace)
    (active : s'.jobActive → s.jobActive) : JobAccounts s' := by
  have step : Accounting s [] s' :=
    .note (by rw [trace, List.append_nil]) (List.forall_mem_nil _) (fun _ => by rw [flow]) active
  exact h.step step

theorem leaving_cleared {i j : Nat} :
    (Event.cleared i).leaving j = if i = j then some .cleared else none := rfl

-- The window is cleared at the end of the job.
theorem JobAccounts.clear (h : JobAccounts s) (hj : ¬s'.jobActive)
    (ht : s'.trace = s.trace ++ s.flow.pendingSlots.map .cleared) : JobAccounts s' := by
  refine h.step (.leave ht (fun _ _ => leaving_cleared) (fun h => absurd h hj) (fun _ => hj) ?_)
  intro i hp hn
  exact absurd (mem_pendingSlots.mpr hp) hn

-- An attempt of the streamer to send a command.
theorem JobAccounts.send {rc : Int} (h : JobAccounts s) (active : s.jobActive)
    (hs : s.send .streamer command = (rc, s₁)) (hf : rc ≠ MotionSender.flowFull) : JobAccounts s₁ := by
  by_cases hz : rc = 0
  case pos =>
    cases hz
    have ⟨flow, serial, i, he, takes⟩ := send_ok hs
    rw [he]
    exact h.step (.hand [] takes rfl (by simp) (fun _ => active) rfl)
  case neg =>
    obtain ⟨flow, serial, recorded, he, ⟨rfl, _, hslots⟩ | ⟨i, rfl, takes⟩⟩ := send_fail hs hz hf
    case inl =>
      rw [he]
      refine h.step (.note rfl (List.forall_mem_nil _) (fun i => ?_) id)
      rw [FlowControl.slot_of_slots_eq hslots]
    case inr =>
      rw [he]
      exact h.step (.hand [.writeFailed] takes rfl (by simp) (fun _ => active) rfl)

theorem StreamStep.jobAccounts (h : StreamStep s s') (active : s.jobActive)
    (notFinish : ¬s.finishCleanup.pending) (hp : JobAccounts s) : JobAccounts s' := by
  have drained {s' : Service} (same : SamePending s s') (ht : s'.trace = s.trace ++ [.drained])
      (active : s'.jobActive → s.jobActive) : JobAccounts s' :=
    hp.step (.note ht (by simp [Neutral]) same active)
  cases h
  case prepare s₁ _ hs =>
    have sent : JobAccounts s₁ := hp.send active hs (by decide)
    refine sent.silent ?_ trace_advancePrepare ?_
    all_goals
      unfold advancePrepare
      cases s₁.prepareIndex
    case refine_1.prepare | refine_1.startup => rfl
    case refine_2.prepare | refine_2.startup => exact id
  case prepareFail hz hf _ hs =>
    exact (hp.send active hs hf).silent rfl rfl id
  case homeSent => exact hp.silent rfl rfl id
  case homeDrained => exact drained (fun _ => rfl) rfl id
  case heated => exact hp.silent rfl rfl id
  case startupSent => exact hp.silent rfl rfl id
  case startupDrained => exact drained (fun _ => rfl) rfl id
  case readFail buffer _ _ _ =>
    refine hp.clear Bool.false_ne_true ?_
    have := @trace_endJob (s.readStream buffer).2.2
    rwa [dropFinish_eq_nil (by exact notFinish)] at this
  case readEnd => exact hp.silent rfl rfl id
  case stream s₁ buffer _ _ _ hs =>
    have read : JobAccounts (s.readStream buffer).2.2.setStreaming := hp.silent rfl rfl id
    have sent : JobAccounts s₁ := read.send active hs (by decide)
    refine sent.silent ?_ trace_startLineWait ?_
    all_goals
      unfold startLineWait
      dsimp only
      split
    case refine_1.isTrue => rfl
    case refine_2.isTrue => exact id
    all_goals split
    case refine_1.isFalse.isTrue | refine_1.isFalse.isFalse => rfl
    case refine_2.isFalse.isTrue | refine_2.isFalse.isFalse => exact id
  case streamFail rc s₁ buffer _ hf _ _ _ hs =>
    have read : JobAccounts (s.readStream buffer).2.2.setStreaming := hp.silent rfl rfl id
    have sent : JobAccounts s₁ := read.send active hs hf
    refine sent.clear Bool.false_ne_true ?_
    have kept : s₁.finishCleanup = s.finishCleanup := by
      have : ((s.readStream buffer).2.2.setStreaming.send .streamer
        (s.readStream buffer).2.1).2.finishCleanup = s.finishCleanup := rfl
      rw [← this, hs]
    have := @trace_endJob s₁
    rwa [dropFinish_eq_nil (by rw [kept]; exact notFinish)] at this

theorem Entry.jobAccounts (h : Entry s s') (hp : JobAccounts s) : JobAccounts s' := by
  cases h
  case note recorded hn job same ht =>
    exact hp.step (.note ht (fun e he => neutral_of_isNote (hn e he)) same fun h => (job.kept h).1)
  case stop recorded hn hj same ht =>
    exact hp.step (.note ht (fun e he => neutral_of_isNote (hn e he)) same fun h => absurd h hj)
  case hand producer command i hne job takes ht =>
    exact hp.step (.hand [] takes job.active (by simp) (fun h => absurd h hne) ht)
  case drop slots event hev job hpend ht =>
    have kept (i) (hi : (s.flow.slot i).pending) (hn : i ∉ slots) : (s'.flow.slot i).pending :=
      (hpend i).mpr ⟨hi, hn⟩
    obtain rfl | rfl := hev
    case inl => exact hp.step (.leave ht (fun _ _ => rfl) (fun h => (job.kept h).1) nofun kept)
    case inr => exact hp.step (.leave ht (fun _ _ => rfl) (fun h => (job.kept h).1) nofun kept)
  case clear _ hj _ ht => exact hp.clear hj ht
  case finish none active hj same ht =>
    have accepted : ∀ e ∈ [Event.policyDone .finish], ¬e.isAccepted := by simp [Event.isAccepted]
    have record := @jobRecord_append s.trace _ accepted
    rw [← ht] at record
    have known : (jobRecord s'.trace).isSome := by
      rw [record, Option.isSome_map]
      exact hp.active active
    refine ⟨fun job hj => ?_, fun _ => known, fun _ => known⟩
    rw [record] at hj
    obtain ⟨job, hjob, rfl⟩ := Option.map_eq_some_iff.mp hj
    have settled : Settled (job.events ++ [.policyDone .finish]) :=
      ((hp.accounts job hjob).settled none active).append (by simp)
    refine ⟨settled.mono fun {i after} hs => ?_, fun _ => ⟨by assumption, settled⟩⟩
    unfold Fate
    obtain hs | hs := hs
    case inl => rw [hs]; trivial
    case inr => rw [hs]; trivial
  case stream hs h => exact h.jobAccounts hs.active hs.notFinish hp
  case accept ht =>
    have record := @jobRecord_accepted s.trace s'.jobStream
    rw [← ht] at record
    refine ⟨fun job hj => ?_, fun _ => by rw [record]; rfl, fun _ => by rw [record]; rfl⟩
    rw [record] at hj
    cases hj
    exact ⟨.of_none (by simp), by simp⟩

end Service

namespace Lifecycle

open Labelled

-- What is done in between two jobs completes a job by the end of its finish cleanup only.
structure Completes (l : Lifecycle) (recorded : List Event) (l' : Lifecycle) : Prop where
  accepted : ∀ e ∈ recorded, ¬e.isAccepted
  state    : l'.state = .complete → l.state = .complete ∨ .policyDone .finish ∈ recorded

variable {l l' : Lifecycle}

theorem Completes.keep (h : ∀ e ∈ recorded, ¬e.isAccepted)
    (hs : l'.state = .complete → l.state = .complete) : Completes l recorded l' :=
  ⟨h, fun hc => .inl (hs hc)⟩

theorem Completes.silent (h : ∀ e ∈ recorded, e.isSilent)
    (hs : l'.state = .complete → l.state = .complete) : Completes l recorded l' :=
  .keep (fun e he => not_accepted_of_isSilent (h e he)) hs

-- The state after it is another one.
theorem Completes.other (h : ∀ e ∈ recorded, ¬e.isAccepted) (hs : l'.state ≠ .complete) :
    Completes l recorded l' :=
  .keep h fun hc => absurd hc hs

theorem Completes.steps {step : Lifecycle → List Event → Lifecycle → Prop}
    (hstep : ∀ {l recorded l'}, step l recorded l' → Completes l recorded l')
    (h : Steps step l recorded l') : Completes l recorded l' := by
  induction h
  case refl => exact .keep (List.forall_mem_nil _) id
  case tail step ih =>
    have next := hstep step
    constructor
    case accepted =>
      intro e he
      cases List.mem_append.mp he
      case inl he => exact ih.accepted e he
      case inr he => exact next.accepted e he
    case state =>
      intro hc
      obtain hc | hd := next.state hc
      case inl =>
        obtain hc | hd := ih.state hc
        case inl => exact .inl hc
        case inr => exact .inr (List.mem_append_left _ hd)
      case inr => exact .inr (List.mem_append_right _ hd)

theorem QueueStep.completes (h : QueueStep l recorded l') : Completes l recorded l' := by
  cases h
  case send command slot waits _ _ _ _ =>
    refine .keep (by simp [Event.isAccepted]) fun hc => ?_
    cases waits
    case true  => contradiction
    case false => exact hc
  case fail unsent => exact .keep (not_accepted_of_unsent unsent) id
  case done => exact .keep (List.forall_mem_nil _) id

theorem ManualStep.completes (h : ManualStep l l') : Completes l [] l' := by
  cases h
  case keep => exact .keep (List.forall_mem_nil _) id
  case set hs => exact .other (List.forall_mem_nil _) (by obtain rfl | rfl := hs <;> simp)

theorem WaitStep.completes (h : WaitStep l l') : Completes l [] l' := by
  cases h
  case apply => exact .other (List.forall_mem_nil _) (by simp)
  case ended => exact .keep (List.forall_mem_nil _) id

theorem LineStep.state_complete {text : CString} (h : LineStep text l l')
    (hc : l'.state = .complete) : l.state = .complete := by
  cases h
  case ready =>
    dsimp only at hc
    split at hc
    case isTrue  => contradiction
    case isFalse => exact hc
  case waiting => contradiction

theorem PolicyStep.completes (h : PolicyStep l recorded l') : Completes l recorded l' := by
  have handed {p command slot job} : ∀ e ∈ [Event.handed p command slot job], ¬e.isAccepted := by
    simp [Event.isAccepted]
  cases h
  case send     => exact .keep handed id
  case fail unsent _ =>
    refine .other (fun e he => ?_) (by simp)
    cases List.mem_append.mp he
    case inl he => exact not_accepted_of_unsent unsent e he
    case inr he => rw [List.mem_singleton.mp he]; exact Bool.false_ne_true
  case abortDone silent _ =>
    refine .other (fun e he => ?_) (by simp)
    cases List.mem_cons.mp he
    case inl he => rw [he]; exact Bool.false_ne_true
    case inr he => exact not_accepted_of_isSilent (silent e he)
  case finishDone silent _ _ =>
    refine ⟨fun e he => ?_, fun _ => .inr List.mem_cons_self⟩
    cases List.mem_cons.mp he
    case inl he => rw [he]; exact Bool.false_ne_true
    case inr he => exact not_accepted_of_isSilent (silent e he)
  case pauseDone =>
    refine .keep (by simp [Event.isAccepted]) fun hc => ?_
    change pausedState l.state = .complete at hc
    cases hs : l.state <;> simp_all [pausedState]
  case resumeDone => exact .other (by simp [Event.isAccepted]) (by simp)
  case heat       => exact .other handed (by simp)
  case leftover   => exact .keep handed id
  case probe      => exact .keep handed id
  case probeFail unsent => exact .other (not_accepted_of_unsent unsent) (by simp)
  case probed     => exact .keep (List.forall_mem_nil _) id
  case unprobed   => exact .keep (List.forall_mem_nil _) id

theorem not_accepted_of_attempt {job : Bool} {p : Producer} {command : CString}
    (h : Attempt job p command recorded) : ∀ e ∈ recorded, ¬e.isAccepted := by
  cases h
  case sent          => simp [Event.isAccepted]
  case unsent unsent => exact not_accepted_of_unsent unsent

theorem PollStep.completes (h : PollStep l recorded l') : Completes l recorded l' := by
  cases h
  case silent hs => exact .silent hs id
  case line silent h =>
    refine .keep (fun e he => ?_) h.state_complete
    cases List.mem_cons.mp he
    case inl he => rw [he]; exact Bool.false_ne_true
    case inr he => exact not_accepted_of_isSilent (silent e he)
  case error => exact .other (List.forall_mem_nil _) (by simp)
  case abort events pending silent _ =>
    refine .keep (fun e he => ?_) fun hc => ?_
    case refine_1 =>
      cases List.mem_cons.mp he
      case inl he => rw [he]; exact Bool.false_ne_true
      case inr he => exact not_accepted_of_isSilent (silent e he)
    case refine_2 => cases pending <;> contradiction
  case dropAbort => exact .keep (List.forall_mem_nil _) id
  case policy h  => exact h.completes
  case manual h  => exact h.completes
  case probe attempt => exact .keep (not_accepted_of_attempt attempt) id
  case wait h    => exact h.completes

theorem JobStep.completes (h : JobStep l recorded l') : Completes l recorded l' := by
  cases h
  case poll h  => exact h.completes
  case queue h => exact h.completes
  case errorExit silent =>
    refine .keep (fun e he => ?_) id
    cases List.mem_append.mp he
    case inl he =>
      unfold dropFinish at he
      split at he
      case isTrue  => rw [List.mem_singleton.mp he]; exact Bool.false_ne_true
      case isFalse => contradiction
    case inr he => exact not_accepted_of_isSilent (silent e he)
  case streaming => exact .other (List.forall_mem_nil _) (by simp)
  case stream h =>
    refine .keep (not_accepted_of_stream h) fun hc => ?_
    cases h
    case prepare | stage => exact hc
    case stream waits => cases waits <;> contradiction
    all_goals contradiction

theorem GcodeStep.completes (h : GcodeStep l recorded l') : Completes l recorded l' := by
  cases h
  case queue h  => exact h.completes
  case wait h   => exact h.completes
  case manual h => exact h.completes

theorem MacroStep.completes {mayWait : Prop} (h : MacroStep mayWait l recorded l') :
    Completes l recorded l' := by
  cases h
  case poll h       => exact h.completes
  case send attempt => exact .keep (not_accepted_of_attempt attempt) id
  case startWait    => exact .keep (List.forall_mem_nil _) id
  case fail         => exact .keep (List.forall_mem_nil _) id

-- A call completes a job by the end of its finish cleanup only, or it accepts another.
theorem Exec.completes {op : Service.Op} (h : Exec op l recorded l') :
    Completes l recorded l' ∨ l'.state ≠ .complete := by
  cases h
  case keep         => exact .inl (.keep (List.forall_mem_nil _) id)
  case pollMotion h => exact .inl (.steps PollStep.completes h)
  case pollJob h    => exact .inl (.steps JobStep.completes h)
  case queueFull    => exact .inl (.keep (List.forall_mem_nil _) id)
  case gcode manual steps =>
    have rest := Completes.steps GcodeStep.completes steps
    refine .inl ⟨rest.accepted, fun hc => ?_⟩
    obtain hc | hd := rest.state hc
    case inl =>
      obtain hc | hd := manual.completes.state hc
      case inl => exact .inl hc
      case inr => contradiction
    case inr => exact .inr hd
  case runMacro h   => exact .inl (.steps MacroStep.completes h)
  case job          => exact .inr (by simp [started])
  case noFile       => exact .inl (.keep (List.forall_mem_nil _) id)
  case noAbort      => exact .inl (.keep (List.forall_mem_nil _) id)
  case abort pending _ => exact .inr (by cases pending <;> simp [aborted])
  case pausing      => exact .inr (by simp)
  case paused       => exact .inr (by simp)
  case pausedIdle   => exact .inr (by simp)
  case resume       => exact .inr (by dsimp only; split <;> simp)
  case resumePolicy => exact .inr (by dsimp only; split <;> simp)

end Lifecycle
namespace Service

variable {s s' : Service} {ops : List Op}

theorem run_jobAccounts : JobAccounts (init.run ops) :=
  have idle : JobAccounts init := ⟨by simp [init, jobRecord], by simp [init], by simp [init]⟩
  run_entries Entry.jobAccounts idle

-- A job that is complete has finished its cleanup since it was accepted.
theorem run_finished : (init.run ops).status.state = .complete →
    ∃ job, jobRecord (init.run ops).trace = some job ∧ .policyDone .finish ∈ job.events := by
  induction ops using List.reverseRec
  case nil => simp [run, init]
  case append_singleton ops op ih =>
    intro hc
    have known := (@run_jobAccounts (ops ++ [op])).finished
    rw [run, List.foldl_append] at hc known ⊢
    change ((init.run ops).exec op).status.state = .complete at hc
    obtain ⟨recorded, ht, exec⟩ := @exec_refines (init.run ops) op
    obtain completes | hn := exec.completes
    case inr => exact absurd hc hn
    case inl =>
      have record := @jobRecord_append (init.run ops).trace recorded completes.accepted
      rw [← ht] at record
      obtain hc | hd := completes.state hc
      case inl =>
        obtain ⟨job, hj, hd⟩ := ih hc
        refine ⟨job.append recorded, ?_, List.mem_append_left _ hd⟩
        change jobRecord ((init.run ops).exec op).trace = _
        rw [record, hj]
        rfl
      case inr =>
        have : (jobRecord ((init.run ops).exec op).trace).isSome :=
          known (by change _ ∈ ((init.run ops).exec op).trace; rw [ht]; exact List.mem_append_right _ hd)
        rw [record, Option.isSome_map] at this
        obtain ⟨job, hj⟩ := Option.isSome_iff_exists.mp this
        refine ⟨job.append recorded, ?_, List.mem_append_right _ hd⟩
        change jobRecord ((init.run ops).exec op).trace = _
        rw [record, hj]
        rfl

-- When a job is complete, every command that its streamer handed over has left the window by an
-- acknowledgement or by a resync.
theorem complete_settled (h : (init.run ops).status.state = .complete) :
    ∃ before stream events, (init.run ops).trace = before ++ .jobAccepted stream :: events ∧
      (∀ e ∈ events, ¬e.isAccepted) ∧ .policyDone .finish ∈ events ∧ Settled events := by
  obtain ⟨job, hj, hd⟩ := run_finished h
  have ⟨before, hs, hn⟩ := jobRecord_split hj
  exact ⟨before, job.stream, job.events, hs, hn, hd, ((run_jobAccounts.accounts job hj).done hd).2⟩

-- A job during which the controller reports a sequence error again and again.
def resyncedJob : List Op :=
  coldJob ++ (List.replicate 18 [.pollJob {} {}, .pollMotion (.ofLines
    ["Error:ProtoError:Sequence number is unexpected (received, expected): 0,7"])]).flatten

theorem resyncedJob_settled :
    (init.run resyncedJob).status.state = .complete ∧
    ∃ before stream events, (init.run resyncedJob).trace = before ++ .jobAccepted stream :: events ∧
      (∀ e ∈ events, ¬e.isAccepted) ∧ .policyDone .finish ∈ events ∧ Settled events := by
  have complete : (init.run resyncedJob).status.state = .complete := by decide +kernel
  exact ⟨complete, complete_settled complete⟩

-- The job is complete although the controller acknowledged none of its commands.
theorem resyncedJob_not_acknowledged : ¬∀ (ops : List Op) (before events : List Event)
    (stream : GcodeStream), (init.run ops).status.state = .complete →
    (init.run ops).trace = before ++ .jobAccepted stream :: events →
    (∀ e ∈ events, ¬e.isAccepted) →
    EachStreamed (fun i after => leaving i after = some .acknowledged) events := by
  intro h
  obtain ⟨complete, accepted, once, streamed, resynced⟩ :
      (init.run resyncedJob).status.state = .complete ∧
      (init.run resyncedJob).trace =
        .jobAccepted (.open { reads := [], text := [] }) :: (init.run resyncedJob).trace.drop 1 ∧
      (∀ e ∈ (init.run resyncedJob).trace.drop 1, ¬e.isAccepted) ∧
      (init.run resyncedJob).trace.drop 1 =
        .handed .streamer "G28" 0 true :: (init.run resyncedJob).trace.drop 2 ∧
      leaving 0 ((init.run resyncedJob).trace.drop 2) = some .resynced := by decide +kernel
  have acknowledged := h resyncedJob [] _ _ complete accepted once [] "G28" 0 true _ streamed
  exact absurd (acknowledged.symm.trans resynced) (by decide)

end Service
end Deneb
