import DenebModel.Execution.Theorems.Replay
import DenebModel.Execution.Theorems.Whole
import DenebModel.Link.Theorems.Agreement

namespace Deneb

open CString FlowControl History Labelled

variable {events recorded : List Event} {link link' : Link}

theorem handedCommands_append :
    handedCommands (events ++ recorded) = handedCommands events ++ handedCommands recorded :=
  List.filterMap_append

-- The commands of a part of the events are handed over by a part of them.
theorem exists_prefix_of_handed {commands : List CString} (h : commands <+: handedCommands events) :
    ∃ done, done <+: events ∧ commands = handedCommands done := by
  induction events using List.reverseRec
  case nil => exact ⟨[], List.prefix_rfl, List.prefix_nil.mp h⟩
  case append_singleton events e ih =>
    have earlier (h : commands <+: handedCommands events) :
        ∃ done, done <+: events ++ [e] ∧ commands = handedCommands done := by
      obtain ⟨done, hd, he⟩ := ih h
      exact ⟨done, hd.trans (List.prefix_append _ _), he⟩
    rw [handedCommands_append] at h
    cases hc : e.command
    case none =>
      have nothing : handedCommands [e] = [] := by simp [handedCommands, hc]
      rw [nothing, List.append_nil] at h
      exact earlier h
    case some command =>
      have one : handedCommands [e] = [command] := by simp [handedCommands, hc]
      rw [one] at h
      obtain whole | part := List.prefix_concat_iff.mp h
      case inl => exact ⟨events ++ [e], List.prefix_rfl, by rw [whole, handedCommands_append, one]⟩
      case inr => exact earlier part

namespace Link

theorem Initial.prepared_eq (init : Initial link) : link.prepared = [] :=
  init.2.2.2.1

theorem Carries.steps (h : Carries link events link') : Steps link link' := by
  induction h
  case start => exact .refl
  case outside step _ _ ih => exact ih.tail step
  case handed hr ih => exact ih.tail (.prepare _ _ hr)
  case line writes _ hl ih => exact ih.tail (.deliver writes hl)
  case unseen ih => exact ih

theorem Carries.prepared (h : Carries link events link') :
    link'.prepared = link.prepared ++ handedCommands events := by
  induction h
  case start => exact (List.append_nil _).symm
  case outside hp ih => rw [hp, ih]
  case handed ih => rw [handedCommands_append, ← List.append_assoc, ← ih]; rfl
  case line ih => rw [handedCommands_append, ← List.append_assoc, ← ih]; exact (List.append_nil _).symm
  case unseen e _ he ih =>
    rw [handedCommands_append, ← List.append_assoc, ← ih]
    cases e
    case handed => contradiction
    all_goals exact (List.append_nil _).symm

theorem Carries.flow (h : Carries link events link') : link'.flow = replay link.flow events := by
  induction h
  case start => rfl
  case outside hf _ ih => rw [hf, ih]
  case handed ih => rw [replay_append, ← ih]; rfl
  case line ih => rw [replay_append, ← ih]; rfl
  case unseen e _ he ih => rw [replay_append, ← ih, replay_unseen (by simpa using he)]

-- No line that the controller sends, damaged or not, reports a desync.
theorem Carries.calm (init : Initial link) (h : Carries link events link')
    (unbroken : ∀ e ∈ events, ¬e.isBreak) : ∀ e ∈ events, e.isCalm := by
  induction h
  case start => exact List.forall_mem_nil _
  case outside ih => exact ih unbroken
  case handed ih =>
    exact List.forall_mem_append.mpr ⟨ih (List.forall_mem_append.mp unbroken).1, by simp [Event.isCalm, Event.isBreak]⟩
  case line s text rest writes carries hl ih =>
    refine List.forall_mem_append.mpr ⟨ih (List.forall_mem_append.mp unbroken).1, ?_⟩
    obtain ⟨abstract, _, sim⟩ := init.simulates.steps inv_nil carries.steps
    have lines := sim.lines
    rw [hl] at lines
    obtain ⟨reply, replies, first, _, _⟩ := List.forall₂_cons_left_iff.mp lines
    have sent : parseSyncPacket text ≠ .none := by
      cases reply
      case ack   => obtain ⟨freeSpace, hs⟩ := first; simp [hs]
      case nak   => obtain ⟨freeSpace, hs⟩ := first; simp [hs]
      case noise => obtain hs | ⟨sequence, freeSpace, hs⟩ := first <;> simp [hs]
    simp [Event.isCalm, reportsDesync, sent]
  case unseen e _ he ih =>
    have unbroken := List.forall_mem_append.mp unbroken
    refine List.forall_mem_append.mpr ⟨ih unbroken.1, List.forall_mem_singleton.mpr ?_⟩
    have quiet := unbroken.2 e List.mem_cons_self
    cases e
    case line => contradiction
    all_goals simpa [Event.isCalm] using quiet

-- Nothing waits for its acknowledgement, so all that was prepared is executed.
theorem executed_of_settled (init : Initial link) (h : Steps link link')
    (none : link'.flow.inflight = 0) : link'.executed = link'.prepared := by
  have ⟨s, es, sim⟩ := init.simulates.steps inv_nil h
  have inv := inv_nil.steps es
  obtain ⟨num, tracks⟩ := sim.tracks
  have all : s.sent.length ≤ s.base := by
    by_contra hc
    obtain ⟨i, hi, hs, hn⟩ := tracks.covers s.base (Nat.not_le.mp hc) le_rfl
    have pending := tracks.pending_iff.mpr ⟨hi, hs, hn.ge⟩
    exact Service.NonePending.of_inflight (s := { flow := link'.flow }) none i pending
  rw [← sim.executed, ← sim.sent]
  exact inv.in_order.eq_of_length_le (all.trans inv.base_le)

-- The controller executes the commands in the order in which they were handed over.
theorem Carries.executed (init : Initial link) (h : Carries link events link') :
    ∃ done, done <+: events ∧ link'.executed = handedCommands done := by
  have ⟨s, es, sim⟩ := init.simulates.steps inv_nil h.steps
  have order := (inv_nil.steps es).in_order
  rw [sim.executed, sim.sent, h.prepared, init.prepared_eq, List.nil_append] at order
  exact exists_prefix_of_handed order

theorem Carries.executed_all (init : Initial link) (h : Carries link events link')
    (none : (replay link.flow events).inflight = 0) : link'.executed = handedCommands events := by
  rw [executed_of_settled init h.steps (by rw [h.flow]; exact none), h.prepared, init.prepared_eq, List.nil_append]

theorem Carries.receiveAll (h : Carries link events link') (freeSpace : UInt8) :
    Carries link events (link'.receiveAll freeSpace) := by
  unfold Link.receiveAll
  generalize hp : link'.toController = packets
  induction packets generalizing link'
  case nil => exact h
  case cons packet rest ih =>
    have tail : link'.toController.tail = rest := by rw [hp]; rfl
    rw [List.foldl_cons, tail]
    have taken : (link'.receive packet rest freeSpace).toController = rest ∧
        (link'.receive packet rest freeSpace).flow = link'.flow ∧
        (link'.receive packet rest freeSpace).prepared = link'.prepared := by
      unfold receive receive.refuse
      split
      case h_1 => split <;> exact ⟨rfl, rfl, rfl⟩
      case h_2 => exact ⟨rfl, rfl, rfl⟩
    exact ih (h.outside (.receive freeSpace hp) taken.2.1 taken.2.2) taken.1

-- A link that loses nothing carries the events.
theorem Carries.serve (h : Carries link events link') {freeSpace : UInt8} {served : Link}
    (hs : serve freeSpace recorded link' = some served) : Carries link (events ++ recorded) served := by
  induction recorded generalizing link' events
  case nil =>
    cases hs
    rwa [List.append_nil]
  case cons e recorded ih =>
    have step {link'' : Link} (h : Carries link (events ++ [e]) link'')
        (hs : Link.serve freeSpace recorded link'' = some served) :
        Carries link (events ++ e :: recorded) served := by
      have := ih h hs
      rwa [List.append_assoc] at this
    cases e
    case handed producer command slot job =>
      simp only [Link.serve, Option.ite_none_right_eq_some] at hs
      exact step ((h.handed producer command slot job hs.1).receiveAll freeSpace) hs.2
    case line text =>
      simp only [Link.serve, Option.ite_none_right_eq_some, List.head?_eq_some_iff] at hs
      obtain ⟨⟨rest, hl⟩, hs⟩ := hs
      rw [hl, List.tail_cons] at hs
      exact step ((h.line [] hl).receiveAll freeSpace) hs
    all_goals exact step (h.unseen _ rfl) hs

theorem carries_of_serve {freeSpace : UInt8} (h : serve freeSpace events link = some link') :
    Carries link events link' := by
  have served := Carries.start.serve h
  rwa [List.nil_append] at served

end Link

namespace Service

variable {s : Service} {ops later : List Op} {cmd : JobCommand} {env : SerialEnv} {latency : UInt32}
variable {events after : List Event} {link link' : Link}

-- What an accepted job begins with.
theorem accepted_start (idle : ¬s.jobActive) (active : (s.accept cmd).2.jobActive) :
    ¬(s.accept cmd).2.abortCleanup.pending ∧ ¬(s.accept cmd).2.finishCleanup.pending ∧
    ∃ before file, (s.accept cmd).2.trace = before ++ [.jobAccepted (.open file)] := by
  unfold accept at active ⊢
  split at active
  case isTrue => exact absurd active idle
  case isFalse hf =>
    rw [if_neg hf]
    split at active
    case isTrue => exact absurd active idle
    case isFalse hb =>
      rw [if_neg hb]
      split at active
      case h_1 => exact absurd active idle
      case h_2 file _ =>
        dsimp only at active ⊢
        split at active
        case h_1 => exact absurd active idle
        case h_2 =>
          have ⟨timer, total, left, he⟩ :=
            @applyMetadata_eq ({ s with jobStream := .open file }.resetForJob cmd) cmd.printTime
          unfold startJob
          rw [he]
          exact ⟨Bool.false_ne_true, Bool.false_ne_true,
            s.trace ++ s.flow.pendingSlots.map .cleared, file, rfl⟩

theorem jobCommand_start (idle : ¬s.jobActive)
    (active : (s.exec (.command (.job cmd) env latency)).jobActive) :
    ¬(s.exec (.command (.job cmd) env latency)).abortCleanup.pending ∧
    ¬(s.exec (.command (.job cmd) env latency)).finishCleanup.pending ∧
    ∃ before file, (s.exec (.command (.job cmd) env latency)).trace = before ++ [.jobAccepted (.open file)] :=
  @accepted_start (s.connect env) cmd idle active

-- What the flow control does from the acceptance of a job on.
theorem replays_later (idle : ¬s.jobActive) (fits : s.QueueFits)
    (active : (s.exec (.command (.job cmd) env latency)).jobActive) :
    let s := s.exec (.command (.job cmd) env latency)
    Traffic.Replays s.traffic (s.events later) (s.run later).traffic := by
  have ⟨abort, finish, _⟩ := jobCommand_start idle active
  have fits := (exec_moves fits (.command (.job cmd) env latency)).queueFits fits
  generalize s.exec (.command (.job cmd) env latency) = s at *
  have begins : Traffic.Replays s.traffic [] s.traffic :=
    ⟨(List.append_nil _).symm, fun _ => ⟨abort, fun h => absurd h finish, fun _ => rfl⟩, preceded_nil⟩
  obtain ⟨recorded, replays⟩ := (@run_moves s later fits).replays begins
  rw [List.nil_append] at replays
  have same : s.trace ++ recorded = s.trace ++ s.events later := by
    rw [← run_trace]
    exact replays.trace.symm
  rw [List.append_cancel_left same] at replays
  exact replays

-- A job was accepted after the first calls.
structure Accepts (ops : List Op) (cmd : JobCommand) (env : SerialEnv) (latency : UInt32) (s : Service) :
    Prop where
  exec   : (init.run ops).exec (.command (.job cmd) env latency) = s
  idle   : ¬(init.run ops).jobActive
  active : s.jobActive

theorem Accepts.replays (h : Accepts ops cmd env latency s) :
    Traffic.Replays s.traffic (s.events later) (s.run later).traffic := by
  have active := h.active
  rw [← h.exec] at active ⊢
  exact replays_later h.idle run_queueFits active

theorem Accepts.trace (h : Accepts ops cmd env latency s) :
    ∃ before file, s.trace = before ++ [.jobAccepted (.open file)] := by
  have active := h.active
  rw [← h.exec] at active ⊢
  exact (jobCommand_start h.idle active).2.2

theorem Accepts.run (h : Accepts ops cmd env latency s) :
    s.run later = init.run (ops ++ .command (.job cmd) env latency :: later) := by
  rw [← h.exec, Service.run, Service.run, Service.run, List.foldl_append, List.foldl_cons]

-- However the links between them lose and damage packets and lines, the controller has executed the
-- commands that were handed over since a job was accepted up to one of them, in their order and once each,
-- and those of the streamer among them are a prefix of what is to be done for the job. Until the job ends
-- or something is given up, the host's side of the links is the service's own flow control.
theorem job_delivered (h : Accepts ops cmd env latency s) (init : Link.Initial link)
    (same : link.flow = s.flow) (carries : link.Carries (s.events later) link')
    (last : ∀ e ∈ s.events later, ¬e.isAccepted) :
    ∃ before file done lines stream', s.trace = before ++ [.jobAccepted (.open file)] ∧
      done <+: s.events later ∧ link'.executed = handedCommands done ∧
      GcodeStream.Emits (.open file) lines stream' ∧
      marks (upTo Event.isWriteFailed done) <+: (GcodeStream.open file).plan lines ∧
      ((∀ e ∈ s.events later, ¬e.isBreak) → (s.run later).jobActive → link'.flow = (s.run later).flow) := by
  obtain ⟨before, file, ht⟩ := h.trace
  obtain ⟨done, hd, executed⟩ := carries.executed init
  have recorded : (Service.init.run (ops ++ .command (.job cmd) env latency :: later)).trace =
      before ++ .jobAccepted (.open file) :: s.events later := by
    rw [← h.run, run_trace, ht, List.append_assoc]
    rfl
  have handed := (run_worked.handed _ (recorded ▸ jobRecord_since last)).good
  obtain ⟨lines, stream', emits, planned⟩ := handed
  refine ⟨before, file, done, lines, stream', ht, hd, executed, emits, ?_, fun unbroken active => ?_⟩
  case refine_1 =>
    have part : upTo Event.isWriteFailed done <+: upTo Event.isWriteFailed (s.events later) := by
      obtain ⟨rest, hr⟩ := hd
      rw [← hr]
      by_cases hn : ∀ e ∈ done, ¬e.isWriteFailed
      case pos => rw [upTo_append_of_none hn, upTo_of_none hn]; exact List.prefix_append _ _
      case neg => rw [upTo_append_of_some hn]
    exact (part.filterMap Event.mark).trans planned
  case refine_2 =>
    have calm := carries.calm init unbroken
    rw [carries.flow, same]
    exact ((h.replays.held calm).flow active).symm

def moveJob : JobCommand where
  file    := "a.gcode"
  jobFile := some { reads := ("G1 X1\n" : CString).map some, text := [] }

def moveAccepted : Service :=
  (init.run [.openMotion true]).exec (.command (.job moveJob) {} 0)

-- A quiet link from the acceptance of the job on.
def moveLink : Link where
  flow         := moveAccepted.flow
  prepared     := []
  toController := []
  expected     := 0
  executed     := []
  toHost       := []

theorem moveJob_accepts : Accepts [.openMotion true] moveJob {} 0 moveAccepted :=
  ⟨rfl, by decide +kernel, by decide +kernel⟩

theorem moveLink_initial : Link.Initial moveLink :=
  ⟨by decide +kernel, by decide +kernel, by decide +kernel, rfl, rfl, rfl, rfl⟩

-- The first packet is lost.
theorem moveJob_delivered : ∃ link',
    moveLink.Carries (moveAccepted.events [.pollJob {} {}]) link' ∧ link'.toController = [] ∧
    ∃ before file done lines stream', moveAccepted.trace = before ++ [.jobAccepted (.open file)] ∧
      done <+: moveAccepted.events [.pollJob {} {}] ∧ link'.executed = handedCommands done ∧
      GcodeStream.Emits (.open file) lines stream' ∧
      marks (upTo Event.isWriteFailed done) <+: (GcodeStream.open file).plan lines ∧
      ((∀ e ∈ moveAccepted.events [.pollJob {} {}], ¬e.isBreak) →
        (moveAccepted.run [.pollJob {} {}]).jobActive →
        link'.flow = (moveAccepted.run [.pollJob {} {}]).flow) := by
  have events : moveAccepted.events [.pollJob {} {}] = [.handed .streamer "G28" 0 true] := by decide +kernel
  have prepared : (moveLink.flow.preparePacket "G28" MotionSender.packetSize).rc = 0 := by decide +kernel
  have carries : moveLink.Carries (moveAccepted.events [.pollJob {} {}])
      { moveLink.hand "G28" with toController := [] } := by
    rw [events]
    have handed := Link.Carries.start.handed .streamer "G28" 0 true prepared
    exact handed.outside (.losePacket [] _ [] rfl) rfl rfl
  have last : ∀ e ∈ moveAccepted.events [.pollJob {} {}], ¬e.isAccepted := by
    rw [events]
    decide
  exact ⟨_, carries, rfl, job_delivered moveJob_accepts moveLink_initial rfl carries last⟩

-- When the job is done, the controller has executed every command that was handed over since it was
-- accepted. If no write failed, those of the streamer are all that is to be done for the job.
theorem job_delivered_whole (h : Accepts ops cmd env latency s) (init : Link.Initial link)
    (same : link.flow = s.flow) (hd : s.events later = events ++ .policyDone .finish :: after)
    (carries : link.Carries events link') (unbroken : ∀ e ∈ events, ¬e.isBreak)
    (written : ∀ e ∈ events, ¬e.isWriteFailed) :
    link'.executed = handedCommands events ∧
    ∃ before file lines stream' buffer, s.trace = before ++ [.jobAccepted (.open file)] ∧
      GcodeStream.Emits (.open file) lines stream' ∧ (stream'.next buffer).1 = 0 ∧
      marks events = (GcodeStream.open file).plan lines := by
  obtain ⟨before, file, ht⟩ := h.trace
  have calm := carries.calm init unbroken
  have none : (replay link.flow events).inflight = 0 := by
    rw [same]
    exact h.replays.done events _ after hd rfl calm
  refine ⟨carries.executed_all init none, before, file, ?_⟩
  have recorded : (Service.init.run (ops ++ .command (.job cmd) env latency :: later)).trace =
      (before ++ .jobAccepted (.open file) :: events) ++ .policyDone .finish :: after := by
    rw [← h.run, run_trace, ht, hd, List.append_assoc, List.append_assoc]
    rfl
  have unaccepted : ∀ e ∈ events, ¬e.isAccepted := by
    intro e he ha
    have := unbroken e he
    cases e
    case jobAccepted => exact this rfl
    all_goals contradiction
  obtain ⟨lines, stream', buffer, emits, ended, done⟩ :=
    run_jobWhole _ _ _ recorded rfl _ (jobRecord_since unaccepted) rfl written
  exact ⟨lines, stream', buffer, ht, emits, ended, done⟩

-- Polls of a job while the controller acknowledges so many packets in each round, from one sequence on.
def acknowledgedRounds (first : Nat) : List Nat → List Op
  | []              => []
  | count :: counts =>
    .pollJob {} {} ::
    .pollMotion (.ofLines ((List.range' first count).map fun n => syncLine 111 n.toUInt8 8)) ::
    acknowledgedRounds (first + count) counts

def moveRounds : List Op :=
  acknowledgedRounds 0 [1, 4, 0, 0, 3, 3, 1, 1, 0, 2, 1, 0, 1, 1, 2, 1, 1, 4, 1]

-- What is recorded before the job is done.
def moveEvents : List Event :=
  (moveAccepted.events moveRounds).takeWhile (· ≠ .policyDone .finish)

theorem moveJob_delivered_whole : ∃ events after link',
    moveAccepted.events moveRounds = events ++ .policyDone .finish :: after ∧
    moveLink.Carries events link' ∧ link'.executed = handedCommands events ∧
    ∃ before file lines stream' buffer, moveAccepted.trace = before ++ [.jobAccepted (.open file)] ∧
      GcodeStream.Emits (.open file) lines stream' ∧ (stream'.next buffer).1 = 0 ∧
      marks events = (GcodeStream.open file).plan lines := by
  obtain ⟨split, served, quiet⟩ : moveAccepted.events moveRounds =
        moveEvents ++ .policyDone .finish :: (moveAccepted.events moveRounds).drop (moveEvents.length + 1) ∧
      (Link.serve 8 moveEvents moveLink).isSome ∧
      ∀ e ∈ moveEvents, ¬e.isBreak ∧ ¬e.isWriteFailed := by decide +kernel
  obtain ⟨link', served⟩ := Option.isSome_iff_exists.mp served
  have carries := Link.carries_of_serve served
  exact ⟨moveEvents, _, link', split, carries, job_delivered_whole moveJob_accepts moveLink_initial rfl split
    carries (fun e he => (quiet e he).1) fun e he => (quiet e he).2⟩

end Service
end Deneb
