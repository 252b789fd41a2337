import DenebModel.Primitives.History
import DenebModel.Execution.Channel
import DenebModel.Execution.Theorems.Traffic

namespace Deneb

open CString Relation FlowControl History

variable {flow : FlowControl} {events recorded : List Event} {line : CString}

theorem handleSync_rc_ne_three {code sequence freeSpace : UInt8} :
    (flow.handleSync code sequence freeSpace).1 ≠ 3 := by
  unfold handleSync requestResend
  dsimp only
  split
  case isTrue => simp
  case isFalse =>
    split
    case isTrue => split <;> simp
    case isFalse =>
      split
      case h_1 => simp
      case h_2 =>
        split
        case isTrue => simp
        case isFalse => split <;> simp

theorem handleResendText_rc_ne_three : (flow.handleResendText line).1 ≠ 3 := by
  unfold handleResendText requestResend
  dsimp only
  split
  case isTrue => simp
  case isFalse =>
    split
    case h_1 => simp
    case h_2 =>
      split
      case h_1 => simp
      case h_2 => split <;> simp

theorem reportsDesync_of_rc (h : (flow.handleResponse line).1 = 3) : reportsDesync line := by
  unfold handleResponse at h
  unfold reportsDesync
  split at h
  case h_1 => simp at h
  case h_2 => exact absurd h handleSync_rc_ne_three
  case h_3 hs =>
    split at h
    case h_1 hp => rw [hs, hp]; rfl
    case h_2 =>
      split at h
      case isTrue => exact absurd h handleResendText_rc_ne_three
      case isFalse =>
        split at h
        case isTrue => simp at h
        case isFalse => split at h <;> simp at h

theorem replay_append : replay flow (events ++ recorded) = replay (replay flow events) recorded :=
  List.foldl_append

theorem replay_unseen (h : ∀ e ∈ recorded, e.isUnseen) : replay flow recorded = flow := by
  induction recorded
  case nil => rfl
  case cons e recorded ih =>
    have rest := ih fun e he => h e (List.mem_cons_of_mem _ he)
    have first := h e List.mem_cons_self
    cases e
    case handed | line => contradiction
    all_goals exact rest

namespace Traffic

variable {t₀ t t' : Traffic}

-- While nothing but calm events are recorded, the flow control of an active job is what the events
-- since then make of it.
structure Held (t₀ : Traffic) (events : List Event) (t : Traffic) : Prop where
  abort  : ¬t.abort
  finish : t.finish → t.job
  flow   : t.job → t.flow = replay t₀.flow events

-- Nothing is in flight when the job is done.
def DoneEmpty (flow : FlowControl) (before : List Event) (e : Event) : Prop :=
  e = .policyDone .finish → (∀ e ∈ before, e.isCalm) → (replay flow before).inflight = 0

structure Replays (t₀ : Traffic) (events : List Event) (t : Traffic) : Prop where
  trace : t.trace = t₀.trace ++ events
  held  : (∀ e ∈ events, e.isCalm) → Held t₀ events t
  done  : Preceded (DoneEmpty t₀.flow) events

theorem Replays.record (inv : Replays t₀ events t) (ht : t'.trace = t.trace ++ recorded)
    (hn : ∀ e ∈ recorded, e ≠ .policyDone .finish)
    (hh : (∀ e ∈ recorded, e.isCalm) → Held t₀ events t → Held t₀ (events ++ recorded) t') :
    Replays t₀ (events ++ recorded) t' := by
  constructor
  case trace => rw [ht, inv.trace, List.append_assoc]
  case held =>
    intro calm
    have calm := List.forall_mem_append.mp calm
    exact hh calm.2 (inv.held calm.1)
  case done =>
    refine preceded_append.mpr ⟨inv.done, .of_forall fun e he before hd => absurd hd (hn e he)⟩

-- What is recorded is not calm.
theorem Replays.disturbed (inv : Replays t₀ events t) (ht : t'.trace = t.trace ++ recorded)
    (hn : ∀ e ∈ recorded, e ≠ .policyDone .finish) (hd : ∃ e ∈ recorded, ¬e.isCalm) :
    Replays t₀ (events ++ recorded) t' := by
  obtain ⟨e, he, hc⟩ := hd
  exact inv.record ht hn fun calm _ => absurd (calm e he) hc

-- What is recorded says nothing to the flow control.
theorem Held.unseen (held : Held t₀ events t) (hu : ∀ e ∈ recorded, e.isUnseen) (ha : t'.abort = t.abort)
    (hf : t'.finish → t.finish) (hj : t'.job = t.job) (flow : t'.flow = t.flow) :
    Held t₀ (events ++ recorded) t' := by
  refine ⟨by rw [ha]; exact held.abort, fun h => by rw [hj]; exact held.finish (hf h), fun h => ?_⟩
  rw [replay_append, replay_unseen hu, flow]
  exact held.flow (hj ▸ h)

-- The job is over.
theorem Held.over (held : Held t₀ events t) (ha : t'.abort = t.abort) (hf : ¬t'.finish) (hj : ¬t'.job) :
    Held t₀ (events ++ recorded) t' :=
  ⟨by rw [ha]; exact held.abort, (absurd · hf), (absurd · hj)⟩

theorem Step.replays (h : Step t t') (inv : Replays t₀ events t) :
    ∃ recorded, Replays t₀ (events ++ recorded) t' := by
  cases h
  case note event he =>
    refine ⟨[event], inv.record rfl ?_ fun calm held => held.unseen ?_ rfl id rfl rfl⟩
    case refine_1 => obtain rfl | rfl | rfl := he <;> simp
    case refine_2 => obtain rfl | rfl | rfl := he <;> simp [Event.isUnseen]
  case send p command failed ha hp =>
    refine ⟨.handed p command (t.prepare command).slot t.job :: if failed then [.writeFailed] else [],
      inv.record rfl ?_ fun calm held => ⟨held.abort, held.finish, fun hj => ?_⟩⟩
    case refine_1 => cases failed <;> simp
    case refine_2 =>
      rw [replay_append, ← held.flow hj]
      cases failed <;> rfl
  case refuse kind command hp =>
    exact ⟨[.policyFailed kind], inv.disturbed rfl (by simp) (by simp [Event.isCalm, Event.isBreak])⟩
  case fail kind =>
    exact ⟨[.policyFailed kind], inv.disturbed rfl (by simp) (by simp [Event.isCalm, Event.isBreak])⟩
  case line text hr =>
    refine ⟨_, inv.record rfl ?_ fun calm held => ⟨held.abort, held.finish, fun hj => ?_⟩⟩
    case refine_1 => simp
    case refine_2 =>
      rw [replay_append, ← held.flow hj]
      exact (replay_unseen (List.forall_mem_map.mpr fun _ _ => rfl)).symm
  case desync text hr =>
    refine ⟨.line text :: ((Service.acknowledgedSlots t.flow (t.respond text).flow).map .acknowledged ++
      (t.respond text).flow.pendingSlots.map .resynced), inv.disturbed ?_ ?_ ⟨_, List.mem_cons_self, ?_⟩⟩
    case refine_1 => simp [resync, respond]
    case refine_2 =>
      refine List.forall_mem_cons.mpr ⟨by simp, List.forall_mem_append.mpr ⟨?_, ?_⟩⟩
      all_goals exact List.forall_mem_map.mpr (by simp)
    case refine_3 =>
      have reported : reportsDesync text := reportsDesync_of_rc hr
      simp [Event.isCalm, reported]
  case abort =>
    exact ⟨[.aborted], inv.disturbed rfl (by simp) (by simp [Event.isCalm, Event.isBreak])⟩
  case abortUnready =>
    refine ⟨.aborted :: t.flow.pendingSlots.map .cleared, inv.disturbed ?_ (by simp)
      ⟨_, List.mem_cons_self, Bool.false_ne_true⟩⟩
    simp [clear]
  case abortDone ha =>
    refine ⟨.policyDone .abort :: t.flow.pendingSlots.map .cleared, inv.record ?_ (by simp)
      fun _ held => absurd ha held.abort⟩
    simp [clear]
  case endJob =>
    refine ⟨(if t.finish then [.policyFailed .finish] else []) ++ t.flow.pendingSlots.map .cleared,
      inv.record ?_ ?_ fun _ held => held.over rfl Bool.false_ne_true Bool.false_ne_true⟩
    case refine_1 => simp [clear]
    case refine_2 => split <;> simp
  case beginFinish hj =>
    refine ⟨[], inv.record (List.append_nil _).symm (List.forall_mem_nil _)
      fun _ held => ⟨held.abort, fun _ => hj, fun h => ?_⟩⟩
    rw [List.append_nil]
    exact held.flow h
  case finishDone hf hi =>
    refine ⟨.policyDone .finish :: t.flow.pendingSlots.map .cleared, ?_, ?_, ?_⟩
    case refine_1 => simp [clear, inv.trace]
    case refine_2 =>
      intro calm
      exact (inv.held (List.forall_mem_append.mp calm).1).over rfl Bool.false_ne_true Bool.false_ne_true
    case refine_3 =>
      refine preceded_append.mpr ⟨inv.done, preceded_cons.mpr ⟨fun _ calm => ?_, .of_forall ?_⟩⟩
      case refine_1 =>
        rw [List.append_nil] at calm ⊢
        have held := inv.held calm
        rw [← held.flow (held.finish hf)]
        exact hi
      case refine_2 =>
        intro e he before hd
        obtain ⟨i, _, rfl⟩ := List.mem_map.mp he
        contradiction
  case accept stream hj =>
    refine ⟨t.flow.pendingSlots.map .cleared ++ [.jobAccepted stream], inv.disturbed ?_ ?_
      ⟨.jobAccepted stream, List.mem_append_right _ List.mem_cons_self, Bool.false_ne_true⟩⟩
    case refine_1 => simp [clear]
    case refine_2 => exact List.forall_mem_append.mpr ⟨List.forall_mem_map.mpr (by simp), by simp⟩
  case queue =>
    refine ⟨[], inv.record (List.append_nil _).symm (List.forall_mem_nil _) fun _ held => ?_⟩
    exact held.unseen (List.forall_mem_nil _) rfl id rfl rfl

theorem Steps.replays (h : Steps t t') (inv : Replays t₀ events t) :
    ∃ recorded, Replays t₀ (events ++ recorded) t' := by
  induction h
  case refl => exact ⟨[], by rwa [List.append_nil]⟩
  case tail step ih =>
    obtain ⟨first, inv⟩ := ih
    obtain ⟨second, inv⟩ := step.replays inv
    exact ⟨first ++ second, by rwa [← List.append_assoc]⟩

end Traffic
end Deneb
