import DenebModel.Primitives.History
import DenebModel.Execution.Theorems.Ledger
import DenebModel.Execution.Theorems.Traffic
import DenebModel.Link.Theorems.FlowRun
import Mathlib.Data.List.Perm.Basic

namespace Deneb

open CString Relation FlowControl History

-- A command that waits for its acknowledgement, and the slot of its packet.
structure Waiting where
  slot    : Nat
  command : CString

-- How an event changes the commands that wait for an acknowledgement.
def Event.shift (window : List Waiting) : Event → List Waiting
  | handed _ command slot _                    => window ++ [⟨slot, command⟩]
  | acknowledged slot | resynced slot | cleared slot => window.filter (·.slot ≠ slot)
  | _                                          => window

-- Events that say nothing about the packets.
def Event.isInert : Event → Bool
  | handed .. | acknowledged _ | resynced _ | cleared _ => false
  | _                                                   => true

-- The commands that wait for an acknowledgement after the events, the oldest one first.
def window (events : List Event) : List Waiting :=
  events.foldl Event.shift []

-- The most commands that wait after a producer has handed one over.
def Producer.room : Producer → Nat
  | .statusProbe => flowWindow
  | _            => streamWindow

-- The probes of the status and the macros do not wait for a barrier.
def Producer.minds : Producer → Bool
  | .statusProbe | .macroRunner => false
  | _                           => true

-- What holds of the commands that wait when another one is handed over: its slot is free, there is room
-- for it, and none of them is a barrier.
def WindowKept (before : List Event) : Event → Prop
  | .handed producer _ slot _ =>
    (∀ waiting ∈ window before, waiting.slot ≠ slot) ∧ (window before).length < producer.room ∧
    (producer.minds → ∀ waiting ∈ window before, ¬commandIsBarrier waiting.command)
  | _ => True

variable {events recorded : List Event} {flow flow' : FlowControl}

theorem window_append : window (events ++ recorded) = recorded.foldl Event.shift (window events) :=
  List.foldl_append

theorem foldl_shift_inert {w : List Waiting} (h : ∀ e ∈ recorded, e.isInert) :
    recorded.foldl Event.shift w = w := by
  induction recorded
  case nil => rfl
  case cons e recorded ih =>
    have rest := ih fun e he => h e (List.mem_cons_of_mem _ he)
    have first := h e List.mem_cons_self
    cases e
    case handed | acknowledged | resynced | cleared => contradiction
    all_goals exact rest

-- Events that tell of packets that left the window.
theorem foldl_shift_map {event : Nat → Event} {slots : List Nat} {w : List Waiting}
    (he : ∀ w i, (event i).shift w = w.filter (·.slot ≠ i)) :
    (slots.map event).foldl Event.shift w = w.filter (·.slot ∉ slots) := by
  induction slots generalizing w
  case nil => simp
  case cons i slots ih =>
    rw [List.map_cons, List.foldl_cons, ih, he, List.filter_filter]
    refine List.filter_congr fun waiting _ => ?_
    simp [Bool.and_comm]

-- The pending slots are the ones of the commands that wait, and they know their barriers.
structure Holds (flow : FlowControl) (w : List Waiting) : Prop where
  nodup   : (w.map Waiting.slot).Nodup
  pending : ∀ i, (flow.slot i).pending ↔ ∃ waiting ∈ w, waiting.slot = i
  barrier : ∀ waiting ∈ w, (flow.slot waiting.slot).barrier = commandIsBarrier waiting.command

theorem pendingSlots_length : flow.pendingSlots.length = flow.inflight := by
  have slots : flow.slots = (List.range flowWindow).map flow.slot := by
    refine List.ext_getElem (by simp [flow.slots_length]) fun i hi _ => ?_
    rw [List.getElem_map, List.getElem_range, slot_eq_getElem hi]
  rw [inflight, slots, List.countP_map, List.countP_eq_length_filter]
  rfl

theorem Holds.length (holds : Holds flow w) : w.length = flow.inflight := by
  rw [← pendingSlots_length, ← List.length_map Waiting.slot]
  refine List.Perm.length_eq ((List.perm_ext_iff_of_nodup holds.nodup ?_).mpr fun i => ?_)
  case refine_1 => exact List.nodup_range.filter _
  case refine_2 => rw [Service.mem_pendingSlots, holds.pending, List.mem_map]

theorem Holds.empty (h : flow.slots = List.replicate flowWindow {}) : Holds flow [] := by
  refine ⟨List.nodup_nil, fun i => ?_, List.forall_mem_nil _⟩
  have none : Service.NonePending { flow := flow } := Service.nonePending_clear h
  simpa using none i

-- Packets leave the window, and the others stay as they are.
theorem Holds.leave (holds : Holds flow w) {slots : List Nat}
    (pending : ∀ i, (flow'.slot i).pending ↔ (flow.slot i).pending ∧ i ∉ slots)
    (barrier : ∀ i, (flow'.slot i).pending → (flow'.slot i).barrier = (flow.slot i).barrier) :
    Holds flow' (w.filter (·.slot ∉ slots)) := by
  have still (i : Nat) : (flow'.slot i).pending ↔ ∃ waiting ∈ w.filter (·.slot ∉ slots), waiting.slot = i := by
    rw [pending, holds.pending]
    simp only [List.mem_filter, decide_eq_true_eq]
    constructor
    case mp =>
      rintro ⟨⟨waiting, hw, rfl⟩, hn⟩
      exact ⟨waiting, ⟨hw, hn⟩, rfl⟩
    case mpr =>
      rintro ⟨waiting, ⟨hw, hn⟩, rfl⟩
      exact ⟨⟨waiting, hw, rfl⟩, hn⟩
  refine ⟨holds.nodup.sublist (List.filter_sublist.map _), still, fun waiting hw => ?_⟩
  rw [barrier _ ((still _).mpr ⟨waiting, hw, rfl⟩)]
  exact holds.barrier waiting (List.mem_filter.mp hw).1

theorem Holds.hand (holds : Holds flow w) {command : CString} {outSize : Nat}
    (h : (flow.preparePacket command outSize).rc = 0) :
    Holds (flow.preparePacket command outSize).flow
      (w ++ [⟨(flow.preparePacket command outSize).slot, command⟩]) := by
  have takes := preparePacket_takesSlot h
  have ⟨_, _, _, slots⟩ := preparePacket_of_rc_zero h
  generalize (flow.preparePacket command outSize).flow = flow' at takes slots
  generalize (flow.preparePacket command outSize).slot = n at takes slots
  have free : ∀ waiting ∈ w, waiting.slot ≠ n := by
    rintro waiting hw rfl
    exact takes.free ((holds.pending _).mpr ⟨waiting, hw, rfl⟩)
  refine ⟨?_, fun i => ?_, ?_⟩
  case refine_1 =>
    rw [List.map_append, List.nodup_append]
    refine ⟨holds.nodup, List.nodup_singleton _, ?_⟩
    intro i hi j hj
    obtain ⟨waiting, hw, rfl⟩ := List.mem_map.mp hi
    rw [List.mem_singleton.mp hj]
    exact free waiting hw
  case refine_2 =>
    by_cases hi : i = n
    case pos => simp [hi, takes.taken]
    case neg => simp [takes.others i hi, holds.pending, Ne.symm hi]
  case refine_3 =>
    refine List.forall_mem_append.mpr ⟨fun waiting hw => ?_, ?_⟩
    case refine_1 => rw [takes.others _ (free waiting hw)]; exact holds.barrier waiting hw
    case refine_2 => simp [slots]

theorem Holds.not_barrier (holds : Holds flow w) (hb : ¬flow.hasPendingBarrier) :
    ∀ waiting ∈ w, ¬commandIsBarrier waiting.command := by
  intro waiting hw hc
  have pending := (holds.pending _).mpr ⟨waiting, hw, rfl⟩
  have barrier := holds.barrier waiting hw
  have lt : waiting.slot < flow.slots.length := by
    by_contra hn
    rw [slot_of_le (flow.slots_length ▸ Nat.not_lt.mp hn)] at pending
    contradiction
  rw [slot_eq_getElem lt] at pending barrier
  refine hb (List.any_eq_true.mpr ⟨_, List.getElem_mem lt, ?_⟩)
  rw [pending, barrier, hc]
  rfl

namespace Traffic

variable {t t' : Traffic}

structure InWindow (t : Traffic) : Prop where
  holds : Holds t.flow (window t.trace)
  kept  : Preceded WindowKept t.trace

-- Nothing is handed over.
theorem InWindow.record (inv : InWindow t) (ht : t'.trace = t.trace ++ recorded)
    (hn : ∀ e ∈ recorded, ¬e.isHanded) (holds : Holds t'.flow (recorded.foldl Event.shift (window t.trace))) :
    InWindow t' := by
  constructor
  case holds => rw [ht, window_append]; exact holds
  case kept =>
    rw [ht]
    refine preceded_append.mpr ⟨inv.kept, .of_forall fun e he before => ?_⟩
    cases e
    case handed => exact absurd rfl (hn _ he)
    all_goals trivial

-- The packets are not touched.
theorem InWindow.note (inv : InWindow t) (recorded : List Event) (ht : t'.trace = t.trace ++ recorded)
    (hn : ∀ e ∈ recorded, e.isInert) (slots : t'.flow.slots = t.flow.slots) : InWindow t' := by
  refine inv.record ht (fun e he => ?_) ?_
  case refine_1 =>
    have := hn e he
    cases e
    case handed => contradiction
    all_goals exact Bool.false_ne_true
  case refine_2 =>
    rw [foldl_shift_inert hn]
    have same (i : Nat) : t'.flow.slot i = t.flow.slot i := slot_of_slots_eq slots
    exact ⟨inv.holds.nodup, fun i => by rw [same, inv.holds.pending],
      fun waiting hw => by rw [same, inv.holds.barrier waiting hw]⟩

-- All packets are dropped.
theorem InWindow.clear (inv : InWindow t) (recorded : List Event)
    (ht : t'.trace = t.trace ++ recorded ++ t.flow.pendingSlots.map .cleared)
    (hn : ∀ e ∈ recorded, e.isInert) (flow : t'.flow = t.flow.clearInflight) : InWindow t' := by
  rw [List.append_assoc] at ht
  refine inv.record ht (List.forall_mem_append.mpr ⟨fun e he => ?_, ?_⟩) ?_
  case refine_1 =>
    have := hn e he
    cases e
    case handed => contradiction
    all_goals exact Bool.false_ne_true
  case refine_2 => exact List.forall_mem_map.mpr fun _ _ => Bool.false_ne_true
  case refine_3 =>
    rw [List.foldl_append, foldl_shift_inert hn, foldl_shift_map fun _ _ => rfl, flow]
    refine inv.holds.leave (fun i => ?_) fun i hp => ?_
    all_goals have none := Service.nonePending_clear (s := { flow := t.flow.clearInflight }) rfl i
    case refine_1 => simp [none, Service.mem_pendingSlots]
    case refine_2 => exact absurd hp none

theorem inflight_lt {outSize : Nat} {command : CString} (h : (flow.preparePacket command outSize).rc = 0) :
    flow.inflight < flowWindow := by
  have takes := preparePacket_takesSlot h
  generalize (flow.preparePacket command outSize).slot = i at takes
  rw [← pendingSlots_length, pendingSlots]
  have fewer : (List.range flowWindow).filter (fun i => (flow.slot i).pending) ≠ List.range flowWindow := by
    rw [Ne, List.filter_eq_self]
    exact fun all => takes.free (all i (List.mem_range.mpr takes.lt))
  have short := List.length_filter_le (fun i => (flow.slot i).pending) (List.range flowWindow)
  rw [List.length_range] at short
  refine Nat.lt_of_le_of_ne short fun he => fewer (List.filter_sublist.eq_of_length ?_)
  rw [he, List.length_range]

theorem room_of_admits {p : Producer} {w : List Waiting} (holds : Holds flow w) (ha : flow.admits p)
    {command : CString} {outSize : Nat} (hp : (flow.preparePacket command outSize).rc = 0) :
    w.length < p.room ∧ (p.minds → ∀ waiting ∈ w, ¬commandIsBarrier waiting.command) := by
  rw [holds.length]
  have admitted (h : !(flow.hasPendingBarrier || !flow.canSend || streamWindow ≤ flow.inflight)) :
      flow.inflight < streamWindow ∧ ∀ waiting ∈ w, ¬commandIsBarrier waiting.command := by
    simp only [Bool.not_eq_true', Bool.or_eq_false_iff, decide_eq_false_iff_not, Nat.not_le] at h
    exact ⟨h.2, holds.not_barrier (by simp [h.1.1])⟩
  cases p
  case statusProbe => exact ⟨inflight_lt hp, (absurd · Bool.false_ne_true)⟩
  case macroRunner =>
    have := Bool.and_eq_true_iff.mp ha
    exact ⟨of_decide_eq_true this.2, (absurd · Bool.false_ne_true)⟩
  all_goals exact ⟨(admitted ha).1, fun _ => (admitted ha).2⟩

theorem InWindow.hand (inv : InWindow t) {p : Producer} {command : CString} {job : Bool} {tail : List Event}
    (ha : t.flow.admits p) (hp : (t.prepare command).rc = 0) (htail : ∀ e ∈ tail, e = .writeFailed)
    (flow : t'.flow = (t.prepare command).flow)
    (ht : t'.trace = t.trace ++ .handed p command (t.prepare command).slot job :: tail) : InWindow t' := by
  have room := room_of_admits inv.holds ha hp
  have takes := preparePacket_takesSlot hp
  constructor
  case holds =>
    have inert : ∀ e ∈ tail, e.isInert := fun e he => by rw [htail e he]; rfl
    rw [ht, window_append, List.foldl_cons, foldl_shift_inert inert, flow]
    exact inv.holds.hand hp
  case kept =>
    rw [ht]
    refine preceded_append.mpr ⟨inv.kept, preceded_cons.mpr ⟨?_, .of_forall fun e he before => ?_⟩⟩
    case refine_1 =>
      rw [List.append_nil]
      refine ⟨?_, room⟩
      rintro waiting hw he
      exact takes.free ((inv.holds.pending _).mpr ⟨waiting, hw, he⟩)
    case refine_2 => rw [htail e he]; trivial

-- A response acknowledges packets.
theorem InWindow.respond (inv : InWindow t) (text : CString) : InWindow (t.respond text) := by
  refine inv.record rfl ?_ ?_
  case refine_1 =>
    exact List.forall_mem_cons.mpr ⟨Bool.false_ne_true, List.forall_mem_map.mpr fun _ _ => Bool.false_ne_true⟩
  case refine_2 =>
    rw [List.foldl_cons, foldl_shift_map fun _ _ => rfl]
    refine inv.holds.leave (fun i => ?_) fun i _ => ?_
    case refine_1 =>
      have mono : ((t.respond text).flow.slot i).pending → (t.flow.slot i).pending := pending_handleResponse
      simp only [Service.acknowledgedSlots, List.mem_filter, Service.mem_pendingSlots, Bool.not_eq_true',
        not_and, Bool.not_eq_false]
      exact ⟨fun h => ⟨mono h, fun _ => h⟩, fun h => h.2 h.1⟩
    case refine_2 =>
      obtain ⟨acknowledged, attempts, he⟩ := (@handleResponse_change t.flow text).packet i
      have same : (t.respond text).flow.slot i = _ := he
      rw [same]

theorem InWindow.resync (inv : InWindow t) : InWindow t.resync := by
  refine inv.record rfl (List.forall_mem_map.mpr fun _ _ => Bool.false_ne_true) ?_
  rw [foldl_shift_map fun _ _ => rfl]
  refine inv.holds.leave (fun i => ?_) fun i hp => ?_
  all_goals have none := Service.nonePending_clear (s := { flow := t.resync.flow }) rfl i
  case refine_1 => simp [none, Service.mem_pendingSlots]
  case refine_2 => exact absurd hp none

theorem Step.inWindow (h : Step t t') (inv : InWindow t) : InWindow t' := by
  cases h
  case note event he =>
    exact inv.note [event] rfl (by obtain rfl | rfl | rfl := he <;> simp [Event.isInert]) rfl
  case send p command failed ha hp => exact inv.hand ha hp (by cases failed <;> simp) rfl rfl
  case refuse kind command hp =>
    refine inv.note [.policyFailed kind] rfl (by simp [Event.isInert]) ?_
    have unsent : (t.flow.preparePacket command MotionSender.packetSize).rc = -1 := hp
    exact (preparePacket_of_rc_ne_zero (by rw [unsent]; decide)).1
  case fail kind     => exact inv.note [.policyFailed kind] rfl (by simp [Event.isInert]) rfl
  case line text _   => exact inv.respond text
  case desync text _ => exact (inv.respond text).resync
  case abort         => exact inv.note [.aborted] rfl (by simp [Event.isInert]) rfl
  case abortUnready  => exact inv.clear [.aborted] rfl (by simp [Event.isInert]) rfl
  case abortDone     => exact inv.clear [.policyDone .abort] rfl (by simp [Event.isInert]) rfl
  case endJob        => exact inv.clear _ rfl (by split <;> simp [Event.isInert]) rfl
  case beginFinish   => exact inv.note [] (List.append_nil _).symm (List.forall_mem_nil _) rfl
  case finishDone    => exact inv.clear [.policyDone .finish] rfl (by simp [Event.isInert]) rfl
  case accept stream _ =>
    have cleared : InWindow (t.clear []) := inv.clear [] rfl (List.forall_mem_nil _) rfl
    exact cleared.note [.jobAccepted stream] rfl (by simp [Event.isInert]) rfl
  case queue => exact inv.note [] (List.append_nil _).symm (List.forall_mem_nil _) rfl

theorem Steps.inWindow (h : Steps t t') (inv : InWindow t) : InWindow t' := by
  induction h
  case refl         => exact inv
  case tail step ih => exact step.inWindow ih

end Traffic

namespace Service

-- In every run, a command is handed over only when its slot is free, fewer commands wait for their
-- acknowledgements than its producer allows, and none of them is a barrier that the producer minds.
theorem window_kept (ops : List Op) :
    (window (init.run ops).trace).length = (init.run ops).flow.inflight ∧
    Preceded WindowKept (init.run ops).trace := by
  have idle : Traffic.InWindow init.traffic := ⟨.empty rfl, preceded_nil⟩
  have inv := (@run_moves init ops (List.forall_mem_nil _)).inWindow idle
  exact ⟨inv.holds.length, inv.kept⟩

end Service
end Deneb
