import DenebModel.Objects.FlowControl

namespace Deneb.FlowControl

open CString

variable {flow : FlowControl} {i j : Nat}

theorem slot_eq_getElem (h : i < flow.slots.length) : flow.slot i = flow.slots[i] := by
  simp [slot, h]

theorem slot_of_le (h : flowWindow ≤ i) : flow.slot i = {} := by
  simp [slot, flow.slots_length, h]

theorem slot_of_slots_eq {flow' : FlowControl} (h : flow'.slots = flow.slots) :
    flow'.slot i = flow.slot i := by
  simp [slot, h]

theorem slot_clearInflight : flow.clearInflight.slot i = {} := by
  simp [slot, clearInflight, List.getElem?_replicate]
  split <;> rfl

theorem slot_setSlot (s : Slot) :
    (flow.setSlot i s).slot j = if i = j ∧ i < flowWindow then s else flow.slot j := by
  by_cases hj : j < flowWindow
  case pos =>
    have := flow.slots_length
    simp only [slot, setSlot]
    grind
  case neg =>
    rw [slot_of_le (by omega), slot_of_le (by omega), if_neg (by omega)]

-- What `acknowledge_through` does to each slot.
def mark (sequence : UInt8) (includeSequence : Bool) (s : Slot) : Slot :=
  if isThrough sequence includeSequence s then { s with acknowledged := true } else s

theorem slot_acknowledgeThrough {sequence : UInt8} {includeSequence : Bool} :
    (flow.acknowledgeThrough sequence includeSequence).slot i =
      mark sequence includeSequence (flow.slot i) := by
  by_cases hi : i < flow.slots.length
  case pos => simp [slot, acknowledgeThrough, mark, hi]
  case neg =>
    have hw : flowWindow ≤ i := flow.slots_length ▸ Nat.not_lt.mp hi
    rw [slot_of_le hw, slot_of_le hw]
    simp [mark, isThrough, Slot.pending]

theorem findIdx?_slots_eq_some {p : Slot → Bool} (h : flow.slots.findIdx? p = some i) :
    i < flowWindow ∧ p (flow.slot i) ∧ ∀ j < i, ¬p (flow.slot j) := by
  obtain ⟨hi, hp, hlt⟩ := List.findIdx?_eq_some_iff_getElem.mp h
  refine ⟨flow.slots_length ▸ hi, slot_eq_getElem hi ▸ hp, fun j hj => ?_⟩
  rw [slot_eq_getElem (Nat.lt_trans hj hi)]
  exact hlt j hj

theorem findIdx?_slots_eq_none {p : Slot → Bool} (h : flow.slots.findIdx? p = none) :
    ∀ i < flowWindow, ¬p (flow.slot i) := by
  intro i hi
  have hl := flow.slots_length
  rw [slot_eq_getElem (hl ▸ hi)]
  simpa using List.findIdx?_eq_none_iff.mp h _ (List.getElem_mem (hl ▸ hi))

theorem slotForSequence_eq_some {sequence : UInt8} (h : flow.slotForSequence sequence = some i) :
    i < flowWindow ∧ ((flow.slot i).occupied ∧ (flow.slot i).sequence = sequence) ∧
    ∀ j < i, (flow.slot j).occupied → (flow.slot j).sequence ≠ sequence := by
  have ⟨hi, hp, hlt⟩ := findIdx?_slots_eq_some h
  refine ⟨hi, by simpa using hp, fun j hj ho => ?_⟩
  simpa [ho] using hlt j hj

theorem slotForSequence_ne_none {sequence : UInt8} (hi : i < flowWindow)
    (ho : (flow.slot i).occupied) (hs : (flow.slot i).sequence = sequence) :
    flow.slotForSequence sequence ≠ none := by
  intro h
  simpa [ho, hs] using findIdx?_slots_eq_none h i hi

theorem pendingSlotForSequence_eq_some {sequence : UInt8}
    (h : flow.pendingSlotForSequence sequence = some i) :
    i < flowWindow ∧ (flow.slot i).pending ∧ (flow.slot i).sequence = sequence := by
  unfold pendingSlotForSequence at h
  split at h
  case h_1 => contradiction
  case h_2 i' hi =>
    split at h <;> cases h
    have ⟨hlt, ho, _⟩ := slotForSequence_eq_some hi
    exact ⟨hlt, by simp_all [Slot.pending], ho.2⟩

theorem firstFreeSlot_eq_some (h : flow.firstFreeSlot = some i) :
    i < flowWindow ∧
    ((¬(flow.slot i).occupied ∧ ∀ j < i, (flow.slot j).occupied) ∨
     ((flow.slot i).acknowledged ∧ (∀ j < flowWindow, (flow.slot j).occupied) ∧
      ∀ j < i, ¬(flow.slot j).acknowledged)) := by
  unfold firstFreeSlot at h
  split at h
  case isTrue => contradiction
  case isFalse =>
    split at h
    case h_1 i' hi =>
      cases h
      have ⟨hlt, hp, hb⟩ := findIdx?_slots_eq_some hi
      exact ⟨hlt, .inl ⟨by simpa using hp, by simpa using hb⟩⟩
    case h_2 hn =>
      have ⟨hlt, hp, hb⟩ := findIdx?_slots_eq_some h
      exact ⟨hlt, .inr ⟨hp, by simpa using findIdx?_slots_eq_none hn, hb⟩⟩

-- What a successful `deneb_flow_prepare_packet` does.
theorem preparePacket_of_rc_zero {command : CString} {outSize : Nat}
    (h : (flow.preparePacket command outSize).rc = 0) :
    let p := flow.preparePacket command outSize
    flow.firstFreeSlot = some p.slot ∧
    MarlinPacket.encode flow.nextSequence command outSize = some p.packet ∧
    p.flow.nextSequence = sequenceAfter flow.nextSequence ∧
    ∀ j, p.flow.slot j = if p.slot = j then
      { sequence  := flow.nextSequence
        command   := command
        occupied  := true
        barrier   := commandIsBarrier command
        sendOrder := flow.sentCount } else flow.slot j := by
  unfold preparePacket at h ⊢
  split at h
  case h_1 => contradiction
  case h_2 i hi =>
    dsimp only at h
    split at h
    case h_1 => contradiction
    case h_2 packet hp =>
      have hl := MarlinPacket.length_le_of_encode hp
      simp only [hi, hp, fit_of_length_lt (Nat.lt_succ_of_le hl), maxGcodeLine]
      refine ⟨trivial, trivial, rfl, fun j => ?_⟩
      have hw := (firstFreeSlot_eq_some hi).1
      have hs := @slot_setSlot flow i j
      simp only [hw, and_true] at hs
      exact hs _

theorem sentCount_preparePacket {command : CString} {outSize : Nat}
    (h : (flow.preparePacket command outSize).rc = 0) :
    (flow.preparePacket command outSize).flow.sentCount = flow.sentCount + 1 := by
  unfold preparePacket at h ⊢
  split at h
  case h_1 => contradiction
  case h_2 i hi =>
    dsimp only at h
    split at h
    case h_1 => contradiction
    case h_2 packet hp => simp only [hi, hp, setSlot]

-- A packet that could not be prepared has used up a sequence at most.
theorem preparePacket_failed {command : CString} {outSize : Nat}
    (h : (flow.preparePacket command outSize).rc ≠ 0) :
    (flow.preparePacket command outSize).flow.slots = flow.slots ∧
    (flow.preparePacket command outSize).flow.nextSequence =
      (if flow.canSend then sequenceAfter flow.nextSequence else flow.nextSequence) ∧
    (flow.preparePacket command outSize).flow.sentCount = flow.sentCount := by
  revert h
  unfold preparePacket canSend
  split
  case h_1 hn => exact fun _ => ⟨rfl, by rw [hn]; rfl, rfl⟩
  case h_2 i hi =>
    dsimp only
    split
    case h_1 => exact fun _ => ⟨rfl, by rw [hi]; rfl, rfl⟩
    case h_2 => exact fun h => absurd rfl h

theorem slot_requestResend_of_ne (h : i ≠ j) : (flow.requestResend i).2.slot j = flow.slot j :=
  (slot_setSlot _).trans (if_neg (h ·.1))

theorem slot_requestResend :
    ∃ attempts, (flow.requestResend i).2.slot j = { flow.slot j with resendAttempts := attempts } := by
  by_cases h : i = j ∧ i < flowWindow
  case pos =>
    cases h.1
    refine ⟨(flow.slot i).resendAttempts + 1, ?_⟩
    exact (slot_setSlot _).trans (if_pos h)
  case neg =>
    refine ⟨(flow.slot j).resendAttempts, ?_⟩
    exact (slot_setSlot _).trans (if_neg h)

theorem pending_acknowledgeThrough {sequence : UInt8}
    {includeSequence : Bool}
    (h : ((flow.acknowledgeThrough sequence includeSequence).slot i).pending) :
    (flow.slot i).pending := by
  rw [slot_acknowledgeThrough, mark] at h
  split at h
  case isTrue  => simp [Slot.pending] at h
  case isFalse => exact h

theorem pending_requestResend
    (h : ((flow.requestResend i).2.slot j).pending) : (flow.slot j).pending := by
  have ⟨attempts, he⟩ := @slot_requestResend flow i j
  rw [he] at h
  exact h

-- A response acknowledges packets, and makes no packet pending.
theorem pending_handleResponse {line : CString}
    (h : ((flow.handleResponse line).2.1.slot i).pending) : (flow.slot i).pending := by
  unfold handleResponse at h
  split at h
  case h_1 => exact h
  case h_2 code seq freeSpace =>
    unfold handleSync at h
    dsimp only at h
    split at h
    case isTrue => exact h
    case isFalse =>
      split at h
      case isTrue =>
        split at h
        case h_1 => exact h
        case h_2 => exact pending_acknowledgeThrough h
      case isFalse =>
        split at h
        case h_1 => exact h
        case h_2 =>
          split at h
          case isTrue  => exact h
          case isFalse => exact pending_acknowledgeThrough (pending_requestResend h)
  case h_3 =>
    split at h
    case h_1 => exact h
    case h_2 =>
      split at h
      case isTrue =>
        unfold handleResendText at h
        split at h
        case isTrue => exact h
        case isFalse =>
          split at h
          case h_1 => exact h
          case h_2 =>
            split at h
            case h_1 => exact h
            case h_2 => exact pending_requestResend h
      case isFalse =>
        split at h
        case isTrue =>
          unfold handleOk at h
          dsimp only at h
          split at h
          case h_1 => exact h
          case h_2 j _ =>
            have hs : (flow.acknowledge j).slot i = _ := slot_setSlot _
            rw [hs] at h
            split at h
            case isTrue  => simp [Slot.pending] at h
            case isFalse => exact h
        case isFalse => split at h <;> exact h

end Deneb.FlowControl
