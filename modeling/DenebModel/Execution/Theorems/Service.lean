import DenebModel.Execution.Service
import DenebModel.Objects.Theorems.FlowControl

namespace Deneb

open CString FlowControl

-- A packet for a new command took the slot `i`, which held no pending packet.
structure TakesSlot (flow : FlowControl) (i : Nat) (flow' : FlowControl) : Prop where
  lt      : i < flowWindow
  free    : ¬(flow.slot i).pending
  taken   : (flow'.slot i).pending
  others  : ∀ j, j ≠ i → flow'.slot j = flow.slot j

theorem FlowControl.preparePacket_takesSlot {flow : FlowControl} {command : CString} {outSize : Nat}
    (h : (flow.preparePacket command outSize).rc = 0) :
    TakesSlot flow (flow.preparePacket command outSize).slot
      (flow.preparePacket command outSize).flow := by
  have ⟨hf, _, _, slots⟩ := preparePacket_of_rc_zero h
  have ⟨hi, hfree⟩ := firstFreeSlot_eq_some hf
  refine ⟨hi, ?_, ?_, ?_⟩
  case refine_1 =>
    rcases hfree with ⟨ho, _⟩ | ⟨ha, _⟩
    case inl => simp_all [Slot.pending]
    case inr => simp_all [Slot.pending]
  case refine_2 => rw [slots, if_pos rfl]; rfl
  case refine_3 =>
    intro j hj
    rw [slots, if_neg hj.symm]

theorem FlowControl.preparePacket_of_rc_ne_zero {flow : FlowControl} {command : CString}
    {outSize : Nat} (h : (flow.preparePacket command outSize).rc ≠ 0) :
    (flow.preparePacket command outSize).flow.slots = flow.slots ∧
    ((flow.preparePacket command outSize).rc = -2 ∧
      (flow.preparePacket command outSize).flow = flow ∨
     (flow.preparePacket command outSize).rc = -1 ∧
      MarlinPacket.encode flow.nextSequence command outSize = none) := by
  unfold preparePacket at h ⊢
  split at h
  case h_1    => simp
  case h_2 i hf =>
    dsimp only at h
    split at h
    case h_1 he => simp [he]
    case h_2    => contradiction

namespace Service

variable {s s₁ : Service} {p : Producer} {command : CString} {rc : Int}

theorem send_ok (h : s.send p command = (0, s₁)) :
    ∃ flow serial i, s₁ = { s with
      flow   := flow
      serial := serial
      trace  := s.trace ++ [.handed p command i s.jobActive] } ∧ TakesSlot s.flow i flow := by
  unfold send MotionSender.sendGcode at h
  split at h
  case isTrue => simp [MotionSender.invalid] at h
  case isFalse =>
    dsimp only at h
    split at h
    case isTrue => split at h <;> simp [MotionSender.invalid, MotionSender.flowFull] at h
    case isFalse hp =>
      have takes := preparePacket_takesSlot (Decidable.not_not.mp hp)
      split at h
      case isTrue =>
        cases h
        exact ⟨_, _, _, rfl, takes⟩
      case isFalse =>
        have hrc := congrArg Prod.fst h
        have hs := congrArg Prod.snd h
        dsimp only at hrc hs
        rw [if_neg (by rw [hrc]; decide)] at hs
        exact ⟨_, _, _, hs.symm, takes⟩

theorem send_of_flowFull (h : s.send p command = (MotionSender.flowFull, s₁)) : s₁ = s := by
  unfold send MotionSender.sendGcode at h
  split at h
  case isTrue => simp [MotionSender.invalid, MotionSender.flowFull] at h
  case isFalse =>
    dsimp only at h
    split at h
    case isTrue hp =>
      have ⟨_, hr⟩ := preparePacket_of_rc_ne_zero hp
      rcases hr with ⟨hr, hf⟩ | ⟨hr, _⟩
      case inl =>
        have hs := congrArg Prod.snd h
        dsimp only at hs
        rw [← hs, hf, List.append_nil]
      case inr =>
        simp [hr, MotionSender.invalid, MotionSender.flowFull] at h
    case isFalse hp =>
      split at h
      case isTrue  => simp [MotionSender.flowFull] at h
      case isFalse =>
        have hrc := congrArg Prod.fst h
        dsimp only at hrc
        split at hrc <;> simp [MotionSender.flowFull, MotionSender.serialError] at hrc

theorem preparePacket_rc_ne (h : s.flow.canSend) {outSize : Nat} :
    (s.flow.preparePacket command outSize).rc ≠ -2 := by
  unfold FlowControl.preparePacket
  split
  case h_1 hn => simp [FlowControl.canSend, hn] at h
  case h_2 =>
    dsimp only
    split
    case h_1 => simp
    case h_2 => simp

theorem send_rc_ne_flowFull (h : s.flow.canSend) :
    (s.send p command).1 ≠ MotionSender.flowFull := by
  have hp := @preparePacket_rc_ne s command h MotionSender.packetSize
  unfold send MotionSender.sendGcode
  split
  case isTrue => simp [MotionSender.invalid, MotionSender.flowFull]
  case isFalse =>
    dsimp only
    split
    case isTrue => simp [MotionSender.invalid, MotionSender.flowFull]
    case isFalse =>
      split
      case isTrue => simp [MotionSender.flowFull]
      case isFalse =>
        dsimp only
        split <;> simp [MotionSender.serialError, MotionSender.flowFull]

-- A command that is too long for a packet, or empty.
def Unsendable (command : CString) : Prop :=
  command = [] ∨ 255 < command.length

theorem send_fail (h : s.send p command = (rc, s₁)) (hz : rc ≠ 0) (hf : rc ≠ MotionSender.flowFull) :
    ∃ flow serial events, s₁ = { s with
      flow   := flow
      serial := serial
      trace  := s.trace ++ events } ∧
    (events = [] ∧ Unsendable command ∧ flow.slots = s.flow.slots ∨
     ∃ i, events = [.handed p command i s.jobActive, .writeFailed] ∧ TakesSlot s.flow i flow) := by
  unfold send MotionSender.sendGcode at h
  split at h
  case isTrue he =>
    cases h
    exact ⟨_, _, _, rfl, .inl ⟨rfl, .inl (by simpa using he), rfl⟩⟩
  case isFalse =>
    dsimp only at h
    split at h
    case isTrue hp =>
      have ⟨hs, hr⟩ := preparePacket_of_rc_ne_zero hp
      rcases hr with ⟨hr, _⟩ | ⟨hr, he⟩
      case inl =>
        cases h
        simp [hr] at hf
      case inr =>
        cases h
        refine ⟨_, _, _, rfl, .inl ⟨rfl, .inr ?_, hs⟩⟩
        by_contra hc
        have := @MarlinPacket.encode_isSome s.flow.nextSequence command MotionSender.packetSize
          (Nat.not_lt.mp hc) (by decide)
        simp [he] at this
    case isFalse hp =>
      have takes := preparePacket_takesSlot (Decidable.not_not.mp hp)
      split at h
      case isTrue =>
        cases h
        contradiction
      case isFalse =>
        have hrc := congrArg Prod.fst h
        have hs := congrArg Prod.snd h
        dsimp only at hrc hs
        split at hrc
        case isTrue  => exact absurd hrc.symm hz
        case isFalse hw =>
          rw [if_pos (by simp [hw])] at hs
          exact ⟨_, _, _, hs.symm, .inr ⟨_, rfl, takes⟩⟩

end Service
end Deneb
