import DenebModel.Objects.Theorems.FlowControl
import DenebModel.Link.Basic
import Mathlib.Order.Interval.Finset.Nat

namespace Deneb

open FlowControl

-- The sequence of the packet number `n`, when the first packet has the sequence `start`.
def sequenceOf (start n : Nat) : UInt8 :=
  ((start + n) % sequenceModulo).toUInt8

section

variable {start n n' : Nat}

theorem sequenceOf_toNat : (sequenceOf start n).toNat = (start + n) % 255 := by
  simp only [sequenceOf, sequenceModulo, Nat.toUInt8, UInt8.toNat_ofNat']
  omega

theorem sequenceOf_inj (h : sequenceOf start n = sequenceOf start n') (hn : n < n' + 255)
    (hn' : n' < n + 255) : n = n' := by
  have h := congrArg UInt8.toNat h
  rw [sequenceOf_toNat, sequenceOf_toNat] at h
  omega

theorem sequenceAfter_sequenceOf :
    sequenceAfter (sequenceOf start n) = sequenceOf start (n + 1) := by
  apply UInt8.toNat_inj.mp
  have h : (sequenceOf start n + 1).toNat = (start + n) % 255 + 1 := by
    rw [UInt8.toNat_add, sequenceOf_toNat]
    simp
    omega
  rw [sequenceOf_toNat, sequenceAfter, h]
  split
  case isTrue hs =>
    simp [sequenceModulo] at hs ⊢
    omega
  case isFalse hs =>
    rw [h]
    simp only [sequenceModulo] at hs
    omega

theorem sequenceIsNotNewer_iff (hn : n' < n + 32) (hn' : n < n' + 32) :
    sequenceIsNotNewer (sequenceOf start n) (sequenceOf start n') ↔ n ≤ n' := by
  simp only [sequenceIsNotNewer, sequenceOf_toNat, sequenceModulo, flowWindow]
  rw [if_neg (by omega)]
  simp only [decide_eq_true_eq]
  split <;> omega

end

-- The flow control after packets for `sent` were prepared and those with a number below `base` were
-- acknowledged. The packet in slot `i` has the number `num i`.
structure Tracks (start : Nat) (num : Nat → Nat) (flow : FlowControl) (sent : List CString)
    (base : Nat) : Prop where
  next     : flow.nextSequence = sequenceOf start sent.length
  unused   : ∀ i, sent.length ≤ i → flow.slot i = {}
  occupied : ∀ i < flowWindow, i < sent.length → (flow.slot i).occupied
  command  : ∀ i < flowWindow, i < sent.length → sent[num i]? = some (flow.slot i).command
  sequence : ∀ i < flowWindow, i < sent.length → (flow.slot i).sequence = sequenceOf start (num i)
  acked    : ∀ i < flowWindow, i < sent.length → ((flow.slot i).acknowledged ↔ num i < base)
  covers   : ∀ n < sent.length, base ≤ n → ∃ i < flowWindow, i < sent.length ∧ num i = n
  inj      : ∀ i < flowWindow, i < sent.length → ∀ j < flowWindow, j < sent.length →
    num i = num j → i = j
  -- A slot is only taken when all slots before it wait for their acknowledgement.
  recent   : ∀ j < flowWindow, j < sent.length → base ≤ num j → ∀ i < j, num j < num i + flowWindow

namespace Tracks

variable {start base : Nat} {num : Nat → Nat} {flow flow' : FlowControl} {sent : List CString}
variable {i : Nat}

theorem num_lt (t : Tracks start num flow sent base) (hi : i < flowWindow) (hs : i < sent.length) :
    num i < sent.length :=
  List.getElem?_eq_some_iff.mp (t.command i hi hs) |>.1

theorem pending_iff (t : Tracks start num flow sent base) :
    (flow.slot i).pending ↔ i < flowWindow ∧ i < sent.length ∧ base ≤ num i := by
  by_cases hi : i < flowWindow ∧ i < sent.length
  case pos =>
    have ho := t.occupied i hi.1 hi.2
    have ha := t.acked i hi.1 hi.2
    simp only [Slot.pending, ho, hi, Bool.true_and, Bool.not_eq_true', true_and, ← Nat.not_lt, ← ha,
      Bool.not_eq_true]
  case neg =>
    have hd : flow.slot i = {} := by
      by_cases hw : i < flowWindow
      case pos => exact t.unused i (by omega)
      case neg => exact slot_of_le (by omega)
    have : (flow.slot i).pending = false := by rw [hd]; rfl
    grind

-- Only the fields of the slots that the relation reads matter.
theorem congr (t : Tracks start num flow sent base)
    (hn : flow'.nextSequence = flow.nextSequence)
    (hs : ∀ i, ∃ a, flow'.slot i = { flow.slot i with resendAttempts := a })
    (hd : ∀ i, ¬(flow.slot i).pending → flow'.slot i = flow.slot i) :
    Tracks start num flow' sent base where
  next := hn ▸ t.next
  unused i hi := by
    have hu := t.unused i hi
    rw [hd i (by simp [hu, Slot.pending]), hu]
  occupied i hw hl := by
    obtain ⟨a, h⟩ := hs i
    exact h ▸ t.occupied i hw hl
  command i hw hl := by
    obtain ⟨a, h⟩ := hs i
    exact h ▸ t.command i hw hl
  sequence i hw hl := by
    obtain ⟨a, h⟩ := hs i
    exact h ▸ t.sequence i hw hl
  acked i hw hl := by
    obtain ⟨a, h⟩ := hs i
    exact h ▸ t.acked i hw hl
  covers := t.covers
  inj := t.inj
  recent := t.recent

theorem of_slots_eq (t : Tracks start num flow sent base)
    (hn : flow'.nextSequence = flow.nextSequence) (hs : flow'.slots = flow.slots) :
    Tracks start num flow' sent base :=
  t.congr hn (fun _ => ⟨_, slot_of_slots_eq hs⟩) (fun _ _ => slot_of_slots_eq hs)

theorem requestResend (t : Tracks start num flow sent base) (hp : (flow.slot i).pending) :
    Tracks start num (flow.requestResend i).2 sent base := by
  refine t.congr rfl (fun j => slot_requestResend) (fun j hj => slot_requestResend_of_ne ?_)
  intro h
  exact hj (h ▸ hp)

-- Two numbers that both wait for their acknowledgement are less than a window apart.
theorem isThrough_iff (t : Tracks start num flow sent base) {n : Nat} {b : Bool}
    (hw : sent.length ≤ base + flowWindow) (hb : base ≤ n) (hn : n < sent.length) :
    isThrough (sequenceOf start n) b (flow.slot i) ↔
    (flow.slot i).pending ∧ num i < if b then n + 1 else n := by
  rw [isThrough, Bool.and_eq_true, and_congr_right_iff]
  intro hp
  obtain ⟨hi, hl, hp⟩ := t.pending_iff.mp hp
  have hlt := t.num_lt hi hl
  have window : flowWindow = 32 := rfl
  rw [t.sequence i hi hl]
  by_cases he : num i = n
  case pos => cases b <;> simp [he]
  case neg =>
    have hne : sequenceOf start (num i) ≠ sequenceOf start n := by
      intro h
      exact he <| sequenceOf_inj h (by omega) (by omega)
    have := @sequenceIsNotNewer_iff start (num i) n (by omega) (by omega)
    simp only [beq_iff_eq, hne, if_false, this]
    split <;> omega

theorem acknowledgeThrough (t : Tracks start num flow sent base) {n : Nat} {b : Bool}
    (hw : sent.length ≤ base + flowWindow) (hb : base ≤ n) (hn : n < sent.length) :
    Tracks start num (flow.acknowledgeThrough (sequenceOf start n) b) sent
      (if b then n + 1 else n) := by
  have hle : base ≤ if b then n + 1 else n := by split <;> omega
  have slots : ∀ i, _ := fun i => @slot_acknowledgeThrough flow i (sequenceOf start n) b
  simp only [mark, t.isThrough_iff hw hb hn] at slots
  generalize (if b then n + 1 else n) = base' at slots hle ⊢
  exact {
    next := t.next
    unused := by
      intro i hi
      rw [slots, if_neg, t.unused i hi]
      simp [t.unused i hi, Slot.pending]
    occupied := by
      intro i hi hl
      rw [slots]
      split <;> simp [t.occupied i hi hl]
    command := by
      intro i hi hl
      rw [slots]
      split <;> simp [t.command i hi hl]
    sequence := by
      intro i hi hl
      rw [slots]
      split <;> simp [t.sequence i hi hl]
    acked := by
      intro i hi hl
      have ha := t.acked i hi hl
      have hp := t.pending_iff (i := i)
      rw [slots]
      split <;> grind
    covers := fun n' h h' => t.covers n' h (hle.trans h')
    inj := t.inj
    recent := fun j hj hl h => t.recent j hj hl (hle.trans h)
  }

theorem length_lt (t : Tracks start num flow sent base) (hi : i < flowWindow)
    (ha : num i < base) : sent.length < base + flowWindow := by
  by_contra hc
  -- The numbers of a whole window would have to be in the slots other than `i`.
  have hsub : Finset.Ico base (base + flowWindow) ⊆
      ((Finset.range flowWindow).erase i).image num := by
    intro n hn
    have ⟨hb, hn⟩ := Finset.mem_Ico.mp hn
    have ⟨j, hj, _, hjn⟩ := t.covers n (by omega) hb
    have hne : j ≠ i := by
      intro h
      cases h
      omega
    exact Finset.mem_image.mpr ⟨j, Finset.mem_erase.mpr ⟨hne, Finset.mem_range.mpr hj⟩, hjn⟩
  have hcard := (Finset.card_le_card hsub).trans Finset.card_image_le
  rw [Finset.card_erase_of_mem (Finset.mem_range.mpr hi), Nat.card_Ico, Finset.card_range] at hcard
  omega

-- The slot of the next packet, and that the window has room for it.
theorem free_slot (t : Tracks start num flow sent base) (h : flow.firstFreeSlot = some i) :
    i < flowWindow ∧ sent.length < base + flowWindow ∧
    ((i = sent.length) ∨
     (flowWindow ≤ sent.length ∧ num i < base ∧ ∀ j < i, base ≤ num j)) := by
  have ⟨hi, h⟩ := firstFreeSlot_eq_some h
  rcases h with ⟨ho, hb⟩ | ⟨ha, ho, hb⟩
  case inl =>
    have hle : sent.length ≤ i := by
      by_contra hc
      exact ho <| t.occupied i hi (by omega)
    have hge : i ≤ sent.length := by
      by_contra hc
      have := hb sent.length (by omega)
      rw [t.unused _ le_rfl] at this
      contradiction
    exact ⟨hi, by omega, .inl <| le_antisymm hge hle⟩
  case inr =>
    have hl : flowWindow ≤ sent.length := by
      by_contra hc
      have := ho sent.length (by omega)
      rw [t.unused _ le_rfl] at this
      contradiction
    have ha := t.acked i hi (by omega) |>.mp ha
    refine ⟨hi, t.length_lt hi ha, .inr ⟨hl, ha, fun j hj => ?_⟩⟩
    have := t.acked j (by omega) (by omega) |>.not.mp (hb j hj)
    omega

theorem prepare (t : Tracks start num flow sent base) (hb : base ≤ sent.length)
    {command : CString} {outSize : Nat} (h : (flow.preparePacket command outSize).rc = 0) :
    sent.length < base + flowWindow ∧
    ∃ num, Tracks start num (flow.preparePacket command outSize).flow (sent ++ [command]) base := by
  have ⟨hf, _, hn, slots⟩ := preparePacket_of_rc_zero h
  generalize hp : flow.preparePacket command outSize = p at *
  have ⟨hi, hlt, free⟩ := t.free_slot hf
  refine ⟨hlt, fun j => if p.slot = j then sent.length else num j, ?_⟩
  have old : ∀ j < flowWindow, j < (sent ++ [command]).length → p.slot ≠ j → j < sent.length := by
    intro j hj hl hne
    simp only [List.length_append, List.length_singleton] at hl
    omega
  exact {
    next := by rw [hn, t.next, sequenceAfter_sequenceOf, List.length_append, List.length_singleton]
    unused := by
      intro j hj
      simp only [List.length_append, List.length_singleton] at hj
      rw [slots, if_neg (by omega), t.unused j (by omega)]
    occupied := by
      intro j hj hl
      rw [slots]
      split
      case isTrue      => rfl
      case isFalse hne => exact t.occupied j hj (old j hj hl hne)
    command := by
      intro j hj hl
      rw [slots]
      split
      case isTrue      => simp
      case isFalse hne =>
        have hl := old j hj hl hne
        rw [List.getElem?_append_left (t.num_lt hj hl)]
        exact t.command j hj hl
    sequence := by
      intro j hj hl
      rw [slots]
      split
      case isTrue      => exact t.next
      case isFalse hne => exact t.sequence j hj (old j hj hl hne)
    acked := by
      intro j hj hl
      rw [slots]
      split
      case isTrue      => simp; omega
      case isFalse hne => exact t.acked j hj (old j hj hl hne)
    covers := by
      intro n hl hb
      by_cases he : n = sent.length
      case pos => exact ⟨p.slot, hi, by simp; omega, by simp [he]⟩
      case neg =>
        simp only [List.length_append, List.length_singleton] at hl
        have ⟨j, hj, hl, hn⟩ := t.covers n (by omega) hb
        have hne : p.slot ≠ j := by
          intro h
          cases h
          omega
        exact ⟨j, hj, by simp; omega, by simp [hne, hn]⟩
    inj := by
      intro i hi hl j hj hl' he
      have hi' := old i hi hl
      have hj' := old j hj hl'
      have := t.num_lt hi
      have := t.num_lt hj
      have := t.inj i hi
      grind
    recent := by
      intro j hj hl hb i hij
      have hj' := old j hj hl
      have := t.num_lt hj
      have := t.recent j hj
      grind
  }

-- A pending slot is found by its sequence, although older slots may still hold the same one.
theorem slotForSequence_of_pending (t : Tracks start num flow sent base)
    (hw : sent.length ≤ base + flowWindow) (hp : (flow.slot i).pending) :
    flow.slotForSequence (flow.slot i).sequence = some i := by
  have ⟨hi, hl, hb⟩ := t.pending_iff.mp hp
  have ho := t.occupied i hi hl
  have window : flowWindow = 32 := rfl
  cases hf : flow.slotForSequence (flow.slot i).sequence
  case none => exact absurd hf <| slotForSequence_ne_none hi ho rfl
  case some j =>
    have ⟨hj, ⟨hoj, hs⟩, hlt⟩ := slotForSequence_eq_some hf
    have hji : j ≤ i := by
      by_contra hc
      exact hlt i (by omega) ho rfl
    have hjl : j < sent.length := by omega
    rw [t.sequence i hi hl, t.sequence j hj hjl] at hs
    by_cases hne : j = i
    case pos => rw [hne]
    case neg =>
      have := t.recent i hi hl hb j (by omega)
      have := t.num_lt hj hjl
      exact congrArg some <| t.inj j hj hjl i hi hl <| sequenceOf_inj hs (by omega) (by omega)

end Tracks
end Deneb
