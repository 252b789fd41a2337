import DenebModel.Objects.MotionSender
import DenebModel.Objects.Theorems.FlowControl
import Mathlib.Data.Finset.Card

namespace Deneb

-- The blocks are written one after the other, up to the first write that fails.
def SerialTransport.writeBlocks (serial : SerialTransport) :
    List (List UInt8) → Int × SerialTransport
  | []              => (0, serial)
  | block :: blocks =>
    let (ok, serial) := serial.writeAll block
    if ok then serial.writeBlocks blocks else (MotionSender.serialError, serial)

namespace MotionSender

variable {flow : FlowControl} {serial : SerialTransport} {emitted : List Nat} {b i rounds : Nat}

-- A pending slot that was not emitted yet.
def IsLeft (flow : FlowControl) (emitted : List Nat) (i : Nat) : Prop :=
  (flow.slot i).pending ∧ i ∉ emitted

theorem IsLeft.lt_flowWindow (h : IsLeft flow emitted i) : i < flowWindow := by
  by_contra hi
  have hp := h.1
  rw [FlowControl.slot_of_le (Nat.not_lt.mp hi)] at hp
  exact Bool.false_ne_true hp

theorem not_isLeft_iff : ¬IsLeft flow emitted i ↔ !(flow.slot i).pending || emitted.contains i := by
  simp only [IsLeft, Bool.or_eq_true, Bool.not_eq_true', List.contains_iff_mem]
  grind

-- What the inner loop knows after it has seen the slots `is`.
theorem better_foldl (is : List Nat) (best : Option Nat) :
    match is.foldl (bestPending.better flow emitted) best with
    | none   => best = none ∧ ∀ i ∈ is, ¬IsLeft flow emitted i
    | some b =>
      (best = some b ∨ IsLeft flow emitted b) ∧
      (∀ c, best = some c → (flow.slot b).sendOrder ≤ (flow.slot c).sendOrder) ∧
      ∀ i ∈ is, IsLeft flow emitted i → (flow.slot b).sendOrder ≤ (flow.slot i).sendOrder := by
  induction is generalizing best
  case nil => cases best <;> simp
  case cons i is ih =>
    rw [List.foldl_cons]
    have step := ih (bestPending.better flow emitted best i)
    by_cases hi : IsLeft flow emitted i
    case neg =>
      have same : bestPending.better flow emitted best i = best :=
        if_pos (not_isLeft_iff.mp hi)
      rw [same] at step ⊢
      split
      case h_1 he =>
        rw [he] at step
        exact ⟨step.1, List.forall_mem_cons.mpr ⟨hi, step.2⟩⟩
      case h_2 b he =>
        rw [he] at step
        exact ⟨step.1, step.2.1, List.forall_mem_cons.mpr ⟨fun h => absurd h hi, step.2.2⟩⟩
    case pos =>
      have hn : ¬(!(flow.slot i).pending || emitted.contains i) := fun h => not_isLeft_iff.mpr h hi
      -- The better one of the best slot so far and this one.
      have ⟨c, hc, left, le, le'⟩ : ∃ c, bestPending.better flow emitted best i = some c ∧
          (best = some c ∨ IsLeft flow emitted c) ∧
          (∀ d, best = some d → (flow.slot c).sendOrder ≤ (flow.slot d).sendOrder) ∧
          (flow.slot c).sendOrder ≤ (flow.slot i).sendOrder := by
        unfold bestPending.better
        rw [if_neg hn]
        cases best
        case none => exact ⟨i, rfl, .inr hi, nofun, UInt32.le_refl _⟩
        case some d =>
          dsimp only
          split
          case isTrue hlt =>
            refine ⟨i, rfl, .inr hi, fun _ h => ?_, UInt32.le_refl _⟩
            cases h
            exact UInt32.le_of_lt hlt
          case isFalse hlt =>
            refine ⟨d, rfl, .inl rfl, fun _ h => ?_, UInt32.not_lt.mp hlt⟩
            cases h
            exact UInt32.le_refl _
      rw [hc] at step ⊢
      split
      case h_1 he =>
        rw [he] at step
        exact absurd step.1 nofun
      case h_2 b he =>
        rw [he] at step
        have ⟨hb, hle, hall⟩ := step
        have hle := hle c rfl
        refine ⟨?_, fun d hd => UInt32.le_trans hle (le d hd), ?_⟩
        case refine_1 =>
          cases hb
          case inl h => cases h; exact left
          case inr h => exact .inr h
        case refine_2 =>
          exact List.forall_mem_cons.mpr ⟨fun _ => UInt32.le_trans hle le', hall⟩

theorem bestPending_eq_none (h : bestPending flow emitted = none) : ¬IsLeft flow emitted i := by
  intro hi
  have spec := @better_foldl flow emitted (List.range flowWindow) none
  rw [bestPending] at h
  rw [h] at spec
  exact spec.2 i (List.mem_range.mpr hi.lt_flowWindow) hi

-- The inner loop finds the packet that was sent first.
theorem bestPending_eq_some (h : bestPending flow emitted = some b) :
    IsLeft flow emitted b ∧
    ∀ i, IsLeft flow emitted i → (flow.slot b).sendOrder ≤ (flow.slot i).sendOrder := by
  have spec := @better_foldl flow emitted (List.range flowWindow) none
  rw [bestPending] at h
  rw [h] at spec
  refine ⟨spec.1.resolve_left nofun, fun i hi => ?_⟩
  exact spec.2.2 i (List.mem_range.mpr hi.lt_flowWindow) hi

-- The slots that the outer loop emits.
def pendingOrder (flow : FlowControl) : Nat → List Nat → List Nat
  | 0, _                => []
  | rounds + 1, emitted =>
    match bestPending flow emitted with
    | none      => []
    | some best => best :: pendingOrder flow rounds (best :: emitted)

theorem isLeft_cons : IsLeft flow (b :: emitted) i ↔ i ≠ b ∧ IsLeft flow emitted i := by
  simp only [IsLeft, List.mem_cons, not_or]
  grind

theorem isLeft_of_mem_pendingOrder (h : i ∈ pendingOrder flow rounds emitted) :
    IsLeft flow emitted i := by
  induction rounds generalizing emitted
  case zero => contradiction
  case succ rounds ih =>
    rw [pendingOrder] at h
    split at h
    case h_1 => contradiction
    case h_2 best hb =>
      cases h
      case head => exact (bestPending_eq_some hb).1
      case tail h => exact (isLeft_cons.mp (ih h)).2

open Classical in
-- With a round for each slot that is left no slot is forgotten.
theorem mem_pendingOrder (hi : IsLeft flow emitted i)
    (hr : ((Finset.range flowWindow).filter (IsLeft flow emitted)).card ≤ rounds) :
    i ∈ pendingOrder flow rounds emitted := by
  have mem {j : Nat} {emitted : List Nat} (hj : IsLeft flow emitted j) :
      j ∈ (Finset.range flowWindow).filter (IsLeft flow emitted) :=
    Finset.mem_filter.mpr ⟨Finset.mem_range.mpr hj.lt_flowWindow, hj⟩
  induction rounds generalizing emitted
  case zero =>
    have := Finset.card_pos.mpr ⟨i, mem hi⟩
    omega
  case succ rounds ih =>
    rw [pendingOrder]
    split
    case h_1 hb => exact absurd hi (bestPending_eq_none hb)
    case h_2 best hb =>
      by_cases he : i = best
      case pos => exact he ▸ List.mem_cons_self
      case neg =>
        refine List.mem_cons_of_mem _ (ih (isLeft_cons.mpr ⟨he, hi⟩) ?_)
        -- The slot that was emitted is not left any more.
        have fewer : (Finset.range flowWindow).filter (IsLeft flow (best :: emitted)) ⊆
            ((Finset.range flowWindow).filter (IsLeft flow emitted)).erase best := by
          intro j hj
          have ⟨_, hj⟩ := Finset.mem_filter.mp hj
          have ⟨hne, hj⟩ := isLeft_cons.mp hj
          exact Finset.mem_erase.mpr ⟨hne, mem hj⟩
        have le := Finset.card_le_card fewer
        rw [Finset.card_erase_of_mem (mem (bestPending_eq_some hb).1)] at le
        omega

theorem pendingOrder_ordered : (pendingOrder flow rounds emitted).Pairwise
    fun i j => i ≠ j ∧ (flow.slot i).sendOrder ≤ (flow.slot j).sendOrder := by
  induction rounds generalizing emitted
  case zero => exact .nil
  case succ rounds ih =>
    rw [pendingOrder]
    split
    case h_1 => exact .nil
    case h_2 best hb =>
      refine .cons (fun j hj => ?_) ih
      have ⟨hne, left⟩ := isLeft_cons.mp (isLeft_of_mem_pendingOrder hj)
      exact ⟨hne.symm, (bestPending_eq_some hb).2 j left⟩

-- A resend writes the packets of the slots in that order, when each is found by its sequence.
theorem resendLoop_eq {packet : Nat → List UInt8}
    (h : ∀ i ∈ pendingOrder flow rounds emitted,
      flow.getResendPacket (flow.slot i).sequence packetSize = some (packet i)) :
    resendLoop flow rounds serial emitted =
      serial.writeBlocks ((pendingOrder flow rounds emitted).map packet) := by
  induction rounds generalizing serial emitted
  case zero => rfl
  case succ rounds ih =>
    rw [pendingOrder] at h ⊢
    rw [resendLoop]
    cases hb : bestPending flow emitted
    case none => rfl
    case some best =>
      rw [hb] at h
      dsimp only at h ⊢
      have ⟨found, rest⟩ := List.forall_mem_cons.mp h
      have sent : resendSequence flow serial true (flow.slot best).sequence =
          (if (serial.writeAll (packet best)).1 then 0 else serialError,
            (serial.writeAll (packet best)).2) := by
        rw [resendSequence, found]
        rfl
      rw [List.map_cons, SerialTransport.writeBlocks, sent]
      dsimp only
      cases (serial.writeAll (packet best)).1
      case false => rfl
      case true  => exact ih rest

theorem resendPending_eq {packet : Nat → List UInt8}
    (h : ∀ i ∈ pendingOrder flow (flowWindow + 1) [],
      flow.getResendPacket (flow.slot i).sequence packetSize = some (packet i)) :
    resendPending flow serial true =
      serial.writeBlocks (soh :: (pendingOrder flow (flowWindow + 1) []).map packet) := by
  rw [resendPending, SerialTransport.writeBlocks, if_neg (by decide : ¬(!true) = true)]
  dsimp only
  rw [resendLoop_eq h]
  cases (serial.writeAll soh).1 <;> rfl

theorem mem_pendingOrder_iff :
    i ∈ pendingOrder flow (flowWindow + 1) [] ↔ (flow.slot i).pending := by
  refine ⟨fun h => (isLeft_of_mem_pendingOrder h).1, fun h => ?_⟩
  classical
  refine mem_pendingOrder ⟨h, List.not_mem_nil⟩ ?_
  have := (Finset.range flowWindow).card_filter_le (IsLeft flow [])
  rw [Finset.card_range] at this
  exact Nat.le_succ_of_le this

end MotionSender
end Deneb
