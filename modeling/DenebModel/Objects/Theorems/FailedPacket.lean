import DenebModel.Objects.Theorems.FlowControl

namespace Deneb.FlowControl

-- `deneb_flow_prepare_packet` with its pointers: the command, the size of the buffer for the packet,
-- and whether there are places for its length and its sequence.
def prepareChecked (flow : FlowControl) (command : Option CString) (out : Option Nat)
    (written sequence : Bool) : Prepared :=
  match command, out, written, sequence with
  | some command, some outSize, true, true => flow.preparePacket command outSize
  | _, _, _, _                             => { rc := -1, flow := flow }

-- A command that the packet format and the buffer have room for.
def Encodable (command : CString) (outSize : Nat) : Prop :=
  command.length ≤ 255 ∧ command.length + 6 ≤ outSize

-- A call that gets as far as the encoder is one that the encoder accepts.
def Preparable (flow : FlowControl) (command : Option CString) (out : Option Nat)
    (written sequence : Bool) : Prop :=
  written → sequence → ∀ c ∈ command, ∀ outSize ∈ out, flow.canSend → Encodable c outSize

instance (command : CString) (outSize : Nat) : Decidable (Encodable command outSize) :=
  inferInstanceAs (Decidable (_ ∧ _))

variable {flow : FlowControl} {command : CString} {outSize : Nat}

theorem encode_isSome_iff {sequence : UInt8} :
    (MarlinPacket.encode sequence command outSize).isSome ↔ Encodable command outSize := by
  unfold MarlinPacket.encode Encodable maxGcodeLine
  split_ifs
  case pos    => simp only [Option.isSome_none, Bool.false_eq_true, false_iff]; omega
  case pos _  => simp only [Option.isSome_none, Bool.false_eq_true, false_iff]; omega
  case neg    => simp only [Option.isSome_some, true_iff]; omega

theorem sequenceAfter_ne {sequence : UInt8} : sequenceAfter sequence ≠ sequence := by
  unfold sequenceAfter
  split
  case isTrue h =>
    rintro rfl
    exact absurd h (by decide)
  case isFalse =>
    intro h
    have := congrArg UInt8.toNat h
    simp only [UInt8.toNat_add, UInt8.reduceToNat] at this
    omega

-- A packet that cannot be encoded takes a sequence with it.
theorem preparePacket_untouched :
    ((flow.preparePacket command outSize).rc ≠ 0 → (flow.preparePacket command outSize).flow = flow) ↔
      (flow.canSend → Encodable command outSize) := by
  unfold preparePacket canSend
  split
  case h_1 hn => simp [hn]
  case h_2 i hi =>
    have encodable := @encode_isSome_iff command outSize flow.nextSequence
    dsimp only
    split
    case h_1 he =>
      rw [he] at encodable
      have refused : ¬Encodable command outSize := fun h => nomatch encodable.mpr h
      refine iff_of_false (fun h => ?_) fun h => refused (h (by rw [hi]; rfl))
      exact sequenceAfter_ne (congrArg nextSequence (h (show (-1 : Int) ≠ 0 by decide)))
    case h_2 he =>
      rw [he] at encodable
      exact iff_of_true (fun h => absurd rfl h) fun _ => encodable.mp rfl

theorem preparePacket_rc :
    (flow.preparePacket command outSize).rc ∈ [0, -1, -2] := by
  unfold preparePacket
  split
  case h_1 => simp
  case h_2 =>
    dsimp only
    split <;> simp

theorem failed_untouched_iff {command : Option CString} {out : Option Nat} {written sequence : Bool} :
    let p := flow.prepareChecked command out written sequence
    (p.rc = -1 ∨ p.rc = -2 → p.flow = flow) ↔ flow.Preparable command out written sequence := by
  unfold prepareChecked Preparable
  split
  case h_1 command outSize =>
    have failed : ∀ p : Prepared, p.rc ∈ ([0, -1, -2] : List Int) →
        (p.rc = -1 ∨ p.rc = -2 ↔ p.rc ≠ 0) := by
      intro p hp
      simp only [List.mem_cons, List.not_mem_nil, or_false] at hp
      omega
    dsimp only
    rw [failed _ preparePacket_rc, preparePacket_untouched]
    simp
  case h_2 missing =>
    refine iff_of_true (fun _ => rfl) fun hw hs c hc n hn _ => ?_
    obtain rfl := hc
    obtain rfl := hn
    subst hw hs
    exact absurd rfl (missing c n rfl rfl rfl)

-- The packet behind a line that is too long goes out with a sequence that the controller does not
-- expect.
theorem long_line_skips :
    let flow : FlowControl := {}
    let p := flow.prepareChecked (some (List.replicate 256 88)) (some 320) true true
    p.rc = -1 ∧ p.flow ≠ flow ∧ flow.nextSequence = 0 ∧
      (p.flow.preparePacket "G28" 320).rc = 0 ∧ (p.flow.preparePacket "G28" 320).sequence = 1 := by
  decide +kernel

end Deneb.FlowControl
