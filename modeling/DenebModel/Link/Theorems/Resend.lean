import DenebModel.Objects.Theorems.MotionSender
import DenebModel.Link.Theorems.FlowRun
import DenebModel.Link.Theorems.Agreement

namespace Deneb.Link

open CString FlowControl MotionSender

-- A link with all packets as they were first sent, and for each slot the number of its packet.
structure Sends where
  link    : Link
  packets : List (List UInt8)
  number  : Nat → Nat

namespace Sends

inductive Step : Sends → Sends → Prop
  | prepare (command outSize) : (s.link.flow.preparePacket command outSize).rc = 0 →
    Step s {
      link    := { s.link with
        flow         := (s.link.flow.preparePacket command outSize).flow
        prepared     := s.link.prepared ++ [command]
        toController := s.link.toController ++
          [(s.link.flow.preparePacket command outSize).packet] }
      packets := s.packets ++ [(s.link.flow.preparePacket command outSize).packet]
      number  := fun i =>
        if (s.link.flow.preparePacket command outSize).slot = i then s.packets.length
        else s.number i }
  | pass (after) : Link.Step s.link after → after.prepared = s.link.prepared →
    Step s { s with link := after }

abbrev Steps : Sends → Sends → Prop :=
  Relation.ReflTransGen Step

-- The packet that the slot `i` holds, as it was first sent.
def packet (s : Sends) (i : Nat) : List UInt8 :=
  s.packets.getD (s.number i) []

-- What each slot that was ever used holds, when the counter of the flow control started at `first`.
structure Inv (first : UInt32) (s : Sends) : Prop where
  count  : s.link.flow.sentCount = first + s.packets.length.toUInt32
  number : ∀ i, (s.link.flow.slot i).occupied → s.number i < s.packets.length
  order  : ∀ i, (s.link.flow.slot i).occupied →
    (s.link.flow.slot i).sendOrder = first + (s.number i).toUInt32
  packet : ∀ i, (s.link.flow.slot i).occupied →
    MarlinPacket.encode (s.link.flow.slot i).sequence (s.link.flow.slot i).command packetSize =
      s.packets[s.number i]?
  inj    : ∀ i j, (s.link.flow.slot i).occupied → (s.link.flow.slot j).occupied →
    s.number i = s.number j → i = j

variable {s s' : Sends} {first : UInt32} {i : Nat}

theorem encode_packetSize {sequence : UInt8} {command : CString} {outSize : Nat}
    {packet : List UInt8} (h : MarlinPacket.encode sequence command outSize = some packet) :
    MarlinPacket.encode sequence command packetSize = some packet := by
  have isSome := @MarlinPacket.encode_isSome sequence command packetSize
    (MarlinPacket.length_le_of_encode h) (by decide)
  have ⟨packet', h'⟩ := Option.isSome_iff_exists.mp isSome
  rw [h', MarlinPacket.packet_eq_of_encode h, MarlinPacket.packet_eq_of_encode h']

theorem Inv.prepare {command : CString} {outSize : Nat} (inv : Inv first s)
    (h : (s.link.flow.preparePacket command outSize).rc = 0)
    {link : Link} (hf : link.flow = (s.link.flow.preparePacket command outSize).flow) :
    Inv first {
      link    := link
      packets := s.packets ++ [(s.link.flow.preparePacket command outSize).packet]
      number  := fun i =>
        if (s.link.flow.preparePacket command outSize).slot = i then s.packets.length
        else s.number i } := by
  have ⟨_, encoded, _, slots⟩ := preparePacket_of_rc_zero h
  have count := sentCount_preparePacket h
  generalize s.link.flow.preparePacket command outSize = p at encoded slots count hf ⊢
  have old {i : Nat} (hi : p.slot ≠ i) (ho : (p.flow.slot i).occupied) :
      (s.link.flow.slot i).occupied := by
    rwa [slots, if_neg hi] at ho
  constructor <;> dsimp only <;> rw [hf]
  case count =>
    have one : (s.packets ++ [p.packet]).length.toUInt32 = s.packets.length.toUInt32 + 1 := by
      rw [List.length_append, List.length_singleton]
      exact UInt32.ofNat_add _ 1
    rw [count, inv.count, one, UInt32.add_assoc]
  case number =>
    intro i ho
    rw [List.length_append, List.length_singleton]
    split
    case isTrue     => exact Nat.lt_succ_self _
    case isFalse hi => exact Nat.lt_succ_of_lt (inv.number i (old hi ho))
  case order =>
    intro i ho
    rw [slots]
    by_cases hi : p.slot = i
    case pos => rw [if_pos hi, if_pos hi, inv.count]
    case neg => rw [if_neg hi, if_neg hi, inv.order i (old hi ho)]
  case packet =>
    intro i ho
    rw [slots]
    by_cases hi : p.slot = i
    case pos => rw [if_pos hi, if_pos hi, List.getElem?_concat_length, encode_packetSize encoded]
    case neg =>
      rw [if_neg hi, if_neg hi, List.getElem?_append_left (inv.number i (old hi ho)),
        inv.packet i (old hi ho)]
  case inj =>
    intro i j hi hj he
    by_cases hpi : p.slot = i
    case pos =>
      by_cases hpj : p.slot = j
      case pos => exact hpi.symm.trans hpj
      case neg =>
        rw [if_pos hpi, if_neg hpj] at he
        exact absurd he (Nat.ne_of_gt (inv.number j (old hpj hj)))
    case neg =>
      by_cases hpj : p.slot = j
      case pos =>
        rw [if_neg hpi, if_pos hpj] at he
        exact absurd he (Nat.ne_of_lt (inv.number i (old hpi hi)))
      case neg =>
        rw [if_neg hpi, if_neg hpj] at he
        exact inv.inj i j (old hpi hi) (old hpj hj) he

-- The packets in the slots stay the same.
theorem Inv.keep (inv : Inv first s) {link : Link}
    (hc : link.flow.sentCount = s.link.flow.sentCount)
    (hs : ∀ i, ∃ acknowledged attempts, link.flow.slot i =
      { s.link.flow.slot i with acknowledged := acknowledged, resendAttempts := attempts }) :
    Inv first { s with link := link } := by
  have occupied {i : Nat} (ho : (link.flow.slot i).occupied) :
      (s.link.flow.slot i).occupied := by
    have ⟨_, _, slot⟩ := hs i
    rwa [slot] at ho
  exact {
    count  := hc.trans inv.count
    number := fun i ho => inv.number i (occupied ho)
    order  := by
      intro i ho
      have ⟨_, _, slot⟩ := hs i
      exact slot ▸ inv.order i (occupied ho)
    packet := by
      intro i ho
      have ⟨_, _, slot⟩ := hs i
      exact slot ▸ inv.packet i (occupied ho)
    inj    := fun i j hi hj => inv.inj i j (occupied hi) (occupied hj) }

theorem Inv.step (inv : Inv first s) (e : Step s s') : Inv first s' := by
  cases e
  case prepare command outSize h => exact inv.prepare h rfl
  case pass after e hp =>
    have same (link : Link) (h : link.flow = s.link.flow) : Inv first { s with link := link } :=
      inv.keep (congrArg FlowControl.sentCount h) fun i => ⟨_, _, congrArg (FlowControl.slot · i) h⟩
    cases e
    case prepare =>
      have := congrArg List.length hp
      simp at this
    case receive =>
      refine same _ ?_
      unfold Link.receive
      split
      case h_1 => split <;> rfl
      case h_2 => rfl
    case deliver => exact inv.keep counters_handleResponse.2 handleResponse_change.packet
    all_goals exact same _ rfl

theorem Inv.steps (inv : Inv first s) (e : Steps s s') : Inv first s' := by
  induction e
  case refl      => exact inv
  case tail e ih => exact ih.step e

theorem Steps.link (e : Steps s s') : Link.Steps s.link s'.link := by
  induction e
  case refl => exact .refl
  case tail e ih =>
    refine ih.tail ?_
    cases e
    case prepare command outSize h => exact .prepare command outSize h
    case pass e _                  => exact e

theorem inv_of_initial (init : Initial s.link) (hp : s.packets = []) :
    Inv s.link.flow.sentCount s := by
  have slot (i : Nat) : s.link.flow.slot i = {} := by
    rw [FlowControl.slot, init.1]
    exact @slot_clearInflight s.link.flow i
  have idle (i : Nat) : ¬(s.link.flow.slot i).occupied := by
    rw [slot]
    exact Bool.false_ne_true
  exact {
    count  := by rw [hp]; exact (UInt32.add_zero _).symm
    number := fun i ho => absurd ho (idle i)
    order  := fun i ho => absurd ho (idle i)
    packet := fun i ho => absurd ho (idle i)
    inj    := fun i _ ho => absurd ho (idle i) }

-- As long as the counter does not wrap, it orders the packets as they were sent.
theorem Inv.sendOrder_toNat (inv : Inv first s) (few : first.toNat + s.packets.length ≤ 2 ^ 32)
    (ho : (s.link.flow.slot i).occupied) :
    (s.link.flow.slot i).sendOrder.toNat = first.toNat + s.number i := by
  have lt := inv.number i ho
  have small : (s.number i).toUInt32.toNat = s.number i := by
    rw [Nat.toUInt32, UInt32.toNat_ofNat', Nat.mod_eq_of_lt (by omega)]
  rw [inv.order i ho, UInt32.toNat_add, small, Nat.mod_eq_of_lt (by omega)]

end Sends

open Sends

-- The packets of all pending slots are written again, in the order in which they were first sent and
-- as they were sent then.
theorem resend_exact {s₀ s : Sends} (init : Initial s₀.link) (unsent : s₀.packets = [])
    (e : Sends.Steps s₀ s) (few : s₀.link.flow.sentCount.toNat + s.packets.length ≤ 2 ^ 32)
    (serial : SerialTransport) :
    ∃ order : List Nat, (∀ i, i ∈ order ↔ (s.link.flow.slot i).pending) ∧
      order.Pairwise (s.number · < s.number ·) ∧ (∀ i ∈ order, s.number i < s.packets.length) ∧
      resendPending s.link.flow serial true = serial.writeBlocks (soh :: order.map s.packet) := by
  have inv := (inv_of_initial init unsent).steps e
  obtain ⟨abstract, es, sim⟩ := init.simulates.steps inv_nil e.link
  obtain ⟨num, t⟩ := sim.tracks
  have room := (inv_nil.steps es).sent_le
  have occupied {i : Nat} (hp : (s.link.flow.slot i).pending) : (s.link.flow.slot i).occupied := by
    rw [Slot.pending, Bool.and_eq_true] at hp
    exact hp.1
  have mem {i : Nat} := @mem_pendingOrder_iff s.link.flow i
  refine ⟨pendingOrder s.link.flow (flowWindow + 1) [], fun i => mem, ?_, ?_, ?_⟩
  case refine_1 =>
    refine pendingOrder_ordered.imp_of_mem fun {i j} hi hj h => ?_
    obtain ⟨hne, hle⟩ := h
    have hi := occupied (mem.mp hi)
    have hj := occupied (mem.mp hj)
    have hle := UInt32.le_iff_toNat_le.mp hle
    rw [inv.sendOrder_toNat few hi, inv.sendOrder_toNat few hj] at hle
    have : s.number i ≠ s.number j := fun he => hne (inv.inj i j hi hj he)
    omega
  case refine_2 => exact fun i hi => inv.number i (occupied (mem.mp hi))
  case refine_3 =>
    refine resendPending_eq fun i hi => ?_
    have hp := mem.mp hi
    have lt := inv.number i (occupied hp)
    rw [getResendPacket, t.slotForSequence_of_pending room hp]
    refine (inv.packet i (occupied hp)).trans ?_
    rw [Sends.packet, List.getD_eq_getElem?_getD, List.getElem?_eq_getElem lt]
    rfl

-- Two packets are sent and none is acknowledged.
theorem resend_exact_two : ∃ s : Sends, s.packets.length = 2 ∧ s.link.flow.inflight = 2 ∧
    ∃ order : List Nat, (∀ i, i ∈ order ↔ (s.link.flow.slot i).pending) ∧
      order.Pairwise (s.number · < s.number ·) ∧ (∀ i ∈ order, s.number i < s.packets.length) ∧
      resendPending s.link.flow { isOpen := true } true =
        SerialTransport.writeBlocks { isOpen := true } (soh :: order.map s.packet) := by
  let link : Link := ⟨{}, [], [], 0, [], []⟩
  have init : Initial link := ⟨rfl, by decide, rfl, rfl, rfl, rfl, rfl⟩
  have ⟨s, length, inflight, count, e⟩ : ∃ s : Sends, s.packets.length = 2 ∧
      s.link.flow.inflight = 2 ∧ link.flow.sentCount.toNat + s.packets.length ≤ 2 ^ 32 ∧
      Sends.Steps ⟨link, [], fun _ => 0⟩ s := by
    refine ⟨?_, ?length, ?inflight, ?count, ?run⟩
    case run =>
      apply Relation.ReflTransGen.head <| .prepare "G28" 320 (by decide +kernel)
      apply Relation.ReflTransGen.head <| .prepare "M105" 320 (by decide +kernel)
      exact .refl
    all_goals decide +kernel
  exact ⟨s, length, inflight, @resend_exact ⟨link, [], fun _ => 0⟩ s init rfl e count { isOpen := true }⟩

end Deneb.Link
