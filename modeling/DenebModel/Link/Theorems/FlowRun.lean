import DenebModel.Link.Theorems.Tracks

-- Runs of the flow control alone, with any response lines.
namespace Deneb.FlowControl

open CString

inductive Op
  | prepare (command : CString) (outSize : Nat)
  | response (line : CString)
  | resync
  | clear

def exec (flow : FlowControl) : Op → FlowControl
  | .prepare command outSize => (flow.preparePacket command outSize).flow
  | .response line           => (flow.handleResponse line).2.1
  | .resync                  => flow.resyncToExpected
  | .clear                   => flow.clearInflight

-- `deneb_flow_init`
def init : FlowControl := {}

variable {flow : FlowControl} {line command : CString} {n outSize : Nat}

section Responses

def mentionsResend (line : CString) : Bool :=
  contains line "Resend" || contains line "rs " || contains line "rs N"

-- A line of text that acknowledges a packet.
def isTextOk (line : CString) : Bool :=
  parseSyncPacket line = .none && (parseProtoExpectedSequence line).isNone && !mentionsResend line &&
    startsWith line "ok"

-- The slot that a text acknowledges.
def okSlot (flow : FlowControl) (line : CString) : Option Nat :=
  match parseResponseSequence line with
  | some seq => flow.slotForSequence seq
  | none     => flow.slots.findIdx? Slot.pending

-- The slot whose packet a response asks to send again.
def requestedSlot (flow : FlowControl) (line : CString) : Option Nat :=
  match parseSyncPacket line with
  | .valid 114 sequence _ => flow.pendingSlotForSequence sequence
  | .none                 => (parseResponseSequence line).bind flow.pendingSlotForSequence
  | _                     => none

-- What a response does to the slots and to the flag for a resend: nothing but that the flag may be
-- taken back, a packet is requested again, or packets are acknowledged.
inductive ResponseChange (flow : FlowControl) (line : CString) (flow' : FlowControl) : Prop
  | keep :
    flow'.slots = flow.slots → (flow'.handlingResend → flow.handlingResend) →
    ResponseChange flow line flow'
  | through (sequence) :
    (∀ i, flow'.slot i = mark sequence true (flow.slot i)) → ¬flow'.handlingResend →
    ResponseChange flow line flow'
  | request (i) :
    flow.requestedSlot line = some i → (flow.slot i).pending → flow'.handlingResend →
    (flow'.slot i = { flow.slot i with resendAttempts := (flow.slot i).resendAttempts + 1 }) →
    (∀ j ≠ i, flow'.slot j = flow.slot j ∨
      flow'.slot j = { flow.slot j with acknowledged := true }) →
    ResponseChange flow line flow'
  | ok (i) :
    isTextOk line → flow.okSlot line = some i → i < flowWindow →
    (∀ j, flow'.slot j = if j = i then { flow.slot i with acknowledged := true } else flow.slot j) →
    flow'.handlingResend = flow.handlingResend → ResponseChange flow line flow'

theorem mark_cases {sequence : UInt8} {includeSequence : Bool} {s : Slot} :
    mark sequence includeSequence s = s ∨
      mark sequence includeSequence s = { s with acknowledged := true } := by
  unfold mark
  split
  case isTrue  => exact .inr rfl
  case isFalse => exact .inl rfl

-- A request marks the slot, and acknowledges others at most.
theorem request_change {flow' : FlowControl} (hr : flow.requestedSlot line = some n)
    (hp : (flow.slot n).pending) (hn : n < flowWindow) (hs : flow'.slot n = flow.slot n)
    (ho : ∀ j, flow'.slot j = flow.slot j ∨ flow'.slot j = { flow.slot j with acknowledged := true }) :
    ResponseChange flow line (flow'.requestResend n).2 := by
  refine .request n hr hp rfl ?_ fun j hj => ?_
  case refine_1 =>
    rw [← hs]
    exact (slot_setSlot _).trans (if_pos ⟨rfl, hn⟩)
  case refine_2 =>
    rw [slot_requestResend_of_ne hj.symm]
    exact ho j

theorem handleSync_change {code seq freeSpace : UInt8}
    (h : parseSyncPacket line = .valid code seq freeSpace)
    (hc : code = 111 ∨ code = 114 ∨ code = 113) :
    ResponseChange flow line (flow.handleSync code seq freeSpace).2.1 := by
  unfold handleSync
  dsimp only
  obtain rfl | rfl | rfl := hc
  case inl =>
    rw [if_neg (by decide), if_pos rfl]
    split
    case h_1 => exact .keep rfl nofun
    case h_2 => exact .through seq (fun i => slot_acknowledgeThrough) nofun
  case inr.inl =>
    rw [if_neg (by decide), if_neg (by decide)]
    split
    case h_1 => exact .keep rfl id
    case h_2 i hi =>
      have ⟨hlt, hp, hseq⟩ := pendingSlotForSequence_eq_some hi
      split
      case isTrue  => exact .keep rfl id
      case isFalse =>
        have hr : flow.requestedSlot line = some i := by rw [requestedSlot, h]; exact hi
        refine request_change hr hp hlt ?_ fun j => ?_
        case refine_1 =>
          rw [slot_acknowledgeThrough, mark, if_neg]
          · rfl
          · have hs : ((flow.slot i).sequence == seq) = true := by
              rw [beq_iff_eq]
              exact hseq
            rw [isThrough]
            change ¬((flow.slot i).pending && if (flow.slot i).sequence == seq then false else _) = true
            rw [if_pos hs, Bool.and_false]
            exact Bool.false_ne_true
        case refine_2 =>
          rw [slot_acknowledgeThrough]
          exact mark_cases
  case inr.inr =>
    rw [if_pos rfl]
    exact .keep rfl id

theorem handleResendText_change (hs : parseSyncPacket line = .none) :
    ResponseChange flow line (flow.handleResendText line).2.1 := by
  unfold handleResendText
  split
  case isTrue  => exact .keep rfl id
  case isFalse =>
    split
    case h_1 => exact .keep rfl id
    case h_2 seq hseq =>
      split
      case h_1 => exact .keep rfl id
      case h_2 i hi =>
        have ⟨hlt, hp, _⟩ := pendingSlotForSequence_eq_some hi
        have hr : flow.requestedSlot line = some i := by
          rw [requestedSlot, hs]
          exact (congrArg (Option.bind · _) hseq).trans hi
        exact request_change hr hp hlt rfl fun _ => .inl rfl

theorem handleOk_change (ht : isTextOk line) :
    ResponseChange flow line (flow.handleOk line) := by
  unfold handleOk
  dsimp only
  split
  case h_1 => exact .keep rfl id
  case h_2 i hi =>
    have hlt : i < flowWindow := by
      split at hi
      case h_1 => exact (slotForSequence_eq_some hi).1
      case h_2 => exact (findIdx?_slots_eq_some hi).1
    refine .ok i ht hi hlt (fun j => ?_) rfl
    have hset := @slot_setSlot flow i j { flow.slot i with acknowledged := true }
    simp only [hlt, and_true, @eq_comm _ i j] at hset
    exact hset

theorem parseSyncPacket_code {code seq freeSpace : UInt8}
    (h : parseSyncPacket line = .valid code seq freeSpace) :
    code = 111 ∨ code = 114 ∨ code = 113 := by
  unfold parseSyncPacket at h
  split at h
  case h_2 => contradiction
  case h_1 =>
    split at h
    case isFalse => contradiction
    case isTrue hc =>
      split at h
      case h_2 => contradiction
      case h_1 =>
        split at h
        case isFalse => contradiction
        case isTrue  =>
          cases h
          simpa [or_assoc] using hc

theorem handleResponse_change : ResponseChange flow line (flow.handleResponse line).2.1 := by
  unfold handleResponse
  split
  case h_1 => exact .keep rfl id
  case h_2 h => exact handleSync_change h (parseSyncPacket_code h)
  case h_3 hs =>
    split
    case h_1 => exact .keep rfl id
    case h_2 hp =>
      split
      case isTrue => exact handleResendText_change hs
      case isFalse hm =>
        split
        case isTrue hk =>
          refine handleOk_change ?_
          simp [isTextOk, mentionsResend, hs, hp, hk, hm]
        case isFalse => split <;> exact .keep rfl id

-- A response changes no packet.
theorem ResponseChange.packet {flow' : FlowControl} (h : ResponseChange flow line flow') (i : Nat) :
    ∃ acknowledged attempts, flow'.slot i =
      { flow.slot i with acknowledged := acknowledged, resendAttempts := attempts } := by
  cases h
  case keep slots _ => exact ⟨_, _, slot_of_slots_eq slots⟩
  case through sequence slots _ =>
    obtain h | h := @mark_cases sequence true (flow.slot i) <;> exact ⟨_, _, (slots i).trans h⟩
  case request n _ _ _ slot others =>
    by_cases hi : i = n
    case pos => exact ⟨_, _, hi ▸ slot⟩
    case neg => obtain h | h := others i hi <;> exact ⟨_, _, h⟩
  case ok n _ _ _ slots _ =>
    by_cases hi : i = n
    case pos => exact ⟨_, _, by rw [slots, if_pos hi, hi]⟩
    case neg => exact ⟨_, _, by rw [slots, if_neg hi]⟩

end Responses

-- The states that are reached when every operation is allowed in the state in which it comes.
abbrev Reaches (ok : FlowControl → Op → Prop) : FlowControl → FlowControl → Prop :=
  Relation.ReflTransGen fun flow flow' => ∃ op, ok flow op ∧ flow.exec op = flow'

section Resend

-- A packet waits for its acknowledgement whose resend was asked for.
def Outstanding (flow : FlowControl) (i : Nat) : Prop :=
  (flow.slot i).pending ∧ 0 < (flow.slot i).resendAttempts

def ResendJustified (flow : FlowControl) : Prop :=
  flow.handlingResend → ∃ i, flow.Outstanding i

-- While a resend is outstanding the slots are not cleared without the flag, and no text acknowledges
-- the last packet of which a resend was asked for. No resend is the 2^32nd one of a packet.
def KeepsResend (flow : FlowControl) : Op → Prop
  | .clear => ¬flow.handlingResend
  | .response line =>
    (isTextOk line → flow.handlingResend → ∀ i, flow.okSlot line = some i →
      ∃ j ≠ i, flow.Outstanding j) ∧
    ∀ i, flow.requestedSlot line = some i → (flow.slot i).resendAttempts ≠ 0xffffffff
  | _ => True

theorem firstFreeSlot_not_pending (h : flow.firstFreeSlot = some n) : ¬(flow.slot n).pending := by
  have ⟨_, h⟩ := firstFreeSlot_eq_some h
  rcases h with ⟨ho, _⟩ | ⟨ha, _⟩
  case inl => simp [Slot.pending, ho]
  case inr => simp [Slot.pending, ha]

-- A packet takes a slot in which nothing is pending, or the slots stay as they are.
theorem preparePacket_slots :
    (flow.preparePacket command outSize).flow.handlingResend = flow.handlingResend ∧
    ∀ i, (flow.slot i).pending →
      (flow.preparePacket command outSize).flow.slot i = flow.slot i := by
  by_cases hz : (flow.preparePacket command outSize).rc = 0
  case pos =>
    have ⟨hf, _, _, slots⟩ := preparePacket_of_rc_zero hz
    refine ⟨?_, fun i hp => ?_⟩
    case refine_1 =>
      unfold preparePacket
      split
      case h_1 => rfl
      case h_2 => dsimp only; split <;> rfl
    case refine_2 =>
      rw [slots, if_neg]
      rintro rfl
      exact firstFreeSlot_not_pending hf hp
  case neg =>
    revert hz
    unfold preparePacket
    split
    case h_1 => exact fun _ => ⟨rfl, fun _ _ => rfl⟩
    case h_2 =>
      dsimp only
      split
      case h_1 => exact fun _ => ⟨rfl, fun _ _ => rfl⟩
      case h_2 => exact fun h => absurd rfl h

theorem attempts_ne_zero {attempts : UInt32} (h : attempts ≠ 0xffffffff) : 0 < attempts + 1 := by
  have := UInt32.toNat_lt attempts
  have hne : attempts.toNat ≠ 4294967295 := fun he => h (UInt32.toNat_inj.mp he)
  rw [UInt32.lt_iff_toNat_lt, UInt32.toNat_add]
  simp
  omega

theorem exec_justified {op : Op} (ok : flow.KeepsResend op) (h : flow.ResendJustified) :
    (flow.exec op).ResendJustified := by
  intro hr
  cases op
  case prepare command outSize =>
    have ⟨flag, slots⟩ := @preparePacket_slots flow command outSize
    have ⟨i, hp, ha⟩ := h (flag ▸ hr)
    refine ⟨i, ?_⟩
    unfold Outstanding exec
    rw [slots i hp]
    exact ⟨hp, ha⟩
  case response line =>
    unfold exec at hr ⊢
    have change := @handleResponse_change flow line
    dsimp only at hr ⊢
    generalize (flow.handleResponse line).2.1 = flow' at change hr ⊢
    cases change
    case keep slots flag =>
      have ⟨i, hi⟩ := h (flag hr)
      refine ⟨i, ?_⟩
      rwa [Outstanding, slot_of_slots_eq slots]
    case through flag => exact absurd hr flag
    case request i hi hp _ slot _ =>
      refine ⟨i, ?_⟩
      rw [Outstanding, slot]
      exact ⟨hp, attempts_ne_zero (ok.2 i hi)⟩
    case ok i ht hi _ slots flag =>
      have ⟨j, hj, outstanding⟩ := ok.1 ht (flag ▸ hr) i hi
      refine ⟨j, ?_⟩
      rwa [Outstanding, slots, if_neg hj]
  case resync => exact absurd hr Bool.false_ne_true
  case clear  => exact absurd hr ok

theorem resend_justified {flow : FlowControl} (h : Reaches KeepsResend init flow) :
    flow.ResendJustified := by
  induction h
  case refl => exact nofun
  case tail step ih =>
    obtain ⟨op, ok, rfl⟩ := step
    exact exec_justified ok ih

-- A packet, and the request to send it again.
def requested : FlowControl :=
  (init.exec (.prepare "M105" 320)).exec (.response (syncLine 114 0 4))

theorem requested_reached {ok : FlowControl → Op → Prop} (hp : ok init (.prepare "M105" 320))
    (hr : ok (init.exec (.prepare "M105" 320)) (.response (syncLine 114 0 4))) :
    Reaches ok init requested :=
  .tail (.single ⟨_, hp, rfl⟩) ⟨_, hr, rfl⟩

theorem requested_justified : requested.handlingResend ∧ requested.ResendJustified := by
  have reached : Reaches KeepsResend init requested :=
    requested_reached trivial ⟨fun h => absurd h (by decide +kernel), by decide +kernel⟩
  exact ⟨by decide +kernel, resend_justified reached⟩

-- When the slots are cleared after a request, the next one is ignored although nothing is outstanding.
theorem cleared_not_justified :
    ¬∀ flow, Reaches (fun _ _ => True) init flow → flow.ResendJustified := by
  intro h
  have reached : Reaches (fun _ _ => True) init (requested.exec .clear) :=
    .tail (requested_reached trivial trivial) ⟨.clear, trivial, rfl⟩
  have flag : (requested.exec .clear).handlingResend := by decide +kernel
  have ⟨i, hp, _⟩ := h _ reached flag
  have none : ((requested.exec .clear).slot i).pending = false := by
    rw [show (requested.exec .clear).slot i = {} from slot_clearInflight]
    rfl
  rw [none] at hp
  exact Bool.false_ne_true hp

end Resend

section Sequences

theorem counters_handleResponse :
    (flow.handleResponse line).2.1.nextSequence = flow.nextSequence ∧
    (flow.handleResponse line).2.1.sentCount = flow.sentCount := by
  unfold handleResponse
  split
  case h_1 => exact ⟨rfl, rfl⟩
  case h_2 =>
    unfold handleSync
    dsimp only
    split
    case isTrue  => exact ⟨rfl, rfl⟩
    case isFalse =>
      split
      case isTrue  => split <;> exact ⟨rfl, rfl⟩
      case isFalse =>
        split
        case h_1 => exact ⟨rfl, rfl⟩
        case h_2 => split <;> exact ⟨rfl, rfl⟩
  case h_3 =>
    split
    case h_1 => exact ⟨rfl, rfl⟩
    case h_2 =>
      split
      case isTrue =>
        unfold handleResendText
        split
        case isTrue  => exact ⟨rfl, rfl⟩
        case isFalse =>
          split
          case h_1 => exact ⟨rfl, rfl⟩
          case h_2 => split <;> exact ⟨rfl, rfl⟩
      case isFalse =>
        split
        case isTrue  => unfold handleOk; dsimp only; split <;> exact ⟨rfl, rfl⟩
        case isFalse => split <;> exact ⟨rfl, rfl⟩

-- A run with the numbers of its packets: how many sequences were used up, the number of the packet in
-- each slot, and all packets that were emitted.
structure Numbered where
  flow    : FlowControl
  number  : Nat
  stamp   : Nat → Nat
  emitted : List (List UInt8)

namespace Numbered

def exec (s : Numbered) : Op → Numbered
  | .prepare command outSize =>
    let p := s.flow.preparePacket command outSize
    if p.rc = 0 then {
      flow    := p.flow
      number  := s.number + 1
      stamp   := fun i => if p.slot = i then s.number else s.stamp i
      emitted := s.emitted ++ [p.packet] }
    else if s.flow.canSend then { s with flow := p.flow, number := s.number + 1 }
    else s
  | op => { s with flow := s.flow.exec op }

def init : Numbered where
  flow    := .init
  number  := 0
  stamp   := fun _ => 0
  emitted := []

-- No packet is prepared while one is pending whose sequence has come round to the counter again, and
-- the sequence to which the host returns is one of the 255 that are in use.
def Permits (s : Numbered) : Op → Prop
  | .prepare command outSize =>
    (s.flow.preparePacket command outSize).rc = 0 →
    ∀ i, (s.flow.slot i).pending → (s.number - s.stamp i) % 255 ≠ 0
  | .resync => s.flow.lastProtoExpectedSequence ≠ 255
  | _ => True

-- What the sequences are for, and what is known of the counter.
structure Inv (s : Numbered) : Prop where
  emitted : ∀ packet ∈ s.emitted, ∃ sequence command,
    MarlinPacket.decode packet = some (sequence, command) ∧ sequence ≤ 254
  counter : ∃ start, s.flow.nextSequence = sequenceOf start s.number ∧
    ∀ i, (s.flow.slot i).pending →
      (s.flow.slot i).sequence = sequenceOf start (s.stamp i) ∧ s.stamp i < s.number
  apart   : ∀ i j, (s.flow.slot i).pending → (s.flow.slot j).pending →
    s.stamp i % 255 = s.stamp j % 255 → i = j

theorem sequenceOf_le {start number : Nat} : sequenceOf start number ≤ 254 := by
  rw [UInt8.le_iff_toNat_le, sequenceOf_toNat]
  exact Nat.le_of_lt_succ (Nat.mod_lt _ (by decide))

theorem sequenceOf_congr {start number number' : Nat} :
    sequenceOf start number = sequenceOf start number' ↔ number % 255 = number' % 255 := by
  rw [← UInt8.toNat_inj, sequenceOf_toNat, sequenceOf_toNat]
  omega

-- A sequence in use is that of any number for some first sequence.
theorem exists_start {sequence : UInt8} (h : sequence ≠ 255) (number : Nat) :
    ∃ start, sequence = sequenceOf start number := by
  have lt := sequence.toNat_lt
  have ne : sequence.toNat ≠ 255 := fun he => h (UInt8.toNat_inj.mp he)
  refine ⟨sequence.toNat + 254 * number, UInt8.toNat_inj.mp ?_⟩
  rw [sequenceOf_toNat]
  omega

variable {s s' : Numbered} {op : Op}

-- The slots keep their packets, and none becomes pending.
theorem Inv.kept {flow : FlowControl} (inv : Inv s) (hn : flow.nextSequence = s.flow.nextSequence)
    (hs : ∀ i, (flow.slot i).pending →
      (s.flow.slot i).pending ∧ (flow.slot i).sequence = (s.flow.slot i).sequence) :
    Inv { s with flow := flow } := by
  have ⟨start, next, slots⟩ := inv.counter
  constructor
  case emitted => exact inv.emitted
  case counter =>
    refine ⟨start, hn.trans next, fun i hp => ?_⟩
    have ⟨hp, he⟩ := hs i hp
    exact he ▸ slots i hp
  case apart => exact fun i j hi hj => inv.apart i j (hs i hi).1 (hs j hj).1

-- All slots are cleared.
theorem Inv.cleared {flow : FlowControl} (inv : Inv s) (hn : flow.nextSequence ≠ 255)
    (hs : ∀ i, ¬(flow.slot i).pending) : Inv { s with flow := flow } := by
  have ⟨start, next⟩ := exists_start hn s.number
  exact ⟨inv.emitted, ⟨start, next, fun i hp => absurd hp (hs i)⟩, fun i _ hp => absurd hp (hs i)⟩

theorem Inv.counter_ne (inv : Inv s) : s.flow.nextSequence ≠ 255 := by
  have ⟨start, next, _⟩ := inv.counter
  intro h
  have := @sequenceOf_le start s.number
  rw [← next, h] at this
  exact absurd this (by decide)

theorem Inv.prepare (inv : Inv s) (ok : s.Permits (.prepare command outSize)) :
    Inv (s.exec (.prepare command outSize)) := by
  have ⟨start, next, slots⟩ := inv.counter
  unfold exec
  dsimp only
  split
  case isTrue hz =>
    have ⟨_, encoded, hnext, hslots⟩ := preparePacket_of_rc_zero hz
    have old := ok hz
    generalize s.flow.preparePacket command outSize = p at encoded hnext hslots
    rw [next] at encoded
    -- A slot other than the one that is taken.
    have other {i} (hi : p.slot ≠ i) (hp : (p.flow.slot i).pending) : (s.flow.slot i).pending := by
      rwa [hslots, if_neg hi] at hp
    have new {j} (hj : p.slot ≠ j) (hp : (p.flow.slot j).pending) :
        s.number % 255 ≠ s.stamp j % 255 := by
      have := old j (other hj hp)
      have := (slots j (other hj hp)).2
      omega
    constructor
    case emitted =>
      intro packet hm
      cases List.mem_append.mp hm
      case inl hm => exact inv.emitted packet hm
      case inr hm =>
        rw [List.mem_singleton.mp hm]
        exact ⟨_, command, MarlinPacket.decode_encode encoded, sequenceOf_le⟩
    case counter =>
      refine ⟨start, by rw [hnext, next, sequenceAfter_sequenceOf], fun i hp => ?_⟩
      dsimp only at hp ⊢
      by_cases hi : p.slot = i
      case pos =>
        rw [if_pos hi, hslots, if_pos hi]
        exact ⟨next, Nat.lt_succ_self _⟩
      case neg =>
        have ⟨he, hlt⟩ := slots i (other hi hp)
        rw [if_neg hi, hslots, if_neg hi]
        exact ⟨he, Nat.lt_succ_of_lt hlt⟩
    case apart =>
      intro i j hi hj he
      dsimp only at hi hj he
      by_cases hpi : p.slot = i
      case pos =>
        by_cases hpj : p.slot = j
        case pos => exact hpi.symm.trans hpj
        case neg =>
          rw [if_pos hpi, if_neg hpj] at he
          exact absurd he (new hpj hj)
      case neg =>
        by_cases hpj : p.slot = j
        case pos =>
          rw [if_neg hpi, if_pos hpj] at he
          exact absurd he.symm (new hpi hi)
        case neg =>
          rw [if_neg hpi, if_neg hpj] at he
          exact inv.apart i j (other hpi hi) (other hpj hj) he
  case isFalse hz =>
    have ⟨hslots, hnext, _⟩ := preparePacket_failed hz
    have slot_eq (i : Nat) : (s.flow.preparePacket command outSize).flow.slot i = s.flow.slot i :=
      slot_of_slots_eq hslots
    split
    case isTrue hc =>
      rw [if_pos hc, next, sequenceAfter_sequenceOf] at hnext
      refine ⟨inv.emitted, ⟨start, hnext, fun i hp => ?_⟩, fun i j hi hj => ?_⟩
      case refine_1 =>
        dsimp only at hp ⊢
        rw [slot_eq] at hp ⊢
        exact ⟨(slots i hp).1, Nat.lt_succ_of_lt (slots i hp).2⟩
      case refine_2 =>
        dsimp only at hi hj
        rw [slot_eq] at hi hj
        exact inv.apart i j hi hj
    case isFalse => exact inv

theorem Inv.exec (inv : Inv s) (ok : s.Permits op) : Inv (s.exec op) := by
  cases op
  case prepare command outSize => exact inv.prepare ok
  case response line =>
    refine inv.kept counters_handleResponse.1 fun i hp => ⟨pending_handleResponse hp, ?_⟩
    have ⟨_, _, slot⟩ := (@handleResponse_change s.flow line).packet i
    exact (congrArg Slot.sequence slot :)
  case resync =>
    refine inv.cleared ok fun i => ?_
    rw [show (s.flow.exec .resync).slot i = {} from @slot_clearInflight s.flow i]
    exact Bool.false_ne_true
  case clear =>
    refine inv.cleared inv.counter_ne fun i => ?_
    rw [show (s.flow.exec .clear).slot i = {} from slot_clearInflight]
    exact Bool.false_ne_true

abbrev Reaches (ok : Numbered → Op → Prop) : Numbered → Numbered → Prop :=
  Relation.ReflTransGen fun s s' => ∃ op, ok s op ∧ s.exec op = s'

theorem init_inv : Inv init := by
  have idle (i : Nat) : ¬(init.flow.slot i).pending := by
    rw [show init.flow.slot i = {} from @slot_clearInflight .init i]
    exact Bool.false_ne_true
  exact ⟨nofun, ⟨0, rfl, fun i hp => absurd hp (idle i)⟩, fun i _ hp => absurd hp (idle i)⟩

theorem reached_inv (h : Reaches Permits init s) : Inv s := by
  induction h
  case refl => exact init_inv
  case tail step ih =>
    obtain ⟨op, ok, rfl⟩ := step
    exact ih.exec ok

-- The first 255 sequences are all different.
theorem Inv.permits_few (inv : Inv s) (h : s.number < 255) :
    s.Permits (.prepare command outSize) := by
  intro _ i hp
  have ⟨_, _, slots⟩ := inv.counter
  have := (slots i hp).2
  omega

end Numbered

-- Every packet carries one of the 255 sequences, and pending packets carry different ones.
theorem sequences_distinct {s : Numbered} (h : Numbered.Reaches Numbered.Permits .init s) :
    (∀ packet ∈ s.emitted, ∃ sequence command,
      MarlinPacket.decode packet = some (sequence, command) ∧ sequence ≤ 254) ∧
    ∀ i j, (s.flow.slot i).pending → (s.flow.slot j).pending →
      (s.flow.slot i).sequence = (s.flow.slot j).sequence → i = j := by
  have inv := Numbered.reached_inv h
  refine ⟨inv.emitted, fun i j hi hj he => ?_⟩
  have ⟨start, _, slots⟩ := inv.counter
  rw [(slots i hi).1, (slots j hj).1, Numbered.sequenceOf_congr] at he
  exact inv.apart i j hi hj he

def twoSent : Numbered :=
  (Numbered.init.exec (.prepare "M105" 320)).exec (.prepare "M114" 320)

theorem twoSent_distinct :
    twoSent.emitted.length = 2 ∧
    ∀ i j, (twoSent.flow.slot i).pending → (twoSent.flow.slot j).pending →
      (twoSent.flow.slot i).sequence = (twoSent.flow.slot j).sequence → i = j := by
  have first : Numbered.init.Permits (.prepare "M105" 320) :=
    Numbered.init_inv.permits_few (by decide)
  have second : (Numbered.init.exec (.prepare "M105" 320)).Permits (.prepare "M114" 320) :=
    (Numbered.init_inv.exec first).permits_few (by decide +kernel)
  have reached : Numbered.Reaches Numbered.Permits .init twoSent :=
    .tail (.single ⟨_, first, rfl⟩) ⟨_, second, rfl⟩
  exact ⟨by decide +kernel, (sequences_distinct reached).2⟩

-- The controller names 255 as the sequence that it expects, and the host goes on with it.
def resynced : Numbered :=
  ((Numbered.init.exec (.response
    "ProtoError:Sequence number is unexpected (received, expected): 1,255")).exec .resync).exec
    (.prepare "M105" 320)

theorem resynced_not_hygienic : ¬∀ s, Numbered.Reaches (fun _ _ => True) .init s →
    ∀ packet ∈ s.emitted, ∃ sequence command,
      MarlinPacket.decode packet = some (sequence, command) ∧ sequence ≤ 254 := by
  intro h
  have reached : Numbered.Reaches (fun _ _ => True) .init resynced :=
    .tail (.tail (.single ⟨_, trivial, rfl⟩) ⟨_, trivial, rfl⟩) ⟨_, trivial, rfl⟩
  have ⟨packet, hm, decoded⟩ : ∃ packet ∈ resynced.emitted,
      MarlinPacket.decode packet = some (255, ofString "M105") := by decide +kernel
  have ⟨sequence, command, hd, hs⟩ := h _ reached _ hm
  rw [decoded] at hd
  cases hd
  exact absurd hs (by decide)

end Sequences

end Deneb.FlowControl
