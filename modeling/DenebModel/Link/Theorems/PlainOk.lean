import DenebModel.Link.Theorems.FlowRun

namespace Deneb.FlowControl

open CString

variable {flow flow' : FlowControl} {line : CString} {i : Nat}

-- An acknowledgement that names no sequence.
def PlainOk (line : CString) : Prop :=
  startsWith line "ok" ∧ parseResponseSequence line = none

instance : Decidable (PlainOk line) :=
  inferInstanceAs (Decidable (_ ∧ _))

-- The packet in slot `i` was sent before all others that wait for their acknowledgement.
def Oldest (flow : FlowControl) (i : Nat) : Prop :=
  (flow.slot i).pending ∧
  ∀ j ≠ i, (flow.slot j).pending → (flow.slot i).sendOrder < (flow.slot j).sendOrder

def AcknowledgesOldest (flow flow' : FlowControl) : Prop :=
  ∃ i, flow.Oldest i ∧
    ∀ j, flow'.slot j = if j = i then { flow.slot i with acknowledged := true } else flow.slot j

-- The first slot that waits for an acknowledgement is the one that waits for the longest time.
def OldestFirst (flow : FlowControl) : Prop :=
  ∃ i, flow.Oldest i ∧ ∀ j < i, ¬(flow.slot j).pending

section

theorem PlainOk.eq_append (h : PlainOk line) : ∃ rest, line = 111 :: 107 :: rest := by
  have ⟨rest, h⟩ := List.isPrefixOf_iff_prefix.mp h.1
  exact ⟨rest, h.symm⟩

theorem PlainOk.parseSyncPacket (h : PlainOk line) : parseSyncPacket line = .none := by
  obtain ⟨rest, rfl⟩ := h.eq_append
  unfold FlowControl.parseSyncPacket
  split
  case h_2 => rfl
  case h_1 code s₁ s₂ f₁ f₂ c₁ c₂ he =>
    cases he
    -- The second byte is no digit.
    have hk : parseHexByte 107 s₂ = none := rfl
    rw [hk]
    rfl

theorem PlainOk.parseProtoExpectedSequence (h : PlainOk line) :
    parseProtoExpectedSequence line = none := by
  obtain ⟨rest, rfl⟩ := h.eq_append
  rfl

theorem PlainOk.handleResponse (h : PlainOk line) :
    (flow.handleResponse line).2.1 =
      if mentionsResend line then (flow.handleResendText line).2.1 else flow.handleOk line := by
  unfold FlowControl.handleResponse
  rw [h.parseSyncPacket, h.parseProtoExpectedSequence]
  dsimp only
  rw [show (contains line "Resend" || contains line "rs " || contains line "rs N") =
    mentionsResend line from rfl, h.1]
  split <;> rfl

-- Without a sequence a request for a resend touches no slot.
theorem PlainOk.slots_handleResendText (h : PlainOk line) :
    (flow.handleResendText line).2.1.slots = flow.slots := by
  unfold handleResendText
  rw [h.2]
  split <;> rfl

theorem acknowledge_ne (hp : (flow.slot i).pending) :
    { flow.slot i with acknowledged := true } ≠ flow.slot i := by
  intro h
  rw [← h] at hp
  simp [Slot.pending] at hp

-- A plain acknowledgement is for the first slot that waits for one.
theorem PlainOk.handleOk (h : PlainOk line) (hp : ∃ i, (flow.slot i).pending) :
    ∃ i, (flow.slot i).pending ∧ (∀ j < i, ¬(flow.slot j).pending) ∧
      ∀ j, (flow.handleOk line).slot j =
        if j = i then { flow.slot i with acknowledged := true } else flow.slot j := by
  cases hf : flow.slots.findIdx? Slot.pending
  case none =>
    have ⟨i, hp⟩ := hp
    by_cases hi : i < flowWindow
    case pos => exact absurd hp (findIdx?_slots_eq_none hf i hi)
    case neg =>
      rw [slot_of_le (Nat.not_lt.mp hi)] at hp
      exact absurd hp Bool.false_ne_true
  case some i =>
    have ⟨hi, hp, before⟩ := findIdx?_slots_eq_some hf
    refine ⟨i, hp, before, fun j => ?_⟩
    have hset := @slot_setSlot flow i j { flow.slot i with acknowledged := true }
    simp only [hi, and_true, @eq_comm _ i j] at hset
    rw [FlowControl.handleOk, h.2]
    dsimp only
    rw [hf]
    exact hset

theorem acknowledgesOldest_iff (h : PlainOk line) (hp : ∃ i, (flow.slot i).pending) :
    AcknowledgesOldest flow (flow.handleResponse line).2.1 ↔
      ¬mentionsResend line ∧ flow.OldestFirst := by
  rw [h.handleResponse]
  split
  case isTrue hm =>
    refine ⟨fun ⟨i, hi, slots⟩ => ?_, fun hn => absurd hm hn.1⟩
    have hs := slots i
    rw [if_pos rfl, slot_of_slots_eq h.slots_handleResendText] at hs
    exact absurd hs.symm (acknowledge_ne hi.1)
  case isFalse hm =>
    have ⟨k, hk, before, slots⟩ := h.handleOk hp
    constructor
    case mp =>
      intro ⟨i, hi, slots'⟩
      have hki : k = i := by
        by_contra hne
        have hs := slots k
        rw [if_pos rfl, slots', if_neg hne] at hs
        exact acknowledge_ne hk hs.symm
      exact ⟨hm, i, hi, hki ▸ before⟩
    case mpr =>
      intro ⟨_, i, hi, first⟩
      have hki : k = i := by
        refine le_antisymm ?_ ?_
        · exact Nat.not_lt.mp fun hlt => before i hlt hi.1
        · exact Nat.not_lt.mp fun hlt => first k hlt hk
      exact ⟨i, hi, hki ▸ slots⟩

end

-- The flow control, and a controller that answers each packet with one plain acknowledgement, in the
-- order of the packets.
structure Exchange where
  flow      : FlowControl
  sent      : Nat
  processed : Nat
  answers   : List CString

namespace Exchange

inductive Event
  | send (command : CString) (outSize : Nat)
  | process (answer : CString)
  | answer

def exec (s : Exchange) : Event → Exchange
  | .send command outSize =>
    let p := s.flow.preparePacket command outSize
    if p.rc = 0 then { s with flow := p.flow, sent := s.sent + 1 } else { s with flow := p.flow }
  | .process answer =>
    if s.processed < s.sent ∧ PlainOk answer then
      { s with processed := s.processed + 1, answers := s.answers ++ [answer] }
    else s
  | .answer =>
    match s.answers with
    | []           => s
    | line :: rest => { s with flow := (s.flow.handleResponse line).2.1, answers := rest }

def init : Exchange where
  flow      := .init
  sent      := 0
  processed := 0
  answers   := []

-- An answer comes while the packet that waits for the longest time is in the first pending slot, and
-- there are fewer than 2^32 packets.
def Permits (s : Exchange) : Event → Prop
  | .send _ _  => s.sent + 1 < 2 ^ 32
  | .process _ => True
  | .answer    => ∀ line ∈ s.answers.head?, ¬mentionsResend line ∧ s.flow.OldestFirst

abbrev Reaches (ok : Exchange → Event → Prop) : Exchange → Exchange → Prop :=
  Relation.ReflTransGen fun s s' => ∃ event, ok s event ∧ s.exec event = s'

-- The packets are acknowledged in the order in which they were sent, `acked` of them so far.
structure Inv (s : Exchange) (acked : Nat) : Prop where
  count    : s.flow.sentCount.toNat = s.sent
  room     : s.processed ≤ s.sent
  plain    : ∀ line ∈ s.answers, PlainOk line
  answered : acked + s.answers.length = s.processed
  done     : ∀ i, (s.flow.slot i).occupied → (s.flow.slot i).acknowledged →
    (s.flow.slot i).sendOrder.toNat < acked
  pending  : ∀ i, (s.flow.slot i).pending → acked ≤ (s.flow.slot i).sendOrder.toNat
  covers   : ∀ n, acked ≤ n → n < s.sent →
    ∃ i, (s.flow.slot i).pending ∧ (s.flow.slot i).sendOrder.toNat = n

variable {s : Exchange} {event : Event} {acked : Nat}

theorem Inv.keep {flow : FlowControl} (inv : Inv s acked) (hs : flow.slots = s.flow.slots)
    (hc : flow.sentCount = s.flow.sentCount) : Inv { s with flow := flow } acked := by
  have slot (i : Nat) : flow.slot i = s.flow.slot i := slot_of_slots_eq hs
  exact {
    count    := hc ▸ inv.count
    room     := inv.room
    plain    := inv.plain
    answered := inv.answered
    done     := fun i => slot i ▸ inv.done i
    pending  := fun i => slot i ▸ inv.pending i
    covers   := by simpa only [slot] using inv.covers }

theorem Inv.send {command : CString} {outSize : Nat} (inv : Inv s acked)
    (hb : s.sent + 1 < 2 ^ 32) : Inv (s.exec (.send command outSize)) acked := by
  unfold exec
  dsimp only
  split
  case isFalse hz =>
    have ⟨slots, _, count⟩ := preparePacket_failed hz
    exact inv.keep slots count
  case isTrue hz =>
    have ⟨hf, _, _, slots⟩ := preparePacket_of_rc_zero hz
    have count := sentCount_preparePacket hz
    have free := firstFreeSlot_not_pending hf
    generalize s.flow.preparePacket command outSize = p at slots count free hf
    have hle : acked ≤ s.sent := by
      have := inv.answered
      have := inv.room
      omega
    exact {
      count := by
        have one : (1 : UInt32).toNat = 1 := rfl
        have h : (p.flow.sentCount).toNat = (s.sent + 1) % 2 ^ 32 := by
          rw [count, UInt32.toNat_add, inv.count, one]
        rw [h, Nat.mod_eq_of_lt hb]
      room := Nat.le_succ_of_le inv.room
      plain := inv.plain
      answered := inv.answered
      done := by
        intro i ho ha
        dsimp only at ho ha ⊢
        rw [slots] at ho ha ⊢
        split at ho
        case isTrue hi  => rw [if_pos hi] at ha; exact absurd ha Bool.false_ne_true
        case isFalse hi =>
          rw [if_neg hi] at ha ⊢
          exact inv.done i ho ha
      pending := by
        intro i hp
        dsimp only at hp ⊢
        rw [slots] at hp ⊢
        split at hp
        case isTrue hi  => rw [if_pos hi]; exact inv.count ▸ hle
        case isFalse hi => rw [if_neg hi]; exact inv.pending i hp
      covers := by
        intro n hn hlt
        dsimp only at hlt ⊢
        by_cases he : n = s.sent
        case pos =>
          refine ⟨p.slot, ?_⟩
          rw [slots, if_pos rfl, he]
          exact ⟨rfl, inv.count⟩
        case neg =>
          have ⟨i, hp, ho⟩ := inv.covers n hn (by omega)
          have hne : p.slot ≠ i := by
            rintro rfl
            exact free hp
          refine ⟨i, ?_⟩
          rw [slots, if_neg hne]
          exact ⟨hp, ho⟩ }

theorem Inv.answer {rest : List CString} (inv : Inv s acked) (ha : s.answers = line :: rest)
    (hm : ¬mentionsResend line) (ho : s.flow.OldestFirst) :
    Inv { s with flow := (s.flow.handleResponse line).2.1, answers := rest } (acked + 1) := by
  have plain : PlainOk line := inv.plain line (ha ▸ List.mem_cons_self)
  have answered := inv.answered
  rw [ha, List.length_cons] at answered
  have ⟨first, hfirst, order⟩ := inv.covers acked le_rfl (by have := inv.room; omega)
  have count := (@counters_handleResponse s.flow line).2
  -- The packet that is acknowledged is the one with number `acked`.
  have ⟨i, oldest, slots⟩ := (acknowledgesOldest_iff plain ⟨first, hfirst⟩).mpr ⟨hm, ho⟩
  generalize (s.flow.handleResponse line).2.1 = flow' at slots count ⊢
  have hi : (s.flow.slot i).sendOrder.toNat = acked := by
    have := inv.pending i oldest.1
    by_cases he : first = i
    case pos => rw [← he, order]
    case neg =>
      have := UInt32.lt_iff_toNat_lt.mp (oldest.2 first he hfirst)
      omega
  have gone : ¬(flow'.slot i).pending := by
    rw [slots, if_pos rfl]
    simp [Slot.pending]
  exact {
    count := count ▸ inv.count
    room := inv.room
    plain := fun line hl => inv.plain line (ha ▸ List.mem_cons_of_mem _ hl)
    answered := by dsimp only; omega
    done := by
      intro j ho hk
      dsimp only at ho hk ⊢
      rw [slots] at ho hk ⊢
      split at ho
      case isTrue hj  => rw [if_pos hj]; exact Nat.lt_succ_of_le hi.le
      case isFalse hj =>
        rw [if_neg hj] at hk ⊢
        exact Nat.lt_succ_of_lt (inv.done j ho hk)
    pending := by
      intro j hp
      dsimp only at hp ⊢
      by_cases hj : j = i
      case pos => exact absurd (hj ▸ hp) gone
      case neg =>
        rw [slots, if_neg hj] at hp ⊢
        have := UInt32.lt_iff_toNat_lt.mp (oldest.2 j hj hp)
        omega
    covers := by
      intro n hn hlt
      have ⟨j, hp, hj⟩ := inv.covers n (by omega) hlt
      have hne : j ≠ i := by
        rintro rfl
        omega
      refine ⟨j, ?_⟩
      dsimp only
      rw [slots, if_neg hne]
      exact ⟨hp, hj⟩ }

theorem Inv.exec (inv : Inv s acked) (ok : s.Permits event) : ∃ acked, Inv (s.exec event) acked := by
  cases event
  case send command outSize => exact ⟨acked, inv.send ok⟩
  case process answer =>
    refine ⟨acked, ?_⟩
    unfold Exchange.exec
    dsimp only
    split
    case isFalse => exact inv
    case isTrue h =>
      exact {
        inv with
        room := h.1
        plain := by
          intro line hl
          cases List.mem_append.mp hl
          case inl hl => exact inv.plain line hl
          case inr hl => exact List.mem_singleton.mp hl ▸ h.2
        answered := by
          have := inv.answered
          simp only [List.length_append, List.length_singleton]
          omega }
  case answer =>
    unfold Exchange.exec
    dsimp only
    split
    case h_1 => exact ⟨acked, inv⟩
    case h_2 line rest ha =>
      have ⟨hm, ho⟩ := ok line (ha ▸ rfl)
      exact ⟨acked + 1, inv.answer ha hm ho⟩

theorem init_inv : Inv init 0 := by
  have slot (i : Nat) : init.flow.slot i = {} := @slot_clearInflight .init i
  exact {
    count := rfl
    room := le_rfl
    plain := nofun
    answered := rfl
    done := fun i ho => by rw [slot] at ho; exact absurd ho Bool.false_ne_true
    pending := fun i hp => by rw [slot] at hp; exact absurd hp Bool.false_ne_true
    covers := nofun }

theorem reached_inv (h : Reaches Permits init s) : ∃ acked, Inv s acked := by
  induction h
  case refl => exact ⟨0, init_inv⟩
  case tail step ih =>
    obtain ⟨event, ok, rfl⟩ := step
    have ⟨_, inv⟩ := ih
    exact inv.exec ok

theorem acknowledged_processed (h : Reaches Permits init s) (ho : (s.flow.slot i).occupied)
    (ha : (s.flow.slot i).acknowledged) : (s.flow.slot i).sendOrder.toNat < s.processed := by
  have ⟨acked, inv⟩ := reached_inv h
  have := inv.done i ho ha
  have := inv.answered
  omega

end Exchange

-- A plain acknowledgement is for the oldest packet when that one is in the first pending slot, and a
-- run in which it always is acknowledges only what the controller has processed.
theorem plainOk_oldest (s : Exchange) :
    (∀ line, PlainOk line → (∃ i, (s.flow.slot i).pending) →
      (AcknowledgesOldest s.flow (s.flow.handleResponse line).2.1 ↔
        ¬mentionsResend line ∧ s.flow.OldestFirst)) ∧
    (Exchange.Reaches Exchange.Permits .init s → ∀ i, (s.flow.slot i).occupied →
      (s.flow.slot i).acknowledged → (s.flow.slot i).sendOrder.toNat < s.processed) :=
  ⟨fun _ => acknowledgesOldest_iff, fun h _ => Exchange.acknowledged_processed h⟩

-- Two packets, and the answer to the first one.
def Exchange.twoSent : Exchange :=
  ((init.exec (.send "M105" 320)).exec (.send "M114" 320)).exec (.process "ok")

theorem twoSent_oldestFirst : Exchange.twoSent.flow.OldestFirst := by
  refine ⟨0, ⟨by decide +kernel, fun j hj hp => ?_⟩, nofun⟩
  have order : ∀ j < flowWindow, j ≠ 0 → (Exchange.twoSent.flow.slot j).pending →
      (Exchange.twoSent.flow.slot 0).sendOrder < (Exchange.twoSent.flow.slot j).sendOrder := by
    decide +kernel
  by_cases hw : j < flowWindow
  case pos => exact order j hw hj hp
  case neg =>
    rw [slot_of_le (Nat.not_lt.mp hw)] at hp
    exact absurd hp Bool.false_ne_true

theorem twoSent_plainOk :
    AcknowledgesOldest Exchange.twoSent.flow (Exchange.twoSent.flow.handleResponse "ok").2.1 ∧
    ((Exchange.twoSent.exec .answer).flow.slot 0).sendOrder.toNat < 1 := by
  have reached : Exchange.Reaches Exchange.Permits .init (Exchange.twoSent.exec .answer) := by
    have first : Exchange.init.Permits (.send "M105" 320) := by
      rw [Exchange.Permits]
      decide
    have second : (Exchange.init.exec (.send "M105" 320)).Permits (.send "M114" 320) := by
      rw [Exchange.Permits]
      decide +kernel
    have answer : Exchange.twoSent.Permits .answer := by
      intro line hl
      have : Exchange.twoSent.answers.head? = some (ofString "ok") := by decide +kernel
      cases this.symm.trans hl
      exact ⟨by decide, twoSent_oldestFirst⟩
    exact .tail (.tail (.tail (.single ⟨_, first, rfl⟩) ⟨_, second, rfl⟩) ⟨.process "ok", trivial, rfl⟩)
      ⟨_, answer, rfl⟩
  have processed : (Exchange.twoSent.exec .answer).processed = 1 := by decide +kernel
  refine ⟨?_, processed ▸ (plainOk_oldest _).2 reached 0 (by decide +kernel) (by decide +kernel)⟩
  exact ((plainOk_oldest .twoSent).1 "ok" (by decide) ⟨0, by decide +kernel⟩).mpr
    ⟨by decide, twoSent_oldestFirst⟩

theorem reaches_foldl {α β : Type} (f : α → β → α) (l : List β) (a : α) :
    Relation.ReflTransGen (fun a a' => ∃ b, True ∧ f a b = a') a (l.foldl f a) := by
  induction l generalizing a
  case nil => exact .refl
  case cons b l ih => exact .head ⟨b, trivial, rfl⟩ (ih _)

-- All slots are taken, and the first one then holds the newest packet.
def wrapped : FlowControl :=
  List.foldl exec init
    (List.replicate 32 (.prepare "M105" 320) ++ [.response "ok", .prepare "M105" 320])

def Exchange.wrapped : Exchange :=
  List.foldl exec init (List.replicate 32 (.send "M105" 320) ++
    [.process "ok", .process "ok", .answer, .send "M105" 320, .answer])

theorem wrapped_not_oldest :
    (¬∀ flow, Reaches (fun _ _ => True) init flow → ∀ line, PlainOk line →
      (∃ i, (flow.slot i).pending) → AcknowledgesOldest flow (flow.handleResponse line).2.1) ∧
    ¬∀ s, Exchange.Reaches (fun _ _ => True) .init s → ∀ i, (s.flow.slot i).occupied →
      (s.flow.slot i).acknowledged → (s.flow.slot i).sendOrder.toNat < s.processed := by
  constructor
  case left =>
    intro h
    have ⟨i, oldest, slots⟩ :=
      h wrapped (reaches_foldl exec _ init) "ok" (by decide) ⟨0, by decide +kernel⟩
    have acked : ((wrapped.handleResponse "ok").2.1.slot 0).pending = false := by decide +kernel
    have first : (wrapped.slot 0).pending := by decide +kernel
    by_cases hi : 0 = i
    case pos =>
      have order : ¬(wrapped.slot 0).sendOrder < (wrapped.slot 1).sendOrder := by decide +kernel
      exact order (hi ▸ oldest.2 1 (hi ▸ by decide) (by decide +kernel))
    case neg =>
      rw [slots, if_neg hi, first] at acked
      contradiction
  case right =>
    intro h
    have processed := h .wrapped (reaches_foldl Exchange.exec _ .init) 0 (by decide +kernel)
      (by decide +kernel)
    exact absurd processed (by decide +kernel)

end Deneb.FlowControl
