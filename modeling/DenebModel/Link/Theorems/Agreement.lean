import DenebModel.Primitives.GoBackN
import DenebModel.Objects.Theorems.MotionSender
import DenebModel.Link.Theorems.Tracks
import Mathlib.Data.List.Forall2

namespace Deneb

open CString FlowControl

theorem hexValue_hexDigit {n : Nat} (h : n < 16) : Scan.hexValue (hexDigit n) = some n := by
  revert n
  decide

theorem parseHexByte_hexDigit (b : UInt8) :
    parseHexByte (hexDigit (b.toNat / 16)) (hexDigit (b.toNat % 16)) = some b := by
  have hb := b.toNat_lt
  have h₁ : b.toNat / 16 < 16 := by omega
  have h₂ : b.toNat % 16 < 16 := by omega
  rw [parseHexByte, hexValue_hexDigit h₁, hexValue_hexDigit h₂]
  change some (16 * (b.toNat / 16) + b.toNat % 16).toUInt8 = some b
  rw [Nat.div_add_mod, Nat.toUInt8, UInt8.ofNat_toNat]

theorem parseSyncPacket_syncLine {code sequence freeSpace : UInt8}
    (h : code = 111 ∨ code = 114 ∨ code = 113) :
    parseSyncPacket (syncLine code sequence freeSpace) = .valid code sequence freeSpace := by
  have hc : (code == 111 || code == 114 || code == 113) = true := by simpa [or_assoc] using h
  simp [syncLine, hexByte, parseSyncPacket, hc, parseHexByte_hexDigit]

namespace MotionSender

-- A block that `deneb_motion_sender_resend_pending` may write.
def IsResent (flow : FlowControl) (block : List UInt8) : Prop :=
  block = soh ∨ ∃ i, (flow.slot i).pending ∧
    flow.getResendPacket (flow.slot i).sequence packetSize = some block

theorem writeAll_written {serial : SerialTransport} {data : List UInt8} :
    (serial.writeAll data).2.written = serial.written ∨
    (serial.writeAll data).2.written = serial.written ++ [data] := by
  unfold SerialTransport.writeAll
  split
  case isTrue  => exact .inl rfl
  case isFalse => exact .inr rfl

theorem resendSequence_written {flow : FlowControl} {serial : SerialTransport} {i : Nat}
    (hp : (flow.slot i).pending) (hw : ∀ block ∈ serial.written, IsResent flow block) :
    ∀ block ∈ (resendSequence flow serial true (flow.slot i).sequence).2.written,
      IsResent flow block := by
  unfold resendSequence
  split
  case h_1 => exact hw
  case h_2 packet h =>
    intro block hb
    have hb : block ∈ (serial.writeAll packet).2.written := hb
    rcases @writeAll_written serial packet with hs | hs <;> rw [hs] at hb
    case inl => exact hw block hb
    case inr =>
      rcases List.mem_append.mp hb with hb | hb
      case inl => exact hw block hb
      case inr => exact List.mem_singleton.mp hb ▸ .inr ⟨i, hp, h⟩

theorem resendLoop_written {flow : FlowControl} {rounds : Nat} {serial : SerialTransport}
    {emitted : List Nat} (hw : ∀ block ∈ serial.written, IsResent flow block) :
    ∀ block ∈ (resendLoop flow rounds serial emitted).2.written, IsResent flow block := by
  induction rounds generalizing serial emitted
  case zero => exact hw
  case succ rounds ih =>
    unfold resendLoop
    split
    case h_1 => exact hw
    case h_2 best hb =>
      have hs := resendSequence_written (bestPending_eq_some hb).1.1 hw
      dsimp only
      split
      case isTrue  => exact hs
      case isFalse => exact ih hs

theorem isResent_of_resent (flow : FlowControl) (writes : List Bool) :
    ∀ block ∈ Link.resent flow writes, IsResent flow block := by
  unfold Link.resent resendPending
  have hs : ∀ block ∈ (SerialTransport.writeAll { isOpen := true, writes := writes } soh).2.written,
      IsResent flow block := by
    intro block hb
    exact .inl <| by simpa [SerialTransport.writeAll] using hb
  simp only [Bool.not_true, Bool.false_eq_true, if_false]
  split
  case isTrue  => exact hs
  case isFalse => exact resendLoop_written hs

end MotionSender

namespace Link

def PacketRel (start : Nat) (packet : List UInt8) (p : Option (Nat × CString)) : Prop :=
  MarlinPacket.decode packet = p.map fun (n, command) => (sequenceOf start n, command)

def LineRel (start : Nat) (line : CString) : GoBackN.Reply → Prop
  | .ack n => ∃ freeSpace, parseSyncPacket line = .valid 111 (sequenceOf start n) freeSpace
  | .nak n => ∃ freeSpace, parseSyncPacket line = .valid 114 (sequenceOf start n) freeSpace
  | .noise => parseSyncPacket line = .damaged ∨
    ∃ sequence freeSpace, parseSyncPacket line = .valid 113 sequence freeSpace

-- The link with 8 bit sequences and reused slots, and the protocol with numbered messages.
structure Simulates (start : Nat) (link : Link) (s : GoBackN.State CString) : Prop where
  sent     : s.sent = link.prepared
  executed : s.executed = link.executed
  expected : link.expected = (start + link.executed.length) % 255
  tracks   : ∃ num, Tracks start num link.flow s.sent s.base
  packets  : List.Forall₂ (PacketRel start) link.toController s.packets
  lines    : List.Forall₂ (LineRel start) link.toHost s.replies

variable {start : Nat} {link link' : Link} {s : GoBackN.State CString}

-- Splits a list related to one that is split at an element.
theorem forall₂_split {α β : Type} {R : α → β → Prop} {before after : List α} {a : α} {bs : List β}
    (h : List.Forall₂ R (before ++ a :: after) bs) :
    ∃ before' b after', bs = before' ++ b :: after' ∧ List.Forall₂ R before before' ∧ R a b ∧
      List.Forall₂ R after after' := by
  induction before generalizing bs
  case nil =>
    cases h
    case cons b after' hab h => exact ⟨[], b, after', rfl, .nil, hab, h⟩
  case cons c before ih =>
    cases h
    case cons d bs hcd h =>
      have ⟨before', b, after', he, hb, hab, ha⟩ := ih h
      exact ⟨d :: before', b, after', by simp [he], .cons hcd hb, hab, ha⟩

theorem forall₂_snoc {α β : Type} {R : α → β → Prop} {as : List α} {a : α} {bs : List β} {b : β}
    (h : List.Forall₂ R as bs) (hab : R a b) : List.Forall₂ R (as ++ [a]) (bs ++ [b]) :=
  List.rel_append h (.cons hab .nil)

namespace Simulates

theorem prepare (sim : Simulates start link s) (inv : GoBackN.Inv flowWindow s)
    {command : CString} {outSize : Nat} (h : (link.flow.preparePacket command outSize).rc = 0) :
    ∃ s', GoBackN.Steps flowWindow s s' ∧ Simulates start { link with
      flow         := (link.flow.preparePacket command outSize).flow
      prepared     := link.prepared ++ [command]
      toController := link.toController ++ [(link.flow.preparePacket command outSize).packet] }
      s' := by
  have ⟨num, t⟩ := sim.tracks
  have ⟨room, tracks⟩ := t.prepare (inv.base_le.trans inv.in_order.length_le) h
  have encoded := (preparePacket_of_rc_zero h).2.1
  refine ⟨_, .single <| .send command room, ?_⟩
  exact {
    sent     := by simp [sim.sent]
    executed := sim.executed
    expected := sim.expected
    tracks   := tracks
    packets  := by
      refine forall₂_snoc sim.packets ?_
      rw [PacketRel, MarlinPacket.decode_encode encoded, t.next]
      rfl
    lines    := sim.lines
  }

theorem refuse (sim : Simulates start link s) {packet : List UInt8} {rest : List (List UInt8)}
    {freeSpace : UInt8} (h : link.toController = packet :: rest)
    (hd : ∀ n command, PacketRel start packet (some (n, command)) → n ≠ link.executed.length) :
    ∃ s', GoBackN.Steps flowWindow s s' ∧
      Simulates start (receive.refuse link rest freeSpace) s' := by
  have packets := sim.packets
  rw [h] at packets
  cases hp : s.packets with
  | nil => rw [hp] at packets; cases packets
  | cons p ps =>
    rw [hp] at packets
    have ⟨rel, packets⟩ := List.forall₂_cons.mp packets
    have ne : ∀ n command, p = some (n, command) → n ≠ s.executed.length := by
      intro n command he
      rw [sim.executed]
      exact hd n command (he ▸ rel)
    refine ⟨_, .single <| .refuse hp ne, ?_⟩
    exact {
      sent     := sim.sent
      executed := sim.executed
      expected := sim.expected
      tracks   := sim.tracks
      packets  := packets
      lines    := by
        refine forall₂_snoc sim.lines ⟨freeSpace, ?_⟩
        have he : link.expected.toUInt8 = sequenceOf start s.executed.length := by
          rw [sim.expected, sim.executed]
          rfl
        rw [parseSyncPacket_syncLine (by simp), he]
    }

theorem receive (sim : Simulates start link s) (inv : GoBackN.Inv flowWindow s)
    {packet : List UInt8} {rest : List (List UInt8)} {freeSpace : UInt8}
    (h : link.toController = packet :: rest) :
    ∃ s', GoBackN.Steps flowWindow s s' ∧
      Simulates start (link.receive packet rest freeSpace) s' := by
  unfold Link.receive
  split
  case h_2 hd =>
    refine sim.refuse h (fun n command rel => ?_)
    rw [PacketRel, hd] at rel
    contradiction
  case h_1 sequence command hd =>
    split
    case isFalse hs =>
      refine sim.refuse h (fun n command' rel hn => hs ?_)
      rw [PacketRel, hd] at rel
      cases rel
      rw [sequenceOf_toNat, sim.expected, hn]
    case isTrue hs =>
      have packets := sim.packets
      rw [h] at packets
      cases hp : s.packets with
      | nil => rw [hp] at packets; cases packets
      | cons p ps =>
        rw [hp] at packets
        have ⟨rel, rest_packets⟩ := List.forall₂_cons.mp packets
        rw [PacketRel, hd] at rel
        match p, rel with
        | some (n, m), rel =>
          cases rel
          -- The number is within a window of the expected one, so equal sequences mean equal numbers.
          have near := inv.head_near hp
          have hn : n = s.executed.length := by
            rw [sequenceOf_toNat, sim.expected, ← sim.executed] at hs
            simp only [flowWindow] at near
            omega
          refine ⟨_, .single <| .execute hp hn, ?_⟩
          exact {
            sent     := sim.sent
            executed := by simp [sim.executed]
            expected := by
              simp only [sim.expected, List.length_append, List.length_singleton, sequenceModulo]
              omega
            tracks   := sim.tracks
            packets  := rest_packets
            lines    := forall₂_snoc sim.lines ⟨freeSpace, parseSyncPacket_syncLine (by simp)⟩
          }

-- The host resends packets that wait for their acknowledgement.
theorem resend {blocks : List (List UInt8)}
    (hb : ∀ block ∈ blocks, MotionSender.IsResent link.flow block)
    (sim : Simulates start link s) (inv : GoBackN.Inv flowWindow s) :
    ∃ s', GoBackN.Steps flowWindow s s' ∧
      Simulates start { link with toController := link.toController ++ blocks } s' := by
  induction blocks generalizing link s
  case nil => exact ⟨s, .refl, by simpa using sim⟩
  case cons block blocks ih =>
    have ⟨hb, hbs⟩ := List.forall_mem_cons.mp hb
    have ⟨num, t⟩ := sim.tracks
    -- One step for this block.
    have ⟨p, e, rel⟩ : ∃ p, GoBackN.Step flowWindow s { s with packets := s.packets ++ [p] } ∧
        PacketRel start block p := by
      rcases hb with hb | ⟨i, hp, hg⟩
      case inl => exact ⟨none, .garble, hb ▸ rfl⟩
      case inr =>
        have ⟨hi, hl, hn⟩ := t.pending_iff.mp hp
        refine ⟨some (num i, (link.flow.slot i).command), .resend hn (t.command i hi hl), ?_⟩
        rw [getResendPacket, t.slotForSequence_of_pending inv.sent_le hp] at hg
        rw [PacketRel, MarlinPacket.decode_encode hg, t.sequence i hi hl]
        rfl
    have sim' : Simulates start { link with toController := link.toController ++ [block] }
        { s with packets := s.packets ++ [p] } :=
      { sim with packets := forall₂_snoc sim.packets rel }
    have ⟨s', es, sim'⟩ := @ih { link with toController := link.toController ++ [block] } _
      hbs sim' (inv.step e)
    exact ⟨s', .head e es, by simpa using sim'⟩

-- The host takes a line that does not change which packets it counts as acknowledged.
theorem drop_line (sim : Simulates start link s) {r : GoBackN.Reply} {rs : List GoBackN.Reply}
    {rest : List CString} {flow : FlowControl} (hr : s.replies = r :: rs)
    (lines : List.Forall₂ (LineRel start) rest rs)
    (hn : flow.nextSequence = link.flow.nextSequence) (hs : flow.slots = link.flow.slots) :
    ∃ s', GoBackN.Steps flowWindow s s' ∧
      Simulates start { link with flow := flow, toHost := rest } s' := by
  have ⟨num, t⟩ := sim.tracks
  refine ⟨_, .single <| .loseReply [] r rs hr, ?_⟩
  exact { sim with
    tracks := ⟨num, t.of_slots_eq hn hs⟩
    lines  := lines }

-- `deneb_flow_handle_response` for each reply, before anything is resent.
theorem deliver_ack (sim : Simulates start link s) (inv : GoBackN.Inv flowWindow s)
    {n : Nat} {rs : List GoBackN.Reply} {freeSpace : UInt8} {rest : List CString}
    (hr : s.replies = .ack n :: rs) (lines : List.Forall₂ (LineRel start) rest rs) :
    ∃ s', GoBackN.Steps flowWindow s s' ∧ Simulates start { link with
      flow   := (link.flow.handleSync 111 (sequenceOf start n) freeSpace).2.1
      toHost := rest } s' := by
  have ⟨num, t⟩ := sim.tracks
  have ⟨hb, hn⟩ := inv.head_between hr
  have hl : n < s.sent.length := hn.trans_le inv.in_order.length_le
  have ⟨i, hi, hil, hin⟩ := t.covers n hl hb
  simp only [handleSync, if_neg (show (111 : UInt8) ≠ 113 by decide), if_true]
  split
  case h_1 hf =>
    -- The number waits for its acknowledgement, so its slot is found.
    exact absurd hf <| slotForSequence_ne_none hi (t.occupied i hi hil) (hin ▸ t.sequence i hi hil)
  case h_2 =>
    refine ⟨_, .single <| .accept hr (by simp), ?_⟩
    have t' : Tracks start num { link.flow with
        controllerFreeSpace      := freeSpace
        controllerFreeSpaceKnown := true
        handlingResend           := false } s.sent s.base := t.of_slots_eq rfl rfl
    exact { sim with
      tracks := ⟨num, t'.acknowledgeThrough inv.sent_le hb hl⟩
      lines  := lines }

theorem deliver_nak (sim : Simulates start link s) (inv : GoBackN.Inv flowWindow s)
    {n : Nat} {rs : List GoBackN.Reply} {freeSpace : UInt8} {rest : List CString}
    (hr : s.replies = .nak n :: rs) (lines : List.Forall₂ (LineRel start) rest rs) :
    ∃ s', GoBackN.Steps flowWindow s s' ∧ Simulates start { link with
      flow   := (link.flow.handleSync 114 (sequenceOf start n) freeSpace).2.1
      toHost := rest } s' := by
  obtain ⟨num, t⟩ := sim.tracks
  obtain ⟨hb, hn⟩ := inv.head_between hr
  simp only [handleSync, if_neg (show (114 : UInt8) ≠ 113 by decide),
    if_neg (show (114 : UInt8) ≠ 111 by decide)]
  split
  case h_1 => exact sim.drop_line hr lines rfl rfl
  case h_2 i hf =>
    split
    case isTrue  => exact sim.drop_line hr lines rfl rfl
    case isFalse =>
      obtain ⟨hi, hp, hs⟩ := pendingSlotForSequence_eq_some hf
      obtain ⟨_, hil, hbi⟩ := t.pending_iff.mp hp
      have hnum := t.num_lt hi hil
      have := inv.sent_le
      have := inv.in_order.length_le
      have window : flowWindow = 32 := rfl
      have hin : num i = n := by
        have hs : sequenceOf start (num i) = sequenceOf start n := t.sequence i hi hil ▸ hs
        exact sequenceOf_inj hs (by omega) (by omega)
      refine ⟨_, .single <| .accept hr (by simp), ?_⟩
      have t' : Tracks start num { link.flow with
          controllerFreeSpace      := freeSpace
          controllerFreeSpaceKnown := true } s.sent s.base := t.of_slots_eq rfl rfl
      have acked := t'.acknowledgeThrough (b := false) inv.sent_le hb (hin ▸ hnum)
      have pending := acked.pending_iff.mpr ⟨hi, hil, hin ▸ le_rfl⟩
      exact { sim with
        tracks := ⟨num, acked.requestResend pending⟩
        lines  := lines }

theorem deliver_noise (sim : Simulates start link s) {rs : List GoBackN.Reply} {line : CString}
    {rest : List CString} (hr : s.replies = .noise :: rs)
    (lines : List.Forall₂ (LineRel start) rest rs) (rel : LineRel start line .noise) :
    ∃ s', GoBackN.Steps flowWindow s s' ∧ Simulates start { link with
      flow   := (link.flow.handleResponse line).2.1
      toHost := rest } s' := by
  rcases rel with hp | ⟨sequence, freeSpace, hp⟩
  all_goals
    simp only [handleResponse, hp, handleSync, if_true]
    exact sim.drop_line hr lines rfl rfl

theorem deliver (sim : Simulates start link s) (inv : GoBackN.Inv flowWindow s)
    {line : CString} {rest : List CString} {writes : List Bool} (h : link.toHost = line :: rest) :
    ∃ s', GoBackN.Steps flowWindow s s' ∧ Simulates start (link.deliver line rest writes) s' := by
  have lines := sim.lines
  rw [h] at lines
  -- First what the line does to the flow control, then what is resent.
  have ⟨s', es, sim'⟩ : ∃ s', GoBackN.Steps flowWindow s s' ∧ Simulates start { link with
      flow   := (link.flow.handleResponse line).2.1
      toHost := rest } s' := by
    match hr : s.replies, lines with
    | .ack n :: rs, .cons ⟨freeSpace, hp⟩ lines =>
      rw [handleResponse, hp]
      exact sim.deliver_ack inv hr lines
    | .nak n :: rs, .cons ⟨freeSpace, hp⟩ lines =>
      rw [handleResponse, hp]
      exact sim.deliver_nak inv hr lines
    | .noise :: rs, .cons rel lines =>
      exact sim.deliver_noise hr lines rel
  simp only [Link.deliver]
  split
  case isFalse => exact ⟨s', es, by simpa using sim'⟩
  case isTrue  =>
    have ⟨s'', es', sim''⟩ := sim'.resend (MotionSender.isResent_of_resent _ writes) (inv.steps es)
    exact ⟨s'', es.trans es', sim''⟩

theorem step (sim : Simulates start link s) (inv : GoBackN.Inv flowWindow s)
    (e : Step link link') : ∃ s', GoBackN.Steps flowWindow s s' ∧ Simulates start link' s' := by
  cases e
  case prepare command outSize h => exact sim.prepare inv h
  case receive freeSpace h       => exact sim.receive inv h
  case deliver writes h          => exact sim.deliver inv h
  case status sequence freeSpace =>
    have rel : LineRel start (syncLine 113 sequence freeSpace) .noise :=
      .inr ⟨sequence, freeSpace, parseSyncPacket_syncLine (by simp)⟩
    exact ⟨_, .single .chat, { sim with lines := forall₂_snoc sim.lines rel }⟩
  case losePacket before packet after h =>
    have ⟨before', p, after', hp, hb, _, ha⟩ := forall₂_split (h ▸ sim.packets)
    exact ⟨_, .single <| .lose before' p after' hp, { sim with packets := List.rel_append hb ha }⟩
  case damagePacket damaged before packet after hd h =>
    have ⟨before', p, after', hp, hb, _, ha⟩ := forall₂_split (h ▸ sim.packets)
    exact ⟨_, .single <| .damage before' p after' hp,
      { sim with packets := List.rel_append hb (.cons hd ha) }⟩
  case loseLine before line after h =>
    have ⟨before', r, after', hr, hb, _, ha⟩ := forall₂_split (h ▸ sim.lines)
    exact ⟨_, .single <| .loseReply before' r after' hr, { sim with lines := List.rel_append hb ha }⟩
  case damageLine damaged before line after hd h =>
    have ⟨before', r, after', hr, hb, _, ha⟩ := forall₂_split (h ▸ sim.lines)
    exact ⟨_, .single <| .damageReply before' r after' hr,
      { sim with lines := List.rel_append hb (.cons (.inl hd) ha) }⟩

theorem steps (sim : Simulates start link s) (inv : GoBackN.Inv flowWindow s)
    (e : Steps link link') : ∃ s', GoBackN.Steps flowWindow s s' ∧ Simulates start link' s' := by
  induction e
  case refl => exact ⟨s, .refl, sim⟩
  case tail _ e ih =>
    have ⟨s', es, sim'⟩ := ih
    have ⟨s'', es', sim''⟩ := sim'.step (inv.steps es) e
    exact ⟨s'', es.trans es', sim''⟩

end Simulates

theorem Initial.simulates (init : Initial link) :
    Simulates link.flow.nextSequence.toNat link ⟨[], 0, [], [], []⟩ := by
  have ⟨slots, next, expected, prepared, executed, packets, lines⟩ := init
  have lt : link.flow.nextSequence.toNat < 255 := next
  have tracks : Tracks link.flow.nextSequence.toNat id link.flow [] 0 := {
    next := by
      apply UInt8.toNat_inj.mp
      rw [sequenceOf_toNat, List.length_nil]
      omega
    unused   := fun i _ => by simp only [slot, slots]; grind
    occupied := by simp
    command  := by simp
    sequence := by simp
    acked    := by simp
    covers   := by simp
    inj      := by simp
    recent   := by simp
  }
  exact {
    sent     := prepared.symm
    executed := executed.symm
    expected := by rw [expected, executed, List.length_nil]; omega
    tracks   := ⟨id, tracks⟩
    packets  := by rw [packets]; exact .nil
    lines    := by rw [lines]; exact .nil
  }

theorem inv_nil : GoBackN.Inv flowWindow (⟨[], 0, [], [], []⟩ : GoBackN.State CString) where
  in_order := List.prefix_rfl
  base_le  := le_rfl
  sent_le  := by simp
  carries  := by simp
  near     := .nil
  between  := by simp
  ordered  := .nil

-- The controller executes the prepared commands in order, without loss or repetition, and a slot
-- only counts as acknowledged when its command was executed.
theorem executed_prefix_prepared (init : Initial link) (e : Steps link link') :
    link'.executed <+: link'.prepared ∧
    ∀ slot ∈ link'.flow.slots, slot.acknowledged →
      ∃ n : Nat, link'.executed[n]? = some slot.command ∧
        slot.sequence.toNat = (link.flow.nextSequence.toNat + n) % sequenceModulo := by
  have ⟨s, es, sim⟩ := init.simulates.steps inv_nil e
  have inv := inv_nil.steps es
  have ⟨num, t⟩ := sim.tracks
  refine ⟨sim.executed ▸ sim.sent ▸ inv.in_order, fun slot hs ha => ?_⟩
  have ⟨i, hi, he⟩ := List.getElem_of_mem hs
  rw [← slot_eq_getElem hi] at he
  have hw : i < flowWindow := link'.flow.slots_length ▸ hi
  have hl : i < s.sent.length := by
    by_contra hc
    rw [← he, t.unused i (by omega)] at ha
    contradiction
  have hn : num i < s.executed.length := (t.acked i hw hl |>.mp (he ▸ ha)).trans_le inv.base_le
  refine ⟨num i, ?_, ?_⟩
  case refine_1 =>
    rw [← sim.executed, ← he, ← t.command i hw hl, List.getElem?_eq_getElem hn,
      List.getElem?_eq_getElem (hn.trans_le inv.in_order.length_le), inv.in_order.getElem hn]
  case refine_2 =>
    rw [← he, t.sequence i hw hl, sequenceOf_toNat]
    rfl

-- A lost packet: the host resends, and both commands are executed in order.
theorem executed_prefix_prepared_after_loss :
    ∃ link' : Link, link'.executed = (["G28", "M105"] : List CString) ∧
    link'.executed <+: link'.prepared ∧
    ∀ slot ∈ link'.flow.slots, slot.acknowledged →
      ∃ n : Nat, link'.executed[n]? = some slot.command ∧
        slot.sequence.toNat = (0 + n) % sequenceModulo := by
  let link : Link := ⟨{}, [], [], 0, [], []⟩
  have init : Initial link := ⟨rfl, by decide, rfl, rfl, rfl, rfl, rfl⟩
  have ⟨link', he, e⟩ : ∃ link' : Link,
      link'.executed = (["G28", "M105"] : List CString) ∧ Steps link link' := by
    have receive (s : Link) (h : s.toController ≠ []) :
        Step s (s.receive s.toController.headI s.toController.tail 4) :=
      .receive 4 (List.cons_head!_tail h).symm
    have deliver (s : Link) (h : s.toHost ≠ []) :
        Step s (s.deliver s.toHost.headI s.toHost.tail []) :=
      .deliver [] (List.cons_head!_tail h).symm
    have lose (s : Link) (h : s.toController ≠ []) :
        Step s { s with toController := s.toController.tail } :=
      .losePacket [] s.toController.headI s.toController.tail (List.cons_head!_tail h).symm
    refine ⟨?_, ?executed, ?run⟩
    case run =>
      apply Relation.ReflTransGen.head <| .prepare "G28" 320 (by decide +kernel)
      apply Relation.ReflTransGen.head <| .prepare "M105" 320 (by decide +kernel)
      apply Relation.ReflTransGen.head <| lose _ (by decide +kernel)
      apply Relation.ReflTransGen.head <| receive _ (by decide +kernel)
      apply Relation.ReflTransGen.head <| deliver _ (by decide +kernel)
      apply Relation.ReflTransGen.head <| receive _ (by decide +kernel)
      apply Relation.ReflTransGen.head <| receive _ (by decide +kernel)
      apply Relation.ReflTransGen.head <| receive _ (by decide +kernel)
      exact .refl
    case executed => decide +kernel
  exact ⟨link', he, executed_prefix_prepared init e⟩

end Link
end Deneb
