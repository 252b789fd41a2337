import DenebModel.Objects.MotionSender
import Mathlib.Logic.Relation

namespace Deneb

open CString FlowControl

def hexDigit (n : Nat) : UInt8 :=
  if n < 10 then (48 + n).toUInt8 else (55 + n).toUInt8

-- `%02X`
def hexByte (b : UInt8) : CString :=
  [hexDigit (b.toNat / 16), hexDigit (b.toNat % 16)]

-- A sync line of the motion controller: a code (`o`, `r` or `q`), the sequence and the free space of
-- its queue, and the CRC8 of these.
def syncLine (code sequence freeSpace : UInt8) : CString :=
  let data := code :: hexByte sequence ++ hexByte freeSpace
  data ++ hexByte (crc8 data)

-- The host's flow control, the motion controller (the sequence it expects and the commands it has
-- executed) and the two FIFO links between them. `prepared` are the commands of all packets that
-- `deneb_flow_prepare_packet` made.
structure Link where
  flow         : FlowControl
  prepared     : List CString
  toController : List (List UInt8)
  expected     : Nat
  executed     : List CString
  toHost       : List CString

namespace Link

-- The motion controller takes one packet off its link.
def receive (link : Link) (packet : List UInt8) (rest : List (List UInt8)) (freeSpace : UInt8) :
    Link :=
  match MarlinPacket.decode packet with
  | some (sequence, command) =>
    if sequence.toNat = link.expected then
      { link with
        toController := rest
        expected     := (link.expected + 1) % sequenceModulo
        executed     := link.executed ++ [command]
        toHost       := link.toHost ++ [syncLine 111 sequence freeSpace] }
    else refuse
  | none => refuse
where
  refuse := { link with
    toController := rest
    toHost       := link.toHost ++ [syncLine 114 link.expected.toUInt8 freeSpace] }

-- The packets that `deneb_motion_sender_resend_pending` passes to the serial port, when the outcomes
-- of its writes are `writes`.
def resent (flow : FlowControl) (writes : List Bool) : List (List UInt8) :=
  (MotionSender.resendPending flow { isOpen := true, writes := writes } true).2.written

-- The host takes one line off its link.
def deliver (link : Link) (line : CString) (rest : List CString) (writes : List Bool) : Link :=
  let (rc, flow, _) := link.flow.handleResponse line
  { link with
    flow         := flow
    toController := link.toController ++ if rc = 2 then resent flow writes else []
    toHost       := rest }

inductive Step : Link → Link → Prop
  | prepare (command outSize) : (s.flow.preparePacket command outSize).rc = 0 →
    Step s { s with
      flow         := (s.flow.preparePacket command outSize).flow
      prepared     := s.prepared ++ [command]
      toController := s.toController ++ [(s.flow.preparePacket command outSize).packet] }
  | receive (freeSpace) : s.toController = packet :: rest →
    Step s (s.receive packet rest freeSpace)
  | status (sequence freeSpace) :
    Step s { s with toHost := s.toHost ++ [syncLine 113 sequence freeSpace] }
  | deliver (writes) : s.toHost = line :: rest →
    Step s (s.deliver line rest writes)
  | losePacket (before packet after) : s.toController = before ++ packet :: after →
    Step s { s with toController := before ++ after }
  | damagePacket (before packet after) : s.toController = before ++ packet :: after →
    MarlinPacket.decode damaged = none →
    Step s { s with toController := before ++ damaged :: after }
  | loseLine (before line after) : s.toHost = before ++ line :: after →
    Step s { s with toHost := before ++ after }
  | damageLine (before line after) : s.toHost = before ++ line :: after →
    parseSyncPacket damaged = .damaged →
    Step s { s with toHost := before ++ damaged :: after }

abbrev Steps : Link → Link → Prop :=
  Relation.ReflTransGen Step

-- Nothing is in flight, and the controller expects the sequence that the host uses next.
def Initial (s : Link) : Prop :=
  s.flow.slots = List.replicate flowWindow {} ∧ s.flow.nextSequence.toNat < sequenceModulo ∧
  s.expected = s.flow.nextSequence.toNat ∧ s.prepared = [] ∧ s.executed = [] ∧
  s.toController = [] ∧ s.toHost = []

end Link
end Deneb
