import DenebModel.Primitives.Scan
import DenebModel.Objects.MarlinPacket

namespace Deneb

open CString

structure Slot where
  sequence       : UInt8   := 0
  command        : CString := []
  occupied       : Bool    := false
  acknowledged   : Bool    := false
  barrier        : Bool    := false
  sendOrder      : UInt32  := 0
  resendAttempts : UInt32  := 0
  deriving DecidableEq

-- A slot whose packet waits for an acknowledgement.
def Slot.pending (slot : Slot) : Bool :=
  slot.occupied && !slot.acknowledged

-- `DENEB_FLOW_WINDOW`
abbrev flowWindow : Nat := 32

-- `DENEB_FLOW_RESEND_ATTEMPT_LIMIT`
def flowResendAttemptLimit : UInt32 := 8

-- `DENEB_PRINTSVC_STREAM_WINDOW`
def streamWindow : Nat := 4

theorem emptySlots_length : (List.replicate flowWindow ({} : Slot)).length = flowWindow := rfl

structure FlowControl where
  nextSequence              : UInt8  := 0
  lastProtoExpectedSequence : UInt8  := 0
  controllerFreeSpace       : UInt8  := 0
  controllerFreeSpaceKnown  : Bool   := false
  handlingResend            : Bool   := false
  slots                     : List Slot := List.replicate flowWindow {}
  sentCount                 : UInt32 := 0
  ackCount                  : UInt32 := 0
  resendCount               : UInt32 := 0
  rejectCount               : UInt32 := 0
  slots_length              : slots.length = flowWindow := by exact emptySlots_length
  deriving DecidableEq

namespace FlowControl

def commandStartsWith (command p : CString) : Bool :=
  startsWith command p &&
    match command.drop p.length with
    | []     => true
    | c :: _ => c == 32 || c == 9

def commandIsBarrier (command : CString) : Bool :=
  commandStartsWith command "G28" ||
  commandStartsWith command "G90" ||
  commandStartsWith command "G91" ||
  commandStartsWith command "G92" ||
  commandStartsWith command "M400" ||
  commandStartsWith command "M82" ||
  commandStartsWith command "M83" ||
  commandStartsWith command "M109" ||
  commandStartsWith command "M190"

def clearInflight (flow : FlowControl) : FlowControl :=
  { flow with
    slots                    := List.replicate flowWindow {}
    controllerFreeSpace      := 0
    controllerFreeSpaceKnown := false
    slots_length             := emptySlots_length }

def resyncToExpected (flow : FlowControl) : FlowControl :=
  { flow.clearInflight with
    nextSequence   := flow.lastProtoExpectedSequence
    handlingResend := false }

def slot (flow : FlowControl) (i : Nat) : Slot :=
  flow.slots.getD i {}

def slotForSequence (flow : FlowControl) (sequence : UInt8) : Option Nat :=
  flow.slots.findIdx? fun slot => slot.occupied && slot.sequence == sequence

def pendingSlotForSequence (flow : FlowControl) (sequence : UInt8) : Option Nat :=
  match flow.slotForSequence sequence with
  | none   => none
  | some i => if (flow.slot i).acknowledged then none else some i

def firstFreeSlot (flow : FlowControl) : Option Nat :=
  if flow.controllerFreeSpaceKnown && flow.controllerFreeSpace == 0 then none
  else
    match flow.slots.findIdx? (!·.occupied) with
    | some i => some i
    | none   => flow.slots.findIdx? (·.acknowledged)

def parseHexByte (hi lo : UInt8) : Option UInt8 := do
  let hi ← Scan.hexValue hi
  let lo ← Scan.hexValue lo
  return (16 * hi + lo).toUInt8

-- What a line is as a sync packet: none at all, one with a wrong CRC, or a valid one with its code,
-- sequence and free space.
inductive SyncPacket
  | none
  | damaged
  | valid (code sequence freeSpace : UInt8)
  deriving DecidableEq

def parseSyncPacket : CString → SyncPacket
  | [code, s₁, s₂, f₁, f₂, c₁, c₂] =>
    if code == 111 || code == 114 || code == 113 then
      match parseHexByte s₁ s₂, parseHexByte f₁ f₂, parseHexByte c₁ c₂ with
      | some sequence, some freeSpace, some crc =>
        if crc = crc8 [code, s₁, s₂, f₁, f₂] then .valid code sequence freeSpace else .damaged
      | _, _, _ => .none
    else .none
  | _ => .none

def sequenceModulo : Nat := 255

def sequenceIsNotNewer (sequence acknowledged : UInt8) : Bool :=
  let seq := sequence.toNat
  let ack := acknowledged.toNat
  if sequenceModulo ≤ seq ∨ sequenceModulo ≤ ack then sequence == acknowledged
  else
    let diff := if seq ≤ ack then ack - seq else ack + sequenceModulo - seq
    diff < flowWindow

-- `next_sequence`; the parameter is a `uint8_t`, so the increment itself wraps at 256.
def sequenceAfter (sequence : UInt8) : UInt8 :=
  if sequenceModulo ≤ (sequence + 1).toNat then 0 else sequence + 1

-- The slots that `acknowledge_through` marks.
def isThrough (sequence : UInt8) (includeSequence : Bool) (slot : Slot) : Bool :=
  slot.pending &&
    if slot.sequence == sequence then includeSequence
    else sequenceIsNotNewer slot.sequence sequence

def acknowledgeThrough (flow : FlowControl) (sequence : UInt8) (includeSequence : Bool) :
    FlowControl :=
  let hit := isThrough sequence includeSequence
  { flow with
    slots        := flow.slots.map fun slot =>
      if hit slot then { slot with acknowledged := true } else slot
    ackCount     := flow.ackCount + (flow.slots.countP hit).toUInt32
    slots_length := by simp [flow.slots_length] }

def setSlot (flow : FlowControl) (i : Nat) (slot : Slot) : FlowControl :=
  { flow with
    slots        := flow.slots.set i slot
    slots_length := by simp [flow.slots_length] }

def requestResend (flow : FlowControl) (i : Nat) : Int × FlowControl :=
  let attempts := (flow.slot i).resendAttempts + 1
  let flow := { flow.setSlot i { flow.slot i with resendAttempts := attempts } with
    resendCount    := flow.resendCount + 1
    rejectCount    := flow.rejectCount + 1
    handlingResend := true }
  (if flowResendAttemptLimit < attempts then -1 else 2, flow)

def inflight (flow : FlowControl) : Nat :=
  flow.slots.countP Slot.pending

def canSend (flow : FlowControl) : Bool :=
  flow.firstFreeSlot.isSome

def hasPendingBarrier (flow : FlowControl) : Bool :=
  flow.slots.any fun slot => slot.pending && slot.barrier

-- The result of `deneb_flow_prepare_packet`: its return code, the flow control after it, and (for
-- return code 0) the packet, its sequence and the slot it occupies.
structure Prepared where
  rc       : Int
  flow     : FlowControl
  packet   : List UInt8 := []
  sequence : UInt8      := 0
  slot     : Nat        := 0

def preparePacket (flow : FlowControl) (command : CString) (outSize : Nat) : Prepared :=
  match flow.firstFreeSlot with
  | none   => { rc := -2, flow := flow }
  | some i =>
    let seq := flow.nextSequence
    let flow := { flow with nextSequence := sequenceAfter seq }
    match MarlinPacket.encode seq command outSize with
    | none        => { rc := -1, flow := flow }
    | some packet =>
      let flow := flow.setSlot i
        { sequence  := seq
          command   := fit maxGcodeLine command
          occupied  := true
          barrier   := commandIsBarrier command
          sendOrder := flow.sentCount }
      let flow := { flow with
        controllerFreeSpace :=
          if flow.controllerFreeSpaceKnown && flow.controllerFreeSpace > 0
          then flow.controllerFreeSpace - 1 else flow.controllerFreeSpace
        sentCount := flow.sentCount + 1 }
      { rc := 0, flow := flow, packet := packet, sequence := seq, slot := i }

-- One `sscanf` format of `parse_response_sequence`: words, each after optional white space, and a
-- number.
def scanSequence (words : List CString) (line : CString) : Option UInt8 := do
  let rest ← words.foldlM (fun s w => Scan.text w (Scan.blank s)) line
  let (value, _) ← Scan.unsigned rest
  return value.toUInt8

def parseResponseSequence (line : CString) : Option UInt8 :=
  (do Scan.text "ok" line >>= scanSequence ["N"]) <|>
  (do Scan.text "ok" line >>= scanSequence []) <|>
  (do Scan.text "Resend:" line >>= scanSequence []) <|>
  (do Scan.text "rs" line >>= scanSequence ["N"]) <|>
  (do Scan.text "rs" line >>= scanSequence [])

-- "Sequence number is unexpected (received, expected): %u,%u"; every blank of the format stands
-- for optional white space.
def scanProtoError (line : CString) : Option UInt8 := do
  let words : List CString :=
    ["number", "is", "unexpected", "(received,", "expected):"]
  let rest ← Scan.text "Sequence" line
  let rest ← words.foldlM (fun s w => Scan.text w (Scan.blank s)) rest
  let (_, rest) ← Scan.unsigned rest
  let rest ← Scan.text "," rest
  let (expected, _) ← Scan.unsigned rest
  return expected.toUInt8

def parseProtoExpectedSequence (line : CString) : Option UInt8 :=
  (Scan.text "Error:ProtoError:" line >>= scanProtoError) <|>
  (Scan.text "ProtoError:" line >>= scanProtoError)

def reject (flow : FlowControl) : FlowControl :=
  { flow with rejectCount := flow.rejectCount + 1 }

-- The branch of `deneb_flow_handle_response` for a valid sync packet. The third component is
-- `*resend_sequence`.
def handleSync (flow : FlowControl) (code seq freeSpace : UInt8) : Int × FlowControl × UInt8 :=
  let flow := { flow with controllerFreeSpace := freeSpace, controllerFreeSpaceKnown := true }
  if code = 113 then (0, flow, 0)
  else if code = 111 then
    let flow := { flow with handlingResend := false }
    match flow.slotForSequence seq with
    | none   => (0, flow, 0)
    | some _ => (1, flow.acknowledgeThrough seq true, 0)
  else
    match flow.pendingSlotForSequence seq with
    | none   => (0, flow.reject, 0)
    | some i =>
      if flow.handlingResend then (0, flow, 0)
      else
        let (rc, flow) := (flow.acknowledgeThrough seq false).requestResend i
        (rc, flow, seq)

-- The branch for a line that mentions a resend in plain text.
def handleResendText (flow : FlowControl) (line : CString) : Int × FlowControl × UInt8 :=
  if flow.handlingResend then (0, flow, 0)
  else
    match parseResponseSequence line with
    | none     => (1, flow.reject, 0)
    | some seq =>
      match flow.pendingSlotForSequence seq with
      | none   => (0, flow.reject, 0)
      | some i =>
        let (rc, flow) := flow.requestResend i
        (rc, flow, seq)

def acknowledge (flow : FlowControl) (i : Nat) : FlowControl :=
  { flow.setSlot i { flow.slot i with acknowledged := true } with ackCount := flow.ackCount + 1 }

-- The branch for a plain text `ok`, with or without a number.
def handleOk (flow : FlowControl) (line : CString) : FlowControl :=
  let found :=
    match parseResponseSequence line with
    | some seq => flow.slotForSequence seq
    | none     => flow.slots.findIdx? Slot.pending
  match found with
  | none   => flow
  | some i => flow.acknowledge i

def handleResponse (flow : FlowControl) (line : CString) : Int × FlowControl × UInt8 :=
  match parseSyncPacket line with
  | .damaged                  => (-1, flow.reject, 0)
  | .valid code seq freeSpace => flow.handleSync code seq freeSpace
  | .none =>
    match parseProtoExpectedSequence line with
    | some seq => (3, { flow.reject with lastProtoExpectedSequence := seq }, 0)
    | none =>
      if contains line "Resend" || contains line "rs " || contains line "rs N" then
        flow.handleResendText line
      else if startsWith line "ok" then (1, flow.handleOk line, 0)
      else if contains line "Error" then (-1, flow.reject, 0)
      else (0, flow, 0)

def getResendPacket (flow : FlowControl) (sequence : UInt8) (outSize : Nat) :
    Option (List UInt8) :=
  match flow.slotForSequence sequence with
  | none   => none
  | some i => MarlinPacket.encode (flow.slot i).sequence (flow.slot i).command outSize

end FlowControl
end Deneb
