import DenebModel.Objects.FlowControl

namespace Deneb

-- What one `read` of a single byte from the serial device yields.
inductive SerialRead
  | byte (b : UInt8)
  | noData
  | failure
  deriving DecidableEq

-- The serial transport with the device behind its descriptor: `input` are the results of the next
-- reads (no data once they run out), `writes` the outcomes of the next writes (success once they
-- run out), and `written` the blocks that were passed to `deneb_serial_write_all`.
structure SerialTransport where
  isOpen  : Bool := false
  rxBuf   : List UInt8 := []
  input   : List SerialRead := []
  writes  : List Bool := []
  written : List (List UInt8) := []
  deriving DecidableEq

-- `DENEB_PRINTSVC_SERIAL_LINE`
def serialLine : Nat := 256

namespace SerialTransport

def writeAll (serial : SerialTransport) (data : List UInt8) : Bool × SerialTransport :=
  if !serial.isOpen then (false, serial)
  else (serial.writes.headD true,
    { serial with writes := serial.writes.tail, written := serial.written ++ [data] })

-- The loop of `deneb_serial_read_line`: its return value, the line, the receive buffer and the
-- reads that are left.
def readLoop (lineSize : Nat) :
    List SerialRead → List UInt8 → Int × CString × List UInt8 × List SerialRead
  | [], rx              => (0, [], rx, [])
  | .noData :: rest, rx => (0, [], rx, rest)
  | .failure :: rest, rx => (-1, [], rx, rest)
  | .byte b :: rest, rx =>
    if b = 13 then readLoop lineSize rest rx
    else if b = 10 then
      let copied := rx.take (lineSize - 1)
      (copied.length, copied.takeWhile (· ≠ 0), [], rest)
    else if rx.length + 1 < serialLine then readLoop lineSize rest (rx ++ [b])
    else (-1, [], [], rest)

def readLine (serial : SerialTransport) (lineSize : Nat) : Int × CString × SerialTransport :=
  if !serial.isOpen then (-1, [], serial)
  else
    let (n, line, rx, rest) := readLoop lineSize serial.input serial.rxBuf
    (n, line, { serial with rxBuf := rx, input := rest })

end SerialTransport

namespace MotionSender

-- `DENEB_MOTION_SEND_*`
def invalid : Int := -1
def flowFull : Int := -2
def serialError : Int := -3

-- `DENEB_PRINTSVC_MAX_GCODE_LINE + 64`, the size of the packet buffers.
def packetSize : Nat := maxGcodeLine + 64

-- The result of `deneb_motion_sender_send_gcode`. `slot` is the slot the packet took, if one was
-- prepared at all.
structure Sent where
  rc     : Int
  flow   : FlowControl
  serial : SerialTransport
  slot   : Option Nat := none

def sendGcode (flow : FlowControl) (serial : SerialTransport) (serialReady : Bool)
    (line : CString) : Sent :=
  if line.isEmpty then { rc := invalid, flow := flow, serial := serial }
  else
    let p := flow.preparePacket line packetSize
    if p.rc ≠ 0 then
      { rc := if p.rc = -2 then flowFull else invalid, flow := p.flow, serial := serial }
    else if !serialReady then
      { rc := 0, flow := p.flow, serial := serial, slot := some p.slot }
    else
      let (ok, serial) := serial.writeAll p.packet
      { rc := if ok then 0 else serialError, flow := p.flow, serial := serial, slot := some p.slot }

def resendSequence (flow : FlowControl) (serial : SerialTransport) (serialReady : Bool)
    (sequence : UInt8) : Int × SerialTransport :=
  match flow.getResendPacket sequence packetSize with
  | none        => (flowFull, serial)
  | some packet =>
    if !serialReady then (0, serial)
    else
      let (ok, serial) := serial.writeAll packet
      (if ok then 0 else serialError, serial)

-- The inner loop of `deneb_motion_sender_resend_pending`: the pending slot not emitted yet with the
-- smallest send order.
def bestPending (flow : FlowControl) (emitted : List Nat) : Option Nat :=
  (List.range flowWindow).foldl better none
where
  better (best : Option Nat) (i : Nat) : Option Nat :=
    if !(flow.slot i).pending || emitted.contains i then best
    else
      match best with
      | none   => some i
      | some b => if (flow.slot i).sendOrder < (flow.slot b).sendOrder then some i else best

-- The outer loop; each round emits one more slot, so one round per slot and a last one suffice.
def resendLoop (flow : FlowControl) : Nat → SerialTransport → List Nat → Int × SerialTransport
  | 0, serial, _              => (0, serial)
  | rounds + 1, serial, emitted =>
    match bestPending flow emitted with
    | none      => (0, serial)
    | some best =>
      let (rc, serial) := resendSequence flow serial true (flow.slot best).sequence
      if rc ≠ 0 then (rc, serial) else resendLoop flow rounds serial (best :: emitted)

def soh : List UInt8 := [0xff, 0xff]

def resendPending (flow : FlowControl) (serial : SerialTransport) (serialReady : Bool) :
    Int × SerialTransport :=
  if !serialReady then (0, serial)
  else
    let (ok, serial) := serial.writeAll soh
    if !ok then (serialError, serial) else resendLoop flow (flowWindow + 1) serial []

end MotionSender
end Deneb
