import Mathlib.Data.Vector.Defs

-- The frames that `dfsvc/src/main.c` reads from the websocket of the cloud.
namespace Deneb.WebSocket

abbrev Bytes := List UInt8

-- The bytes that are still to be read, those that have been sent, and the masks that the random
-- generator gives for the frames sent from now on.
structure Conn where
  input  : Bytes
  sent   : Bytes                      := []
  random : Nat → List.Vector UInt8 4  := fun _ => ⟨[0, 0, 0, 0], rfl⟩

-- `ws_read_exact`
def Conn.readExact (c : Conn) (len : Nat) : Option (Bytes × Conn) :=
  if len ≤ c.input.length then some (c.input.take len, { c with input := c.input.drop len })
  else none

-- Every byte with its byte of the mask.
def applyMask (mask payload : Bytes) : Bytes :=
  payload.mapIdx fun i c => c ^^^ mask.getD (i % 4) 0

-- `ws_send_control`
def Conn.sendControl (c : Conn) (opcode : UInt8) (payload : Bytes) : Conn :=
  if 125 < payload.length then c
  else
    let mask := (c.random 0).toList
    let hdr := [0x80 ||| (opcode &&& 0x0f), 0x80 ||| payload.length.toUInt8]
    { c with
      sent   := c.sent ++ (hdr ++ mask ++ applyMask mask payload)
      random := fun n => c.random (n + 1)
    }

structure Header where
  fin    : Bool
  opcode : UInt8
  len    : Nat
  mask   : Option Bytes

-- The length of the payload; the form with eight bytes is refused.
def Conn.readLength (c : Conn) (h : UInt8) : Option (Nat × Conn) :=
  let len := (h &&& 0x7f).toNat
  if len = 126 then
    (c.readExact 2).map fun (x, c) => ((x.getD 0 0).toNat * 256 + (x.getD 1 0).toNat, c)
  else if len = 127 then none
  else some (len, c)

def Conn.readMask (c : Conn) (h : UInt8) : Option (Option Bytes × Conn) :=
  if h &&& 0x80 ≠ 0 then (c.readExact 4).map fun (mask, c) => (some mask, c)
  else some (none, c)

def Conn.readHeader (c : Conn) : Option (Header × Conn) := do
  let (h, c) ← c.readExact 2
  let (len, c) ← c.readLength (h.getD 1 0)
  let (mask, c) ← c.readMask (h.getD 1 0)
  let fin := decide (h.getD 0 0 &&& 0x80 ≠ 0)
  some ({ fin, opcode := h.getD 0 0 &&& 0x0f, len, mask }, c)

def Conn.readPayload (c : Conn) (h : Header) : Option (Bytes × Conn) :=
  (c.readExact h.len).map fun (payload, c) =>
    match h.mask with
    | some mask => (applyMask mask payload, c)
    | none      => (payload, c)

-- The values -1, 1 and 0 of `ws_read_text`, with the bytes of the buffer that it has written.
inductive Result
  | failed
  | control (c : Conn)
  | text (buf : Bytes) (c : Conn)

-- The loop of `ws_read_text` over the frames, with a bound on their number. `text` is what has been
-- read of the message, once its first frame is there.
def readFrames (bufSize : Nat) : Nat → Option Bytes → Conn → Option Result
  | 0, _, _             => none
  | rounds + 1, text, c =>
    match c.readHeader with
    | none => some .failed
    | some (h, c) =>
      if h.opcode = 0x8 then some .failed
      else if h.opcode = 0x9 ∨ h.opcode = 0x0a then
        if 125 < h.len then some .failed
        else
          match c.readPayload h with
          | none              => some .failed
          | some (control, c) =>
            let c := if h.opcode = 0x9 then c.sendControl 0x0a control else c
            if text = none then some (.control c)
            else readFrames bufSize rounds text c
      else if h.opcode ≠ 0x1 ∧ h.opcode ≠ 0x0 then
        match c.readExact h.len with
        | none        => some .failed
        | some (_, c) =>
          if text = none then some (.control c)
          else readFrames bufSize rounds text c
      else
        match if h.opcode = 0x1 then some [] else text with
        | none      => some .failed
        | some used =>
          if bufSize < used.length + h.len + 1 then some .failed
          else
            match c.readPayload h with
            | none              => some .failed
            | some (payload, c) =>
              if h.fin then some (.text (used ++ payload ++ [0]) c)
              else readFrames bufSize rounds (some (used ++ payload)) c

-- `ws_read_text`; every frame has two bytes at least.
def Conn.readText (c : Conn) (bufSize : Nat) : Option Result :=
  readFrames bufSize (c.input.length + 1) none c

-- The calls of the main loop, up to the first message.
def Conn.receive (bufSize : Nat) : Nat → Conn → Option (Bytes × Conn)
  | 0, _         => none
  | calls + 1, c =>
    match c.readText bufSize with
    | some (.control c)  => receive bufSize calls c
    | some (.text buf c) => some (buf, c)
    | _                  => none

end Deneb.WebSocket
