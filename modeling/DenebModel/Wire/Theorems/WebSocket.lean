import DenebModel.Wire.WebSocket
import Mathlib.Data.List.Basic

namespace Deneb.WebSocket

variable {c d : Conn} {bufSize : Nat} {rest s t : Bytes} {text : Option Bytes} {fin : Bool} {opcode : UInt8} {n : Nat}

-- The payload of a frame, with the mask and the form of the length that the sender has chosen.
structure Payload where
  mask  : Option (List.Vector UInt8 4) := none
  long  : Bool                         := false
  bytes : Bytes
  fits  : bytes.length ≤ if long then 65535 else 125

def maskBytes (mask : Option (List.Vector UInt8 4)) : Bytes :=
  (mask.map (·.toList)).getD []

def Payload.body (p : Payload) : Bytes :=
  match p.mask with
  | some mask => applyMask mask.toList p.bytes
  | none      => p.bytes

def Payload.lengthCode (p : Payload) : Nat :=
  if p.long then 126 else p.bytes.length

def Payload.lengthBytes (p : Payload) : Bytes :=
  if p.long then [(p.bytes.length / 256).toUInt8, (p.bytes.length % 256).toUInt8] else []

def withFlag (flag : Bool) (b : UInt8) : UInt8 :=
  (if flag then 0x80 else 0) ||| b

-- A frame as its sender writes it.
def Payload.encode (p : Payload) (fin : Bool) (opcode : UInt8) : Bytes :=
  withFlag fin opcode :: withFlag p.mask.isSome p.lengthCode.toUInt8 :: (p.lengthBytes ++ maskBytes p.mask ++ p.body)

section Read

variable {p : Payload}

theorem readExact_append (h : c.input = s ++ t) {n : Nat} (hn : n = s.length) :
    c.readExact n = some (s, { c with input := t }) := by
  subst hn
  rw [Conn.readExact, h, if_pos (by simp), List.take_left, List.drop_left]

theorem applyMask_applyMask : applyMask s (applyMask s t) = t := by
  have cancel (i : Nat) (c : UInt8) : c ^^^ s.getD (i % 4) 0 ^^^ s.getD (i % 4) 0 = c := by
    rw [UInt8.xor_assoc, UInt8.xor_self, UInt8.xor_zero]
  rw [applyMask, applyMask, List.mapIdx_mapIdx]
  refine List.ext_getElem List.length_mapIdx fun i _ _ => ?_
  rw [List.getElem_mapIdx]
  exact cancel i _

theorem length_body : p.body.length = p.bytes.length := by
  rw [Payload.body]
  split
  case h_1 => exact List.length_mapIdx
  case h_2 => rfl

theorem withFlag_bits : ∀ n < 128, ∀ flag : Bool,
    (withFlag flag n.toUInt8 &&& 0x80 ≠ 0 ↔ flag) ∧ (withFlag flag n.toUInt8 &&& 0x7f).toNat = n := by
  decide +kernel

theorem lengthCode_lt : p.lengthCode < 128 := by
  have fits := p.fits
  rw [Payload.lengthCode]
  split
  case isTrue => decide
  case isFalse hl =>
    rw [if_neg hl] at fits
    omega

theorem toNat_bytes (h : n < 65536) :
    (n / 256).toUInt8.toNat * 256 + (n % 256).toUInt8.toNat = n := by
  have high : (n / 256).toUInt8.toNat = n / 256 := UInt8.toNat_ofNat_of_lt (by change _ < 256; omega)
  have low : (n % 256).toUInt8.toNat = n % 256 := UInt8.toNat_ofNat_of_lt (by change _ < 256; omega)
  omega

theorem readLength_encode (h : c.input = p.lengthBytes ++ t) :
    c.readLength (withFlag p.mask.isSome p.lengthCode.toUInt8) =
      some (p.bytes.length, { c with input := t }) := by
  have fits := p.fits
  have code : (withFlag p.mask.isSome p.lengthCode.toUInt8 &&& 0x7f).toNat = p.lengthCode :=
    (withFlag_bits _ lengthCode_lt _).right
  rw [Conn.readLength, code]
  cases hl : p.long
  case false =>
    simp only [hl, Bool.false_eq_true, if_false] at fits
    simp only [Payload.lengthCode, Payload.lengthBytes, hl, Bool.false_eq_true, if_false, List.nil_append] at h ⊢
    rw [if_neg (by omega), if_neg (by omega), ← h]
  case true =>
    simp only [hl, if_true] at fits
    simp only [Payload.lengthCode, Payload.lengthBytes, hl, if_true] at h ⊢
    rw [readExact_append (n := 2) h rfl]
    simp only [Option.map_some, List.getD_cons_zero, List.getD_cons_succ,
      toNat_bytes (Nat.lt_succ_of_le fits)]

theorem readMask_encode (h : c.input = maskBytes p.mask ++ t) :
    c.readMask (withFlag p.mask.isSome p.lengthCode.toUInt8) =
      some (p.mask.map (·.toList), { c with input := t }) := by
  have flag := (withFlag_bits _ (@lengthCode_lt p) p.mask.isSome).left
  rw [Conn.readMask]
  cases hm : p.mask
  case none =>
    rw [hm] at h flag
    rw [if_neg fun hf => absurd (flag.mp hf) nofun]
    change c.input = t at h
    rw [← h]
    rfl
  case some mask =>
    rw [hm] at h flag
    rw [if_pos (flag.mpr rfl), readExact_append h mask.toList_length.symm]
    rfl

theorem opcode_bits (ho : opcode < 16) (flag : Bool) :
    (withFlag flag opcode &&& 0x80 ≠ 0 ↔ flag) ∧ withFlag flag opcode &&& 0x0f = opcode := by
  have all : ∀ n < 16, ∀ flag : Bool, (withFlag flag n.toUInt8 &&& 0x80 ≠ 0 ↔ flag) ∧
      withFlag flag n.toUInt8 &&& 0x0f = n.toUInt8 := by
    decide +kernel
  have same : opcode.toNat.toUInt8 = opcode := UInt8.ofNat_toNat
  exact same ▸ all opcode.toNat (UInt8.lt_iff_toNat_lt.mp ho) flag

def Payload.header (p : Payload) (fin : Bool) (opcode : UInt8) : Header where
  fin    := fin
  opcode := opcode
  len    := p.bytes.length
  mask   := p.mask.map (·.toList)

@[simp]
theorem header_fin : (p.header fin opcode).fin = fin := rfl

@[simp]
theorem header_opcode : (p.header fin opcode).opcode = opcode := rfl

@[simp]
theorem header_len : (p.header fin opcode).len = p.bytes.length := rfl

theorem readHeader_encode (h : c.input = p.encode fin opcode ++ t) (ho : opcode < 16) :
    c.readHeader = some (p.header fin opcode, { c with input := p.body ++ t }) := by
  have first : c.input = [withFlag fin opcode, withFlag p.mask.isSome p.lengthCode.toUInt8] ++
      (p.lengthBytes ++ (maskBytes p.mask ++ (p.body ++ t))) := by
    simpa [Payload.encode] using h
  have ⟨hf, hc⟩ := opcode_bits ho fin
  rw [Conn.readHeader, readExact_append (n := 2) first rfl]
  simp only [Option.bind_eq_bind, Option.bind_some, List.getD_cons_zero, List.getD_cons_succ]
  rw [readLength_encode rfl, Option.bind_some, readMask_encode rfl, Option.bind_some, hc]
  simp [Payload.header, hf]

theorem readPayload_encode (h : c.input = p.body ++ t) :
    c.readPayload (p.header fin opcode) = some (p.bytes, { c with input := t }) := by
  rw [Conn.readPayload, Payload.header, readExact_append h length_body.symm, Payload.body]
  cases hm : p.mask
  case none => simp
  case some mask => simp [applyMask_applyMask]

theorem length_encode : 2 ≤ (p.encode fin opcode).length :=
  Nat.le_add_left ..

end Read

section Control

-- A ping or a pong.
structure Control where
  ping    : Bool
  payload : Payload
  short   : payload.bytes.length ≤ 125

def Control.encode (ctl : Control) : Bytes :=
  ctl.payload.encode true (if ctl.ping then 0x9 else 0x0a)

-- The frame that answers a ping, with the same payload.
def Control.pong (ctl : Control) (mask : List.Vector UInt8 4) : Bytes :=
  Payload.encode { mask := some mask, long := false, bytes := ctl.payload.bytes, fits := ctl.short } true 0x0a

-- One pong for each ping, in their order.
def pongs (random : Nat → List.Vector UInt8 4) : List Control → Bytes
  | []         => []
  | ctl :: ctls =>
    if ctl.ping then ctl.pong (random 0) ++ pongs (fun n => random (n + 1)) ctls
    else pongs random ctls

-- The connection once these frames have been answered.
def Conn.answer (c : Conn) : List Control → Conn
  | []         => c
  | ctl :: ctls =>
    (if ctl.ping then c.sendControl 0x0a ctl.payload.bytes else c).answer ctls

variable {ctl : Control} {ctls ctls' : List Control} {rounds : Nat}

theorem sendControl_pong :
    c.sendControl 0x0a ctl.payload.bytes =
      { c with sent := c.sent ++ ctl.pong (c.random 0), random := fun n => c.random (n + 1) } := by
  rw [Conn.sendControl, if_neg (Nat.not_lt_of_le ctl.short)]
  rfl

theorem sent_answer : (c.answer ctls).sent = c.sent ++ pongs c.random ctls := by
  induction ctls generalizing c
  case nil => simp [Conn.answer, pongs]
  case cons ctl ctls ih =>
    rw [Conn.answer, ih, pongs]
    split
    case isTrue  => rw [sendControl_pong, List.append_assoc]
    case isFalse => rfl

theorem answer_append : c.answer (ctls ++ ctls') = (c.answer ctls).answer ctls' := by
  induction ctls generalizing c
  case nil => rfl
  case cons ctl ctls ih => rw [List.cons_append, Conn.answer, ih, Conn.answer]

-- A control frame is answered; outside a message the call ends.
theorem readFrames_control :
    readFrames bufSize (rounds + 1) text { c with input := ctl.encode ++ rest } =
      if text = none then some (.control (Conn.answer { c with input := rest } [ctl]))
      else readFrames bufSize rounds text (Conn.answer { c with input := rest } [ctl]) := by
  have header : Conn.readHeader { c with input := ctl.encode ++ rest } =
      some (ctl.payload.header true (if ctl.ping then 0x9 else 0x0a),
        { c with input := ctl.payload.body ++ rest }) :=
    readHeader_encode rfl (by split <;> decide)
  have short : ¬125 < ctl.payload.bytes.length := Nat.not_lt_of_le ctl.short
  rw [readFrames, header]
  cases hp : ctl.ping
  case false =>
    simp only [Bool.false_eq_true, if_false, header_opcode, header_len, if_neg short,
      (by decide : ¬(0x0a : UInt8) = 0x8), (by decide : ¬(0x0a : UInt8) = 0x9), or_true, if_true,
      Conn.answer, hp]
    rw [readPayload_encode rfl]
  case true =>
    simp only [if_true, header_opcode, header_len, if_neg short, if_false,
      (by decide : ¬(0x9 : UInt8) = 0x8), true_or, Conn.answer, hp]
    rw [readPayload_encode rfl]

theorem answer_with : Conn.answer { c with input := s } ctls = { c.answer ctls with input := s } := by
  induction ctls generalizing c
  case nil => rfl
  case cons ctl ctls ih =>
    rw [Conn.answer, Conn.answer]
    split
    case isTrue =>
      rw [sendControl_pong, sendControl_pong]
      exact ih (c := { c with sent := _, random := _ })
    case isFalse => exact ih

-- Within a message all control frames are answered in the same call.
theorem readFrames_controls :
    readFrames bufSize (rounds + ctls.length) (some s) { c with input := ctls.flatMap Control.encode ++ rest } =
      readFrames bufSize rounds (some s) { c.answer ctls with input := rest } := by
  induction ctls generalizing c
  case nil => rfl
  case cons ctl ctls ih =>
    rw [List.length_cons, ← Nat.add_assoc, List.flatMap_cons, List.append_assoc, readFrames_control,
      if_neg nofun, answer_with, ih, Conn.answer, Conn.answer]
    rfl

end Control

section Message

variable {ctls : List Control} {p : Payload} {rounds : Nat} {used : Bytes}

-- A fragment of the message goes behind what has been read of it.
theorem readFrames_payload (hu : opcode = 0x1 ∧ used = [] ∨ opcode = 0x0 ∧ text = some used)
    (hs : used.length + p.bytes.length < bufSize) :
    readFrames bufSize (rounds + 1) text { c with input := p.encode fin opcode ++ rest } =
      if fin then some (.text (used ++ p.bytes ++ [0]) { c with input := rest })
      else readFrames bufSize rounds (some (used ++ p.bytes)) { c with input := rest } := by
  have small : opcode < 16 := by rcases hu with ⟨rfl, -⟩ | ⟨rfl, -⟩ <;> decide
  have header : Conn.readHeader { c with input := p.encode fin opcode ++ rest } =
      some (p.header fin opcode, { c with input := p.body ++ rest }) := readHeader_encode rfl small
  generalize hh : p.header fin opcode = h at header
  have kind : ¬h.opcode = 0x8 ∧ ¬(h.opcode = 0x9 ∨ h.opcode = 0x0a) ∧
      ¬(h.opcode ≠ 0x1 ∧ h.opcode ≠ 0x0) := by
    subst hh
    rcases hu with ⟨rfl, -⟩ | ⟨rfl, -⟩ <;> simp
  have begun : (if h.opcode = 0x1 then some [] else text) = some used := by
    subst hh
    rcases hu with ⟨rfl, rfl⟩ | ⟨rfl, rfl⟩ <;> rfl
  have room : ¬bufSize < used.length + h.len + 1 := by
    subst hh
    exact Nat.not_lt_of_le hs
  have payload : Conn.readPayload { c with input := p.body ++ rest } h = some (p.bytes, { c with input := rest }) := by
    subst hh
    exact readPayload_encode rfl
  rw [readFrames, header]
  simp only [kind, begun, room, payload, if_false]
  rw [← hh, header_fin]

-- Control frames, and the fragment behind them.
structure Part where
  controls : List Control
  payload  : Payload

-- A message in fragments, the first with its opcode and the others as continuations.
def encodeParts (opcode : UInt8) : Part → List Part → Bytes
  | p, []      => p.controls.flatMap Control.encode ++ p.payload.encode true opcode
  | p, q :: ps => p.controls.flatMap Control.encode ++ (p.payload.encode false opcode ++ encodeParts 0x0 q ps)

def message (ps : List Part) : Bytes :=
  ps.flatMap (·.payload.bytes)

def controls (ps : List Part) : List Control :=
  ps.flatMap (·.controls)

def frames (ps : List Part) : Nat :=
  (controls ps).length + ps.length

variable {q : Part} {ps : List Part}

theorem readFrames_part (hs : s.length + q.payload.bytes.length < bufSize) :
    readFrames bufSize (rounds + 1 + q.controls.length) (some s)
        { c with input := q.controls.flatMap Control.encode ++ (q.payload.encode fin 0x0 ++ rest) } =
      if fin then some (.text (s ++ q.payload.bytes ++ [0]) { c.answer q.controls with input := rest })
      else readFrames bufSize rounds (some (s ++ q.payload.bytes)) { c.answer q.controls with input := rest } := by
  rw [readFrames_controls]
  exact readFrames_payload (c := c.answer q.controls) (.inr ⟨rfl, rfl⟩) hs

theorem frames_cons : frames (q :: ps) = frames ps + 1 + q.controls.length := by
  simp only [frames, controls, List.flatMap_cons, List.length_append, List.length_cons]
  omega

theorem message_cons : message (q :: ps) = q.payload.bytes ++ message ps := rfl

theorem controls_cons : controls (q :: ps) = q.controls ++ controls ps := rfl

theorem readFrames_parts (hs : s.length + (message (q :: ps)).length < bufSize)
    (hr : frames (q :: ps) ≤ rounds) :
    readFrames bufSize rounds (some s) { c with input := encodeParts 0x0 q ps ++ rest } =
      some (.text (s ++ message (q :: ps) ++ [0]) { c.answer (controls (q :: ps)) with input := rest }) := by
  rw [message_cons, List.length_append] at hs
  rw [frames_cons] at hr
  induction ps generalizing c q rounds s
  case nil =>
    obtain ⟨k, rfl⟩ : ∃ k, rounds = k + 1 + q.controls.length := ⟨rounds - (1 + q.controls.length), by omega⟩
    rw [encodeParts, List.append_assoc, readFrames_part (by omega)]
    simp [message, controls]
  case cons p ps ih =>
    rw [frames_cons] at hr
    rw [message_cons, List.length_append] at hs
    obtain ⟨k, rfl⟩ : ∃ k, rounds = k + 1 + q.controls.length := ⟨rounds - (1 + q.controls.length), by omega⟩
    rw [encodeParts, List.append_assoc, List.append_assoc, readFrames_part (by omega), if_neg Bool.false_ne_true,
      ih (c := c.answer q.controls) (by rw [List.length_append]; omega) (by omega)]
    simp only [message_cons, controls_cons, answer_append, List.append_assoc]

theorem length_flatMap_encode {ctls : List Control} : ctls.length ≤ (ctls.flatMap Control.encode).length := by
  induction ctls
  case nil => exact Nat.le_refl 0
  case cons ctl ctls ih =>
    have frame : 2 ≤ ctl.encode.length := length_encode
    rw [List.flatMap_cons, List.length_append, List.length_cons]
    omega

theorem frames_le : frames (q :: ps) ≤ (encodeParts opcode q ps).length := by
  have frame (fin : Bool) (opcode : UInt8) (p : Part) : 2 ≤ (p.payload.encode fin opcode).length := length_encode
  have first := @length_flatMap_encode q.controls
  induction ps generalizing q opcode
  case nil =>
    have := frame true opcode q
    rw [frames_cons, encodeParts, List.length_append]
    simp only [frames, controls, List.flatMap_nil, List.length_nil]
    omega
  case cons p ps ih =>
    have := frame false opcode q
    have := @ih 0x0 p length_flatMap_encode
    rw [frames_cons, encodeParts, List.length_append, List.length_append]
    omega

-- Outside a message a call ends with each control frame.
theorem receive_controls {calls : Nat} :
    Conn.receive bufSize (calls + ctls.length) { c with input := ctls.flatMap Control.encode ++ rest } =
      Conn.receive bufSize calls { c.answer ctls with input := rest } := by
  induction ctls generalizing c
  case nil => rfl
  case cons ctl ctls ih =>
    rw [List.length_cons, ← Nat.add_assoc, Conn.receive, Conn.readText, List.flatMap_cons, List.append_assoc,
      readFrames_control, if_pos rfl]
    simp only [answer_with]
    exact ih (c := c.answer [ctl])

theorem readText_message (hs : (message (q :: ps)).length < bufSize) (hc : q.controls = []) :
    Conn.readText { c with input := encodeParts 0x1 q ps ++ rest } bufSize =
      some (.text (message (q :: ps) ++ [0]) { c.answer (controls (q :: ps)) with input := rest }) := by
  rw [message_cons, List.length_append] at hs
  rw [Conn.readText]
  cases ps
  case nil =>
    rw [encodeParts, hc, List.flatMap_nil, List.nil_append,
      readFrames_payload (.inl ⟨rfl, rfl⟩) (by simpa using Nat.lt_of_le_of_lt (Nat.le_add_right ..) hs)]
    simp [message, controls, hc, Conn.answer]
  case cons p ps =>
    have rounds : frames (p :: ps) ≤ (encodeParts 0x1 q (p :: ps) ++ rest).length := by
      have := @frames_le 0x1 q (p :: ps)
      rw [frames_cons] at this
      rw [List.length_append]
      omega
    generalize (encodeParts 0x1 q (p :: ps) ++ rest).length = n at rounds
    rw [encodeParts, hc, List.flatMap_nil, List.nil_append, List.append_assoc,
      readFrames_payload (.inl ⟨rfl, rfl⟩) (by rw [List.length_nil]; omega), if_neg Bool.false_ne_true,
      List.nil_append, readFrames_parts hs rounds]
    simp [message_cons, controls_cons, hc]

theorem receive_message {calls : Nat} (hs : (message (q :: ps)).length < bufSize)
    (hc : q.controls.length < calls) :
    Conn.receive bufSize calls { c with input := encodeParts 0x1 q ps ++ rest } =
      some (message (q :: ps) ++ [0], { c.answer (controls (q :: ps)) with input := rest }) := by
  have split : encodeParts 0x1 q ps =
      q.controls.flatMap Control.encode ++ encodeParts 0x1 { q with controls := [] } ps := by
    cases ps <;> rfl
  obtain ⟨calls, rfl⟩ : ∃ k, calls = k + 1 + q.controls.length := ⟨calls - (1 + q.controls.length), by omega⟩
  rw [split, List.append_assoc, receive_controls, Conn.receive,
    readText_message (c := c.answer q.controls) (q := { q with controls := [] }) hs rfl]
  simp only [controls_cons, List.nil_append, answer_append, message_cons]

-- The calls return the message, with the stream behind its last fragment, and each ping answered.
theorem message_received (q : Part) (ps : List Part) (c : Conn) (rest : Bytes)
    (hs : (message (q :: ps)).length < bufSize) {calls : Nat} (hc : q.controls.length < calls) :
    ∃ d, Conn.receive bufSize calls { c with input := encodeParts 0x1 q ps ++ rest } =
        some (message (q :: ps) ++ [0], d) ∧
      d.input = rest ∧ d.sent = c.sent ++ pongs c.random (controls (q :: ps)) :=
  ⟨_, receive_message hs hc, rfl, sent_answer⟩

def exampleMask : List.Vector UInt8 4 :=
  ⟨[1, 2, 3, 4], rfl⟩

-- A ping, and then `He` with a mask and `y` without one.
theorem message_received_hey :
    let ping : Control := ⟨true, { long := false, bytes := [33], fits := by decide }, by decide⟩
    let he : Payload := { mask := some exampleMask, long := false, bytes := [72, 101], fits := by decide }
    let y : Payload := { long := true, bytes := [121], fits := by decide }
    ∃ d, Conn.receive 4 2 { input := encodeParts 0x1 ⟨[ping], he⟩ [⟨[], y⟩] ++ [7], random := fun _ => exampleMask } =
        some ([72, 101, 121, 0], d) ∧
      d.input = [7] ∧ d.sent = [0x8a, 0x81, 1, 2, 3, 4, 32] :=
  message_received _ _ { input := [], random := fun _ => exampleMask } [7] (by decide) (by decide)

end Message
end Deneb.WebSocket
