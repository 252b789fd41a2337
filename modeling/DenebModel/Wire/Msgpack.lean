import DenebModel.Primitives.CString

-- The messages between the Digital Factory service (`dfsvc/src/main.c`) and the bridge of the web
-- service (`web/src/df_bridge.c`). Both programs have msgpack functions of their own.
namespace Deneb.Msgpack

open CString

inductive Program
  | dfsvc
  | bridge
  deriving DecidableEq

section Writer

def putU16 (v : Nat) : List UInt8 :=
  [0xcd, (v / 2 ^ 8).toUInt8, v.toUInt8]

def putU32 (v : Nat) : List UInt8 :=
  [0xce, (v / 2 ^ 24).toUInt8, (v / 2 ^ 16).toUInt8, (v / 2 ^ 8).toUInt8, v.toUInt8]

def putI64 (v : Int64) : List UInt8 :=
  0xd3 :: ([56, 48, 40, 32, 24, 16, 8, 0] : List UInt64).map fun shift =>
    (v.toUInt64 >>> shift).toUInt8

-- The byte before a string of at most 31 bytes.
def fixStr (len : Nat) : UInt8 :=
  0xa0 ||| len.toUInt8

-- `mp_put_str`, which fails in `dfsvc` for a string that is too long.
def Program.putStr (s : CString) : Program → Option (List UInt8)
  | .dfsvc =>
    if s.length ≤ 31 then some (fixStr s.length :: s)
    else if s.length ≤ 65535 then some (0xda :: putU16 s.length ++ s)
    else none
  | .bridge =>
    if s.length ≤ 31 then some (fixStr s.length :: s)
    else if s.length ≤ 255 then some (0xd9 :: s.length.toUInt8 :: s)
    else if s.length ≤ 65535 then some (0xda :: putU16 s.length ++ s)
    else some (0xdb :: putU32 s.length ++ s)

-- The values of the fields of a message. `byte` is written by `mp_put_u8`.
inductive Value
  | str (s : CString)
  | byte (v : UInt8)
  | i64 (v : Int64)
  deriving DecidableEq

structure Field where
  name  : CString
  value : Value
  deriving DecidableEq

def Program.putValue (p : Program) : Value → Option (List UInt8)
  | .str s  => p.putStr s
  | .byte v => some [v]
  | .i64 v  => some (putI64 v)

def Program.putField (p : Program) (field : Field) : Option (List UInt8) := do
  let name ← p.putStr field.name
  let value ← p.putValue field.value
  return name ++ value

def Program.putFields (p : Program) : List Field → Option (List UInt8)
  | []              => some []
  | field :: fields => do
    let first ← p.putField field
    let rest ← p.putFields fields
    return first ++ rest

-- A map of at most 15 fields.
def Program.putMap (p : Program) (fields : List Field) : Option (List UInt8) := do
  let rest ← p.putFields fields
  return (0x80 ||| fields.length.toUInt8) :: rest

end Writer

section Reader

def readU8 : List UInt8 → Option (UInt8 × List UInt8)
  | []     => none
  | b :: r => some (b, r)

def readBytes (n : Nat) (r : List UInt8) : Option (List UInt8 × List UInt8) :=
  if n ≤ r.length then some (r.take n, r.drop n) else none

def skipBytes (n : Nat) (r : List UInt8) : Option (List UInt8) :=
  if n ≤ r.length then some (r.drop n) else none

-- An unsigned number, the most significant byte first.
def bigEndian (bytes : List UInt8) : Nat :=
  bytes.foldl (fun n b => n * 2 ^ 8 + b.toNat) 0

def repeatM (f : List UInt8 → Option (List UInt8)) : Nat → List UInt8 → Option (List UInt8)
  | 0, r     => some r
  | n + 1, r => f r >>= repeatM f n

-- `mp_skip_value`; only the bridge knows the 32 bit lengths. Every nested value takes a byte, so
-- that the number of bytes is enough `fuel`.
def Program.skipValue (p : Program) : Nat → List UInt8 → Option (List UInt8)
  | 0, _        => none
  | fuel + 1, r => do
    let (tag, r) ← readU8 r
    if tag ≤ 0x7f ∨ 0xe0 ≤ tag ∨ tag = 0xc0 ∨ tag = 0xc2 ∨ tag = 0xc3 then some r
    else if 0xa0 ≤ tag ∧ tag ≤ 0xbf then skipBytes (tag &&& 0x1f).toNat r
    else if 0x80 ≤ tag ∧ tag ≤ 0x8f then
      repeatM (p.skipValue fuel) ((tag &&& 0x0f).toNat * 2) r
    else if 0x90 ≤ tag ∧ tag ≤ 0x9f then repeatM (p.skipValue fuel) (tag &&& 0x0f).toNat r
    else if tag = 0xcc ∨ tag = 0xd0 then skipBytes 1 r
    else if tag = 0xcd ∨ tag = 0xd1 then skipBytes 2 r
    else if tag = 0xce ∨ tag = 0xd2 ∨ tag = 0xca then skipBytes 4 r
    else if tag = 0xcf ∨ tag = 0xd3 ∨ tag = 0xcb then skipBytes 8 r
    else if tag = 0xd9 then
      let (len, r) ← readU8 r
      skipBytes len.toNat r
    else if tag = 0xda ∨ tag = 0xdc ∨ tag = 0xde then
      let (d, r) ← readBytes 2 r
      if tag = 0xda then skipBytes (bigEndian d) r
      else repeatM (p.skipValue fuel) (if tag = 0xde then bigEndian d * 2 else bigEndian d) r
    else if p = .bridge ∧ (tag = 0xdb ∨ tag = 0xdd ∨ tag = 0xdf) then
      let (d, r) ← readBytes 4 r
      if tag = 0xdb then skipBytes (bigEndian d) r
      else repeatM (p.skipValue fuel) (if tag = 0xdf then bigEndian d * 2 else bigEndian d) r
    else none

def Program.skip (p : Program) (r : List UInt8) : Option (List UInt8) :=
  p.skipValue r.length r

-- The length of the string that follows.
def readStrLen (r : List UInt8) : Option (Nat × List UInt8) := do
  let (tag, r) ← readU8 r
  if 0xa0 ≤ tag ∧ tag ≤ 0xbf then some ((tag &&& 0x1f).toNat, r)
  else if tag = 0xd9 then
    let (len, r) ← readU8 r
    some (len.toNat, r)
  else if tag = 0xda then
    let (d, r) ← readBytes 2 r
    some (bigEndian d, r)
  else none

-- `mp_read_str`, the same in both programs: the text in a buffer of `size` bytes.
def readStr (size : Nat) (r : List UInt8) : Option (CString × List UInt8) := do
  let (len, r) ← readStrLen r
  if r.length < len ∨ size = 0 then none
  else some ((r.take (min len (size - 1))).takeWhile (· ≠ 0), r.drop len)

-- The conversion to a signed number of that many bits.
def signed (bits n : Nat) : Int :=
  if n < 2 ^ (bits - 1) then n else (n : Int) - 2 ^ bits

-- `mp_read_int` of the bridge.
def readInt (r : List UInt8) : Option (Int × List UInt8) := do
  let (tag, r) ← readU8 r
  if tag ≤ 0x7f then some (tag.toNat, r)
  else if 0xe0 ≤ tag then some (signed 8 tag.toNat, r)
  else if tag = 0xcc ∨ tag = 0xd0 then
    let (v, r) ← readU8 r
    some (if tag = 0xd0 then signed 8 v.toNat else v.toNat, r)
  else if tag = 0xcd ∨ tag = 0xd1 then
    let (d, r) ← readBytes 2 r
    some (if tag = 0xd1 then signed 16 (bigEndian d) else bigEndian d, r)
  else if tag = 0xce ∨ tag = 0xd2 then
    let (d, r) ← readBytes 4 r
    some (if tag = 0xd2 then signed 32 (bigEndian d) else bigEndian d, r)
  else none

-- What `read_key_parts` finds in a key, in buffers that are empty at first.
structure KeyParts where
  action : CString := []
  source : CString := []
  target : CString := []
  deriving DecidableEq

-- The buffer of the receiver for a field of the key, and where it is stored. The bridge has none for
-- the source.
def Program.keyBuffer (p : Program) (name : CString) :
    Option (Nat × (KeyParts → CString → KeyParts)) :=
  if name = "action" then some (32, fun parts v => { parts with action := v })
  else if name = "source" then
    match p with
    | .dfsvc  => some (128, fun parts v => { parts with source := v })
    | .bridge => none
  else if name = "target" then
    some (if p = .dfsvc then 160 else 128, fun parts v => { parts with target := v })
  else none

def Program.keyLoop (p : Program) : Nat → KeyParts → List UInt8 → Option KeyParts
  | 0, parts, _         => some parts
  | count + 1, parts, r => do
    let (name, r) ← readStr 32 r
    match p.keyBuffer name with
    | some (size, store) =>
      let (v, r) ← readStr size r
      p.keyLoop count (store parts v) r
    | none =>
      let r ← p.skip r
      p.keyLoop count parts r

-- The number of fields of the map that follows.
def readMapLen (r : List UInt8) : Option (Nat × List UInt8) := do
  let (tag, r) ← readU8 r
  if tag &&& 0xf0 = 0x80 then some ((tag &&& 0x0f).toNat, r) else none

def Program.readKeyParts (p : Program) (msg : List UInt8) : Option KeyParts := do
  let (count, r) ← readMapLen msg
  p.keyLoop count {} r

def mapLoop (key : CString) : Nat → List UInt8 → Option (List UInt8)
  | 0, _         => none
  | count + 1, r => do
    let (name, r) ← readStr 32 r
    if name = key then some r
    else
      let r ← Program.bridge.skip r
      mapLoop key count r

-- `read_map_value` of the bridge: a reader at the value of the key.
def readMapValue (msg : List UInt8) (key : CString) : Option (List UInt8) := do
  let (count, r) ← readMapLen msg
  mapLoop key count r

end Reader

section Messages

inductive State
  | disconnected
  | enterPin
  | connected
  | reconnecting
  deriving DecidableEq

def State.code : State → UInt8
  | disconnected => 0
  | enterPin     => 1
  | connected    => 2
  | reconnecting => 3

inductive Instruction
  | connect
  | disconnect
  deriving DecidableEq

def Instruction.code : Instruction → UInt8
  | connect    => 1
  | disconnect => 2

-- The key of `publish_status`.
def statusKey (ts : Int64) : List Field :=
  [⟨"ts", .i64 ts⟩, ⟨"action", .str "drop"⟩, ⟨"source", .str "digitalfactory"⟩,
   ⟨"uuid4", .str "deneb-dfsvc-status"⟩, ⟨"target", .str "coordinator::digitalfactory::status"⟩]

-- The data of `publish_status`.
def statusData (state : State) (pin : CString) (ts : Int64) : List Field :=
  [⟨"tracker", .byte 0⟩, ⟨"state", .byte state.code⟩, ⟨"pin", .str pin⟩, ⟨"pin_timestamp", .i64 ts⟩]

-- `mp_encode_rpc_key` of `dfsvc`
def rpcKey (ts : Int64) (source target : CString) : List Field :=
  [⟨"ts", .i64 ts⟩, ⟨"action", .str "rpc-request"⟩, ⟨"source", .str source⟩, ⟨"target", .str target⟩]

-- `mp_encode_key` of the bridge
def bridgeKey (ts : Int64) (action source target : CString) : List Field :=
  [⟨"ts", .i64 ts⟩, ⟨"action", .str action⟩, ⟨"source", .str source⟩, ⟨"target", .str target⟩]

-- `mp_encode_df_request` of the bridge; `data` is nil.
def request (instruction : Instruction) : List Field :=
  [⟨"tracker", .byte 0⟩, ⟨"instruction", .byte instruction.code⟩, ⟨"data", .byte 0xc0⟩,
   ⟨"__class__", .str "DigitalFactoryRequest"⟩]

end Messages

end Deneb.Msgpack
