import DenebModel.Wire.Msgpack

-- `mp_skip_value` of both programs, with the positions and counts of a `size_t` of 32 bits.
namespace Deneb.MsgpackSkip

open Msgpack (Program bigEndian)

def sizeT (n : Nat) : Nat :=
  n % 2 ^ 32

-- `mp_reader_t` without its buffer. `back` is not in the code: it says whether the position has been
-- moved backwards.
structure Cursor where
  pos  : Nat
  back : Bool := false
  deriving DecidableEq

-- `r->pos += n`
def Cursor.advance (c : Cursor) (n : Nat) : Cursor where
  pos  := sizeT (c.pos + n)
  back := c.back || decide (sizeT (c.pos + n) < c.pos)

-- What a call comes to; it is still running if its depth is not enough.
inductive Skipped
  | running
  | failed (c : Cursor)
  | done (c : Cursor)
  deriving DecidableEq

-- The kinds of values that have their length in the bytes behind the tag.
inductive Kind
  | str
  | array
  | map
  deriving DecidableEq

-- What a tag says about what is behind it: bytes, or values, or the length in one byte or in more.
inductive Form
  | bytes (n : Nat)
  | values (n : Nat)
  | length8
  | length (width : Nat) (kind : Kind)
  | unknown
  deriving DecidableEq

-- Only the bridge knows the lengths of 32 bits.
def form (p : Program) (tag : UInt8) : Form :=
  if tag ≤ 0x7f ∨ 0xe0 ≤ tag ∨ tag = 0xc0 ∨ tag = 0xc2 ∨ tag = 0xc3 then .values 0
  else if 0xa0 ≤ tag ∧ tag ≤ 0xbf then .bytes (tag &&& 0x1f).toNat
  else if 0x80 ≤ tag ∧ tag ≤ 0x8f then .values ((tag &&& 0x0f).toNat * 2)
  else if 0x90 ≤ tag ∧ tag ≤ 0x9f then .values (tag &&& 0x0f).toNat
  else if tag = 0xcc ∨ tag = 0xd0 then .bytes 1
  else if tag = 0xcd ∨ tag = 0xd1 then .bytes 2
  else if tag = 0xce ∨ tag = 0xd2 ∨ tag = 0xca then .bytes 4
  else if tag = 0xcf ∨ tag = 0xd3 ∨ tag = 0xcb then .bytes 8
  else if tag = 0xd9 then .length8
  else if tag = 0xda then .length 2 .str
  else if tag = 0xdc then .length 2 .array
  else if tag = 0xde then .length 2 .map
  else if p = .bridge ∧ tag = 0xdb then .length 4 .str
  else if p = .bridge ∧ tag = 0xdd then .length 4 .array
  else if p = .bridge ∧ tag = 0xdf then .length 4 .map
  else .unknown

section Skip

variable (p : Program) (buf : List UInt8)

-- `mp_read_u8`
def readU8 (c : Cursor) : Option (UInt8 × Cursor) :=
  buf[c.pos]?.map fun b => (b, c.advance 1)

-- `mp_read_bytes`
def readBytes (n : Nat) (c : Cursor) : Option (List UInt8 × Cursor) :=
  if buf.length < sizeT (c.pos + n) then none
  else some ((buf.drop c.pos).take n, c.advance n)

-- `r->pos += n; return r->pos <= r->len ? 0 : -1;`
def skipBytes (n : Nat) (c : Cursor) : Skipped :=
  let c := c.advance n
  if c.pos ≤ buf.length then .done c else .failed c

-- `mp_skip_values`
def skipValues (skipValue : Cursor → Skipped) : Nat → Cursor → Skipped
  | 0, c     => .done c
  | n + 1, c =>
    match skipValue c with
    | .done c => skipValues skipValue n c
    | result  => result

-- What is left of a value once its length has been read.
def skipLength (skipValue : Cursor → Skipped) (kind : Kind) (n : Nat) (c : Cursor) : Skipped :=
  match kind with
  | .str   => skipBytes buf n c
  | .array => skipValues skipValue n c
  | .map   => skipValues skipValue (sizeT (n * 2)) c

-- `mp_skip_value`, with calls that are nested less than `depth` deep.
def skipValue : (depth : Nat) → Cursor → Skipped
  | 0, _         => .running
  | depth + 1, c =>
    match readU8 buf c with
    | none          => .failed c
    | some (tag, c) =>
      match form p tag with
      | .bytes n  => skipBytes buf n c
      | .values n => skipValues (skipValue depth) n c
      | .length8  =>
        match readU8 buf c with
        | none        => .failed c
        | some (n, c) => skipBytes buf n.toNat c
      | .length width kind =>
        match readBytes buf width c with
        | none        => .failed c
        | some (d, c) => skipLength buf (skipValue depth) kind (bigEndian d) c
      | .unknown => .failed c

end Skip

end Deneb.MsgpackSkip
