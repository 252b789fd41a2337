import DenebModel.Primitives.Octets
import DenebModel.Web.Md5

-- `web/src/md5.c`: `md5_update` and `md5_final` over the memory of the context, for which `Context`
-- keeps only the bytes that are in use.
namespace Deneb.Md5

open Octets

-- `md5_ctx_t`. The first `count & 0x3f` bytes of `buf` are in use.
structure Memory where
  state : State := {}
  count : Nat   := 0
  buf   : Bytes

-- `memcpy(buf + at, src, len)`
def copy (buf : Bytes) (start : Nat) (src : Bytes) : Bytes :=
  buf.take start ++ src ++ buf.drop (start + src.length)

namespace Memory

-- The rest of `md5_update` once the buffer holds nothing: the whole blocks, and what remains.
def takeBlocks (m : Memory) (data : Bytes) : Memory :=
  let (state, rest) := blocks data.length m.state data
  { m with state, buf := copy m.buf 0 rest }

def update (m : Memory) (data : Bytes) : Memory :=
  let idx := m.count % 64
  let m := { m with count := (m.count + data.length) % 2 ^ 64 }
  if idx = 0 then m.takeBlocks data
  else
    let part := 64 - idx
    if part ≤ data.length then
      let buf := copy m.buf idx (data.take part)
      takeBlocks { m with state := transform m.state buf, buf } (data.drop part)
    else { m with buf := copy m.buf idx data }

-- The end of `md5_final`, with `idx` bytes in use.
def close (m : Memory) (bits idx : Nat) : State :=
  let buf := copy m.buf idx (.replicate (56 - idx) 0)
  transform m.state (copy buf 56 ((List.range 8).map fun i => (bits >>> (i * 8)).toUInt8))

def final (m : Memory) : Bytes :=
  let bits := m.count * 8 % 2 ^ 64
  let idx := m.count % 64
  let m := { m with buf := copy m.buf idx [0x80] }
  let idx := idx + 1
  let s :=
    if 56 < idx then
      let buf := copy m.buf idx (.replicate (64 - idx) 0)
      close { m with state := transform m.state buf, buf } bits 0
    else m.close bits idx
  [s.a, s.b, s.c, s.d].flatMap fun (word : UInt32) =>
    [word.toUInt8, (word >>> 8).toUInt8, (word >>> 16).toUInt8, (word >>> 24).toUInt8]

end Memory
end Deneb.Md5
