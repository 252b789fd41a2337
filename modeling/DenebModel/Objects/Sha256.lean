import DenebModel.Primitives.Octets

-- `printsvc/sha256.c`
namespace Deneb.Sha256

open Octets

def rotr (x n : UInt32) : UInt32 :=
  x >>> n ||| x <<< (32 - n)

def ch (x y z : UInt32) : UInt32 := (x &&& y) ^^^ (~~~x &&& z)
def maj (x y z : UInt32) : UInt32 := (x &&& y) ^^^ (x &&& z) ^^^ (y &&& z)
def bsig0 (x : UInt32) : UInt32 := rotr x 2 ^^^ rotr x 13 ^^^ rotr x 22
def bsig1 (x : UInt32) : UInt32 := rotr x 6 ^^^ rotr x 11 ^^^ rotr x 25
def ssig0 (x : UInt32) : UInt32 := rotr x 7 ^^^ rotr x 18 ^^^ x >>> 3
def ssig1 (x : UInt32) : UInt32 := rotr x 17 ^^^ rotr x 19 ^^^ x >>> 10

def k : List UInt32 := [
  0x428a2f98, 0x71374491, 0xb5c0fbcf, 0xe9b5dba5, 0x3956c25b, 0x59f111f1, 0x923f82a4, 0xab1c5ed5,
  0xd807aa98, 0x12835b01, 0x243185be, 0x550c7dc3, 0x72be5d74, 0x80deb1fe, 0x9bdc06a7, 0xc19bf174,
  0xe49b69c1, 0xefbe4786, 0x0fc19dc6, 0x240ca1cc, 0x2de92c6f, 0x4a7484aa, 0x5cb0a9dc, 0x76f988da,
  0x983e5152, 0xa831c66d, 0xb00327c8, 0xbf597fc7, 0xc6e00bf3, 0xd5a79147, 0x06ca6351, 0x14292967,
  0x27b70a85, 0x2e1b2138, 0x4d2c6dfc, 0x53380d13, 0x650a7354, 0x766a0abb, 0x81c2c92e, 0x92722c85,
  0xa2bfe8a1, 0xa81a664b, 0xc24b8b70, 0xc76c51a3, 0xd192e819, 0xd6990624, 0xf40e3585, 0x106aa070,
  0x19a4c116, 0x1e376c08, 0x2748774c, 0x34b0bcb5, 0x391c0cb3, 0x4ed8aa4a, 0x5b9cca4f, 0x682e6ff3,
  0x748f82ee, 0x78a5636f, 0x84c87814, 0x8cc70208, 0x90befffa, 0xa4506ceb, 0xbef9a3f7, 0xc67178f2]

def loadBe32 (p : Bytes) : UInt32 :=
  (p.getD 0 0).toUInt32 <<< 24 ||| (p.getD 1 0).toUInt32 <<< 16 |||
    (p.getD 2 0).toUInt32 <<< 8 ||| (p.getD 3 0).toUInt32

def storeBe32 (v : UInt32) : Bytes :=
  [(v >>> 24).toUInt8, (v >>> 16).toUInt8, (v >>> 8).toUInt8, v.toUInt8]

structure State where
  a : UInt32 := 0x6a09e667
  b : UInt32 := 0xbb67ae85
  c : UInt32 := 0x3c6ef372
  d : UInt32 := 0xa54ff53a
  e : UInt32 := 0x510e527f
  f : UInt32 := 0x9b05688c
  g : UInt32 := 0x1f83d9ab
  h : UInt32 := 0x5be0cd19

-- The array `w`, which is filled from the front.
def words (block : Bytes) : List UInt32 :=
  (List.range 48).foldl (fun w i =>
    w ++ [ssig1 (w.getD (i + 16 - 2) 0) + w.getD (i + 16 - 7) 0 + ssig0 (w.getD (i + 16 - 15) 0) +
      w.getD (i + 16 - 16) 0])
    ((List.range 16).map fun i => loadBe32 (block.drop (i * 4)))

-- One round of the loop over the working variables.
def round (w : List UInt32) (s : State) (i : Nat) : State :=
  let t₁ := s.h + bsig1 s.e + ch s.e s.f s.g + k.getD i 0 + w.getD i 0
  let t₂ := bsig0 s.a + maj s.a s.b s.c
  { h := s.g, g := s.f, f := s.e, e := s.d + t₁, d := s.c, c := s.b, b := s.a, a := t₁ + t₂ }

def transform (state : State) (block : Bytes) : State :=
  let r := (List.range 64).foldl (round (words block)) state
  { a := state.a + r.a, b := state.b + r.b, c := state.c + r.c, d := state.d + r.d
    e := state.e + r.e, f := state.f + r.f, g := state.g + r.g, h := state.h + r.h }

-- `deneb_sha256_t`, with the bytes of `buffer` that are in use.
structure Context where
  state    : State := {}
  bitCount : Nat   := 0
  buffer   : Bytes := []
  short    : buffer.length < 64 := by decide

-- The loop of `deneb_sha256_update`, of which each round takes as much as the buffer has room for.
def fill (ctx : Context) (data : Bytes) : Context :=
  if hd : data = [] then ctx
  else
    let take := min (64 - ctx.buffer.length) data.length
    let buffer := ctx.buffer ++ data.take take
    if hb : buffer.length = 64 then
      fill { ctx with state := transform ctx.state buffer, buffer := [], short := by decide }
        (data.drop take)
    else
      fill { ctx with
        buffer
        short := by
          have := ctx.short
          simp only [buffer, List.length_append, List.length_take] at hb ⊢
          omega } (data.drop take)
termination_by data.length
decreasing_by
  all_goals
    have := ctx.short
    have := List.length_pos_iff.mpr hd
    rw [List.length_drop]
    omega

def update (ctx : Context) (data : Bytes) : Context :=
  fill { ctx with bitCount := (ctx.bitCount + data.length * 8) % 2 ^ 64 } data

def final (ctx : Context) : Bytes :=
  let pad : Bytes := 0x80 :: .replicate 63 0
  let lenBe := (List.range 8).map fun i => (ctx.bitCount >>> ((7 - i) * 8)).toUInt8
  let padLen := if ctx.buffer.length < 56 then 56 - ctx.buffer.length else 120 - ctx.buffer.length
  let s := (update (update ctx (pad.take padLen)) lenBe).state
  [s.a, s.b, s.c, s.d, s.e, s.f, s.g, s.h].flatMap storeBe32

end Deneb.Sha256
