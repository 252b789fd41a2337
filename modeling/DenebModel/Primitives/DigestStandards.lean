import DenebModel.Primitives.BlockHash

open Octets

-- The 16 words of a block of 64 bytes.
def blockWords (read : Bytes → Nat) (block : Bytes) : List UInt32 :=
  (List.range 16).map fun i => (read ((block.drop (4 * i)).take 4)).toUInt32

theorem blockSize_pos : 0 < 64 := by decide

-- MD5 as RFC 1321 defines it, over any table of 64 constants.
namespace Rfc1321

-- Entry `i` of the table is the integer part of 2 ^ 32 times the absolute value of the sine of
-- `i + 1`.
def sines : List UInt32 := [
  0xd76aa478, 0xe8c7b756, 0x242070db, 0xc1bdceee, 0xf57c0faf, 0x4787c62a, 0xa8304613, 0xfd469501,
  0x698098d8, 0x8b44f7af, 0xffff5bb1, 0x895cd7be, 0x6b901122, 0xfd987193, 0xa679438e, 0x49b40821,
  0xf61e2562, 0xc040b340, 0x265e5a51, 0xe9b6c7aa, 0xd62f105d, 0x02441453, 0xd8a1e681, 0xe7d3fbc8,
  0x21e1cde6, 0xc33707d6, 0xf4d50d87, 0x455a14ed, 0xa9e3e905, 0xfcefa3f8, 0x676f02d9, 0x8d2a4c8a,
  0xfffa3942, 0x8771f681, 0x6d9d6122, 0xfde5380c, 0xa4beea44, 0x4bdecfa9, 0xf6bb4b60, 0xbebfbc70,
  0x289b7ec6, 0xeaa127fa, 0xd4ef3085, 0x04881d05, 0xd9d4d039, 0xe6db99e5, 0x1fa27cf8, 0xc4ac5665,
  0xf4292244, 0x432aff97, 0xab9423a7, 0xfc93a039, 0x655b59c3, 0x8f0ccc92, 0xffeff47d, 0x85845dd1,
  0x6fa87e4f, 0xfe2ce6e0, 0xa3014314, 0x4e0811a1, 0xf7537e82, 0xbd3af235, 0x2ad7d2bb, 0xeb86d391]

@[ext]
structure State where
  a : UInt32
  b : UInt32
  c : UInt32
  d : UInt32
  deriving DecidableEq

def start : State := ⟨0x67452301, 0xefcdab89, 0x98badcfe, 0x10325476⟩

def rotate (n x : UInt32) : UInt32 :=
  x <<< n ||| x >>> (32 - n)

def mix (j : Nat) (x y z : UInt32) : UInt32 :=
  match j / 16 with
  | 0 => x &&& y ||| ~~~x &&& z
  | 1 => x &&& z ||| y &&& ~~~z
  | 2 => x ^^^ y ^^^ z
  | _ => y ^^^ (x ||| ~~~z)

-- The word that step `j` adds, and how far it rotates.
def index (j : Nat) : Nat :=
  match j / 16 with
  | 0 => j
  | 1 => (5 * j + 1) % 16
  | 2 => (3 * j + 5) % 16
  | _ => 7 * j % 16

def distance (j : Nat) : UInt32 :=
  let distances : List UInt32 := match j / 16 with
    | 0 => [7, 12, 17, 22]
    | 1 => [5, 9, 14, 20]
    | 2 => [4, 11, 16, 23]
    | _ => [6, 10, 15, 21]
  distances.getD (j % 4) 0

def step (table x : List UInt32) (s : State) (j : Nat) : State where
  a := s.d
  b := s.b + rotate (distance j) (s.a + mix j s.b s.c s.d + x.getD (index j) 0 + table.getD j 0)
  c := s.b
  d := s.c

def State.add (s r : State) : State where
  a := s.a + r.a
  b := s.b + r.b
  c := s.c + r.c
  d := s.d + r.d

def compress (table : List UInt32) (s : State) (block : Bytes) : State :=
  s.add ((List.range 64).foldl (step table (blockWords readLe block)) s)

def hash (table : List UInt32) : BlockHash State where
  size     := 64
  size_pos := blockSize_pos
  compress := compress table

def output (s : State) : Bytes :=
  [s.a, s.b, s.c, s.d].flatMap fun word => le 4 word.toNat

def lengthField (message : Bytes) : Bytes :=
  le 8 (8 * message.length)

def digestWith (table : List UInt32) (message : Bytes) : Bytes :=
  output ((hash table).chain start (lengthField message) message)

def digest (message : Bytes) : Bytes :=
  digestWith sines message

end Rfc1321

-- SHA-256 as FIPS 180-4 defines it.
namespace Fips180

def constants : List UInt32 := [
  0x428a2f98, 0x71374491, 0xb5c0fbcf, 0xe9b5dba5, 0x3956c25b, 0x59f111f1, 0x923f82a4, 0xab1c5ed5,
  0xd807aa98, 0x12835b01, 0x243185be, 0x550c7dc3, 0x72be5d74, 0x80deb1fe, 0x9bdc06a7, 0xc19bf174,
  0xe49b69c1, 0xefbe4786, 0x0fc19dc6, 0x240ca1cc, 0x2de92c6f, 0x4a7484aa, 0x5cb0a9dc, 0x76f988da,
  0x983e5152, 0xa831c66d, 0xb00327c8, 0xbf597fc7, 0xc6e00bf3, 0xd5a79147, 0x06ca6351, 0x14292967,
  0x27b70a85, 0x2e1b2138, 0x4d2c6dfc, 0x53380d13, 0x650a7354, 0x766a0abb, 0x81c2c92e, 0x92722c85,
  0xa2bfe8a1, 0xa81a664b, 0xc24b8b70, 0xc76c51a3, 0xd192e819, 0xd6990624, 0xf40e3585, 0x106aa070,
  0x19a4c116, 0x1e376c08, 0x2748774c, 0x34b0bcb5, 0x391c0cb3, 0x4ed8aa4a, 0x5b9cca4f, 0x682e6ff3,
  0x748f82ee, 0x78a5636f, 0x84c87814, 0x8cc70208, 0x90befffa, 0xa4506ceb, 0xbef9a3f7, 0xc67178f2]

structure State where
  a : UInt32
  b : UInt32
  c : UInt32
  d : UInt32
  e : UInt32
  f : UInt32
  g : UInt32
  h : UInt32
  deriving DecidableEq

def start : State := ⟨
  0x6a09e667, 0xbb67ae85, 0x3c6ef372, 0xa54ff53a, 0x510e527f, 0x9b05688c, 0x1f83d9ab, 0x5be0cd19⟩

def rotr (n x : UInt32) : UInt32 :=
  x >>> n ||| x <<< (32 - n)

def ch (x y z : UInt32) : UInt32 := (x &&& y) ^^^ (~~~x &&& z)
def maj (x y z : UInt32) : UInt32 := (x &&& y) ^^^ (x &&& z) ^^^ (y &&& z)
def bigSigma0 (x : UInt32) : UInt32 := rotr 2 x ^^^ rotr 13 x ^^^ rotr 22 x
def bigSigma1 (x : UInt32) : UInt32 := rotr 6 x ^^^ rotr 11 x ^^^ rotr 25 x
def smallSigma0 (x : UInt32) : UInt32 := rotr 7 x ^^^ rotr 18 x ^^^ x >>> 3
def smallSigma1 (x : UInt32) : UInt32 := rotr 17 x ^^^ rotr 19 x ^^^ x >>> 10

-- The words of the message schedule, the first 16 of which are those of the block.
def schedule (block : Bytes) : List UInt32 :=
  (List.range 48).foldl (fun w i =>
    w ++ [smallSigma1 (w.getD (i + 14) 0) + w.getD (i + 9) 0 + smallSigma0 (w.getD (i + 1) 0) + w.getD i 0])
    (blockWords readBe block)

def round (w : List UInt32) (s : State) (t : Nat) : State :=
  let t₁ := s.h + bigSigma1 s.e + ch s.e s.f s.g + constants.getD t 0 + w.getD t 0
  let t₂ := bigSigma0 s.a + maj s.a s.b s.c
  { a := t₁ + t₂, b := s.a, c := s.b, d := s.c, e := s.d + t₁, f := s.e, g := s.f, h := s.g }

def compress (s : State) (block : Bytes) : State :=
  let r := (List.range 64).foldl (round (schedule block)) s
  { a := s.a + r.a, b := s.b + r.b, c := s.c + r.c, d := s.d + r.d
    e := s.e + r.e, f := s.f + r.f, g := s.g + r.g, h := s.h + r.h }

def hash : BlockHash State where
  size     := 64
  size_pos := blockSize_pos
  compress := compress

def output (s : State) : Bytes :=
  [s.a, s.b, s.c, s.d, s.e, s.f, s.g, s.h].flatMap fun word => be 4 word.toNat

def digest (message : Bytes) : Bytes :=
  output (hash.chain start (be 8 (8 * message.length)) message)

end Fips180
