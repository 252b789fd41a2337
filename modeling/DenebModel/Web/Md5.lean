import DenebModel.Primitives.CString

-- `web/src/md5.c`
namespace Deneb.Md5

def sines : List UInt32 := [
  0xd76aa478, 0xe8c7b756, 0x242070db, 0xc1bdceee, 0xf57c0faf, 0x4787c62a, 0xa8304613, 0xfd469501,
  0x698098d8, 0x8b44f7af, 0xffff5bb1, 0x895cd7be, 0x6b901122, 0xfd987193, 0xa679438e, 0x49b40821,
  0xf61e2562, 0xc040b340, 0x265e5a51, 0xe9b6c7aa, 0xd62f105d, 0x02441453, 0xd8a1e681, 0xe7d3fbc8,
  0x21e1cde6, 0xc33707d7, 0xf4d50d87, 0x455a14ed, 0xa9e3e905, 0xfcefa3f8, 0x676f02d9, 0x8d2a4c8a,
  0xfffa3942, 0x8771f681, 0x6d9d6122, 0xfde5380c, 0xa4beea44, 0x4bdecfa9, 0xf6bb4b60, 0xbebfbc70,
  0x289b7ec6, 0xeaa127fa, 0xd4ef3085, 0x04881d05, 0xd9d4d039, 0xe6db99e5, 0x1fa27cf8, 0xc4ac5665,
  0xf4292244, 0x432aff97, 0xab9423a7, 0xfc93a039, 0x655b59c3, 0x8f0ccc92, 0xffeff47d, 0x85845dd1,
  0x6fa87e4f, 0xfe2ce6e0, 0xa3014314, 0x4e0811a1, 0xf7537e82, 0xbd3af235, 0x2ad7d2bb, 0xeb86d391]

structure State where
  a : UInt32 := 0x67452301
  b : UInt32 := 0xefcdab89
  c : UInt32 := 0x98badcfe
  d : UInt32 := 0x10325476

def rotl (x n : UInt32) : UInt32 :=
  x <<< n ||| x >>> (32 - n)

-- The basic function of a round, the word that step `i` adds, and the rotations.
structure Round where
  f         : UInt32 → UInt32 → UInt32 → UInt32
  word      : Nat → Nat
  rotations : List UInt32

def rounds : List Round := [
  ⟨fun x y z => x &&& y ||| ~~~x &&& z, fun i => i,                [7, 12, 17, 22]⟩,
  ⟨fun x y z => x &&& z ||| y &&& ~~~z, fun i => (1 + 5 * i) % 16, [5, 9, 14, 20]⟩,
  ⟨fun x y z => x ^^^ y ^^^ z,          fun i => (5 + 3 * i) % 16, [4, 11, 16, 23]⟩,
  ⟨fun x y z => y ^^^ (x ||| ~~~z),     fun i => 7 * i % 16,       [6, 10, 15, 21]⟩]

-- `FF`, `GG`, `HH` and `II`; the next step has the words one place further on.
def Round.step (round : Round) (x : List UInt32) (sine : UInt32) (i : Nat) (s : State) : State :=
  let sum := s.a + round.f s.b s.c s.d + x.getD (round.word i) 0 + sine
  { a := s.d, b := rotl sum (round.rotations.getD (i % 4) 0) + s.b, c := s.b, d := s.c }

-- The little-endian words of a block.
def words : Nat → List UInt8 → List UInt32
  | n + 1, b₀ :: b₁ :: b₂ :: b₃ :: rest =>
    (b₀.toUInt32 ||| b₁.toUInt32 <<< 8 ||| b₂.toUInt32 <<< 16 ||| b₃.toUInt32 <<< 24) :: words n rest
  | _, _ => []

-- `md5_transform`
def transform (state : State) (block : List UInt8) : State :=
  let x := words 16 block
  let s := (rounds.zipIdx.flatMap fun (round, r) => (List.range 16).map fun i => (round, r, i)).foldl
    (fun s (round, r, i) => round.step x (sines.getD (16 * r + i) 0) i s) state
  { a := state.a + s.a, b := state.b + s.b, c := state.c + s.c, d := state.d + s.d }

-- `md5_ctx_t`; `buf` holds the bytes that do not fill a block yet.
structure Context where
  state : State      := {}
  count : Nat        := 0
  buf   : List UInt8 := []

-- The blocks of a text, and the bytes behind the last one.
def blocks : Nat → State → List UInt8 → State × List UInt8
  | 0, state, data          => (state, data)
  | rounds + 1, state, data =>
    if data.length < 64 then (state, data)
    else blocks rounds (transform state (data.take 64)) (data.drop 64)

-- `md5_update`
def update (ctx : Context) (data : CString) : Context :=
  let (state, buf) := blocks (ctx.buf.length + data.length) ctx.state (ctx.buf ++ data)
  { state, count := ctx.count + data.length, buf }

def littleEndian (n : Nat) (bytes : Nat) : List UInt8 :=
  (List.range bytes).map fun i => (n / 2 ^ (8 * i)).toUInt8

-- `md5_final`
def final (ctx : Context) : List UInt8 :=
  let bits := ctx.count * 8 % 2 ^ 64
  let buf := ctx.buf ++ [0x80]
  let (state, buf) :=
    if 56 < buf.length then (transform ctx.state (buf ++ .replicate (64 - buf.length) 0), [])
    else (ctx.state, buf)
  let state := transform state (buf ++ .replicate (56 - buf.length) 0 ++ littleEndian bits 8)
  [state.a, state.b, state.c, state.d].flatMap fun word => littleEndian word.toNat 4

def hexDigit (n : Nat) : UInt8 :=
  if n < 10 then (48 + n).toUInt8 else (87 + n).toUInt8

-- The two digits of each byte.
def hex (bytes : List UInt8) : CString :=
  bytes.flatMap fun b => [hexDigit (b.toNat / 16), hexDigit (b.toNat % 16)]

-- The digest of texts that are fed one after the other.
def hexOf (texts : List CString) : CString :=
  hex (final (texts.foldl update {}))

-- `md5_hex_concat`
def hexConcat (a b : CString) : CString :=
  hexOf [a, [58], b]

theorem length_littleEndian {n bytes : Nat} : (littleEndian n bytes).length = bytes := by
  simp [littleEndian]

theorem length_final {ctx : Context} : (final ctx).length = 16 := by
  simp [final, length_littleEndian]

theorem length_hex {bytes : List UInt8} : (hex bytes).length = 2 * bytes.length := by
  induction bytes
  case nil          => rfl
  case cons b bs ih =>
    simp only [hex, List.flatMap_cons, List.length_append, List.length_cons, List.length_nil] at ih ⊢
    omega

theorem length_hexOf {texts : List CString} : (hexOf texts).length = 32 := by
  rw [hexOf, length_hex, length_final]

theorem hexDigit_isHex {n : Nat} (h : n < 16) :
    48 ≤ hexDigit n ∧ hexDigit n ≤ 57 ∨ 97 ≤ hexDigit n ∧ hexDigit n ≤ 102 := by
  revert n
  decide

-- A digest consists of digits and small letters.
theorem isHex_of_mem_hex {bytes : List UInt8} {c : UInt8} (h : c ∈ hex bytes) :
    48 ≤ c ∧ c ≤ 57 ∨ 97 ≤ c ∧ c ≤ 102 := by
  obtain ⟨b, -, hc⟩ := List.mem_flatMap.mp h
  have hb := b.toNat_lt
  simp only [List.mem_cons, List.not_mem_nil, or_false] at hc
  obtain rfl | rfl := hc
  case inl => exact hexDigit_isHex (by omega)
  case inr => exact hexDigit_isHex (by omega)

end Deneb.Md5
