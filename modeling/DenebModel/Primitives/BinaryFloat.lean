import DenebModel.Primitives.CString

-- Binary floating point numbers of an IEEE 754 format. A finite number denotes
-- `± mantissa · 2 ^ exponent`; arithmetic is exact and then rounded once, to nearest with ties to
-- even, as the format requires.
inductive BinaryFloat
  | nan
  | inf (negative : Bool)
  | fin (negative : Bool) (mantissa : Nat) (exponent : Int)
  deriving DecidableEq, Repr

namespace BinaryFloat

structure Format where
  precision   : Nat
  minExponent : Int
  -- Magnitudes from `2 ^ maxExponent` on are infinite.
  maxExponent : Int

def single : Format := ⟨24, -149, 128⟩

def double : Format := ⟨53, -1074, 1024⟩

-- The natural number closest to `n / d`, ties to even.
def roundQuotient (n d : Nat) : Nat :=
  let q := n / d
  let r := n % d
  if 2 * r < d then q
  else if d < 2 * r then q + 1
  else if q % 2 = 0 then q else q + 1

-- `n / d · 2 ^ (-e)` as a fraction.
def scale (n d : Nat) (e : Int) : Nat × Nat :=
  if 0 ≤ e then (n, d * 2 ^ e.toNat) else (n * 2 ^ (-e).toNat, d)

def floorLog2 (n d : Nat) : Int :=
  let k := (n.log2 : Int) - d.log2
  let (a, b) := scale n d k
  if b ≤ a then k else k - 1

-- The number of format `f` closest to `± n / d`.
def round (f : Format) (negative : Bool) (n d : Nat) : BinaryFloat :=
  if n = 0 then .fin negative 0 0
  else
    let e := max (floorLog2 n d - (f.precision - 1)) f.minExponent
    let (a, b) := scale n d e
    let m := roundQuotient a b
    if f.maxExponent ≤ m.log2 + e then .inf negative else .fin negative m e

def ofNat (n : Nat) : BinaryFloat :=
  round single false n 1

-- The literal `n / d` with an `f` suffix.
def literal (n d : Nat) : BinaryFloat :=
  round single false n d

def zero : BinaryFloat := .fin false 0 0

def neg : BinaryFloat → BinaryFloat
  | nan       => nan
  | inf s     => inf (!s)
  | fin s m e => fin (!s) m e

-- The integer `± m · 2 ^ (e - b)`, for an exponent `b ≤ e`.
def aligned (negative : Bool) (m : Nat) (e b : Int) : Int :=
  let v : Int := m * 2 ^ (e - b).toNat
  if negative then -v else v

def lt : BinaryFloat → BinaryFloat → Bool
  | nan, _ | _, nan          => false
  | inf s₁, inf s₂           => s₁ && !s₂
  | inf s, fin ..            => s
  | fin .., inf s            => !s
  | fin s₁ m₁ e₁, fin s₂ m₂ e₂ =>
    let b := min e₁ e₂
    aligned s₁ m₁ e₁ b < aligned s₂ m₂ e₂ b

def le : BinaryFloat → BinaryFloat → Bool
  | nan, _ | _, nan          => false
  | inf s₁, inf s₂           => s₁ || !s₂
  | inf s, fin ..            => s
  | fin .., inf s            => !s
  | fin s₁ m₁ e₁, fin s₂ m₂ e₂ =>
    let b := min e₁ e₂
    aligned s₁ m₁ e₁ b ≤ aligned s₂ m₂ e₂ b

def add (f : Format) : BinaryFloat → BinaryFloat → BinaryFloat
  | nan, _ | _, nan => nan
  | inf s₁, inf s₂  => if s₁ = s₂ then inf s₁ else nan
  | inf s, fin ..   => inf s
  | fin .., inf s   => inf s
  | fin s₁ m₁ e₁, fin s₂ m₂ e₂ =>
    let b := min e₁ e₂
    let v := aligned s₁ m₁ e₁ b + aligned s₂ m₂ e₂ b
    if v = 0 then .fin (s₁ && s₂) 0 0
    else
      let (n, d) := scale v.natAbs 1 (-b)
      round f (v < 0) n d

def sub (f : Format) (x y : BinaryFloat) : BinaryFloat :=
  add f x (neg y)

def mul (f : Format) : BinaryFloat → BinaryFloat → BinaryFloat
  | nan, _ | _, nan => nan
  | inf s₁, inf s₂  => inf (s₁ != s₂)
  | inf s₁, fin s₂ m _ | fin s₂ m _, inf s₁ => if m = 0 then nan else inf (s₁ != s₂)
  | fin s₁ m₁ e₁, fin s₂ m₂ e₂ =>
    let (n, d) := scale (m₁ * m₂) 1 (-(e₁ + e₂))
    round f (s₁ != s₂) n d

-- Conversion to another format, e.g. from `double` to `single`.
def convert (f : Format) : BinaryFloat → BinaryFloat
  | nan       => nan
  | inf s     => inf s
  | fin s m e =>
    let (n, d) := scale m 1 (-e)
    round f s n d

-- Conversion to an integer, towards zero.
def toInt : BinaryFloat → Int
  | nan | inf _ => 0
  | fin s m e   =>
    let (n, d) := scale m 1 (-e)
    if s then -(n / d : Nat) else (n / d : Nat)

-- The largest `x` with `10 ^ x ≤ n / d`, for a magnitude in the range of `double`.
def floorLog10 (n d : Nat) : Int :=
  if d ≤ n then (Nat.toDigits 10 (n / d)).length - 1
  else negative 330 1
where
  negative : Nat → Nat → Int
    | 0, k        => -k
    | fuel + 1, k => if d ≤ n * 10 ^ k then -k else negative fuel (k + 1)

def digits (n : Nat) : CString :=
  (Nat.toDigits 10 n).map (·.toNat.toUInt8)

-- `%d`
def formatD (n : Int) : CString :=
  if n < 0 then 45 :: digits n.natAbs else digits n.natAbs

def padLeft (width : Nat) (s : CString) : CString :=
  List.replicate (width - s.length) 48 ++ s

-- Removes the trailing zeros of a fractional part, and the point when nothing is left of it.
def stripZeros (s : CString) : CString :=
  let t := (s.reverse.dropWhile (· == 48)).reverse
  if t = [46] then [] else t

-- `%.<p>g`
def formatG (p : Nat) : BinaryFloat → CString
  | nan       => "nan"
  | inf s     => sign s ++ "inf"
  | fin s 0 _ => sign s ++ "0"
  | fin s m e =>
    let (n, d) := scale m 1 (-e)
    let x₀ := floorLog10 n d
    let shift := (p : Int) - 1 - x₀
    let ds := if 0 ≤ shift then roundQuotient (n * 10 ^ shift.toNat) d
              else roundQuotient n (d * 10 ^ (-shift).toNat)
    -- Rounding up may carry into a further digit.
    let (ds, x) := if ds = 10 ^ p then (10 ^ (p - 1), x₀ + 1) else (ds, x₀)
    let text := digits ds
    if -4 ≤ x ∧ x < p then
      if 0 ≤ x then
        sign s ++ text.take (x.toNat + 1) ++ stripZeros (46 :: text.drop (x.toNat + 1))
      else
        sign s ++ [48] ++ stripZeros (46 :: (List.replicate ((-x).toNat - 1) 48 ++ text))
    else
      let e10 := padLeft 2 (digits x.natAbs)
      sign s ++ text.take 1 ++ stripZeros (46 :: text.drop 1) ++
        [101, if x < 0 then 45 else 43] ++ e10
where
  sign (negative : Bool) : CString := if negative then [45] else []

-- `%.<p>f`
def formatF (p : Nat) : BinaryFloat → CString
  | nan       => "nan"
  | inf s     => formatG.sign s ++ "inf"
  | fin s m e =>
    let (n, d) := scale m 1 (-e)
    let text := padLeft (p + 1) (digits (roundQuotient (n * 10 ^ p) d))
    let whole := text.length - p
    formatG.sign s ++ text.take whole ++ if p = 0 then [] else 46 :: text.drop whole

end BinaryFloat
