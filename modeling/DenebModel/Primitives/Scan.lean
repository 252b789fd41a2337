import DenebModel.Primitives.BinaryFloat

-- The conversions of `sscanf` that a format string is composed of. A conversion takes the input
-- that is left and returns its value with the rest of the input, or fails to match.
namespace Scan

open CString

abbrev Conversion (α : Type) := CString → Option (α × CString)

-- A blank in the format matches any amount of white space, also none.
def blank (s : CString) : CString :=
  skipSpaces s

-- Ordinary characters of the format.
def text (t : CString) (s : CString) : Option CString :=
  if startsWith s t then some (s.drop t.length) else none

def sign : CString → Bool × CString
  | 45 :: s => (true, s)
  | 43 :: s => (false, s)
  | s       => (false, s)

def digitValue (c : UInt8) : Nat :=
  c.toNat - 48

def decimal (ds : CString) : Nat :=
  ds.foldl (fun n c => 10 * n + digitValue c) 0

-- `%d` and `%u` without the conversion to the width of the target.
def integer : Conversion Int := fun s =>
  let (negative, s) := sign (skipSpaces s)
  let ds := s.takeWhile isDigit
  if ds.isEmpty then none
  else some (if negative then -(decimal ds) else decimal ds, s.dropWhile isDigit)

-- The value a 32 bit `unsigned int` takes.
def unsigned : Conversion Nat := fun s =>
  (integer s).map fun (v, rest) => ((v % 2 ^ 32).toNat, rest)

-- The value a 32 bit `int` takes.
def int : Conversion Int := fun s =>
  (integer s).map fun (v, rest) => ((v + 2 ^ 31) % 2 ^ 32 - 2 ^ 31, rest)

-- `%<width>s`
def word (width : Nat) : Conversion CString := fun s =>
  let s := skipSpaces s
  let w := (s.takeWhile (!isSpace ·)).take width
  if w.isEmpty then none else some (w, s.drop w.length)

-- `%<width>[^<c>]`
def upTo (width : Nat) (c : UInt8) : Conversion CString := fun s =>
  let w := (s.takeWhile (· != c)).take width
  if w.isEmpty then none else some (w, s.drop w.length)

def hexValue (c : UInt8) : Option Nat :=
  if isDigit c then some (c.toNat - 48)
  else if 97 ≤ c && c ≤ 102 then some (c.toNat - 87)
  else if 65 ≤ c && c ≤ 70 then some (c.toNat - 55)
  else none

-- A mantissa with an optional point: the value of its digits, how many of them follow the point,
-- and the rest. It fails without a digit.
def mantissa (base : Nat) (value : UInt8 → Option Nat) : Conversion (Nat × Nat) := fun s =>
  let isDig := fun c => (value c).isSome
  let num := fun (ds : CString) n => ds.foldl (fun n c => base * n + (value c).getD 0) n
  let whole := s.takeWhile isDig
  match s.dropWhile isDig with
  | 46 :: t =>
    let frac := t.takeWhile isDig
    if whole.isEmpty && frac.isEmpty then none
    else some ((num frac (num whole 0), frac.length), t.dropWhile isDig)
  | t => if whole.isEmpty then none else some ((num whole 0, 0), t)

-- An optional exponent after the letter `e`. A letter without digits after it is a matching
-- failure, since the input item is then only the beginning of a number.
def exponent (e : UInt8) (s : CString) : Option (Int × CString) :=
  match s with
  | c :: t =>
    if toLower c = e then
      let (negative, t) := sign t
      let ds := t.takeWhile isDigit
      if ds.isEmpty then none
      else some (if negative then -(decimal ds) else decimal ds, t.dropWhile isDigit)
    else some (0, s)
  | [] => some (0, [])

-- The fraction `n · base ^ e`.
def power (n base : Nat) (e : Int) : Nat × Nat :=
  if 0 ≤ e then (n * base ^ e.toNat, 1) else (n, base ^ (-e).toNat)

def nanTail : CString → Option CString
  | 40 :: s =>
    match s.dropWhile (fun c => isAlnum c || c == 95) with
    | 41 :: rest => some rest
    | _          => none
  | s => some s

-- `%f` and `strtod`, for a number format.
def float (f : BinaryFloat.Format) : Conversion BinaryFloat := fun s =>
  let (negative, s) := sign (skipSpaces s)
  let low := (s.take 8).map toLower
  if startsWith low "infinity" then some (.inf negative, s.drop 8)
  else if startsWith low "infi" then none
  else if startsWith low "inf" then some (.inf negative, s.drop 3)
  else if startsWith low "nan" then (nanTail (s.drop 3)).map (.nan, ·)
  else if startsWith low "0x" then do
    let ((n, k), s) ← mantissa 16 hexValue (s.drop 2)
    let (e, s) ← exponent 112 s
    let (a, b) := power n 2 (e - 4 * k)
    return (.round f negative a b, s)
  else do
    let ((n, k), s) ← mantissa 10 (fun c => if isDigit c then some (digitValue c) else none) s
    let (e, s) ← exponent 101 s
    let (a, b) := power n 10 (e - k)
    return (.round f negative a b, s)

-- The value of `strtod`, if it converts anything. It takes the longest beginning of the input that is
-- a number, so an exponent without digits is left in the input instead of being a failure.
def strtod (s : CString) : Option BinaryFloat :=
  let (negative, s) := sign (skipSpaces s)
  let low := (s.take 8).map toLower
  let exp := fun letter s => ((exponent letter s).map (·.1)).getD 0
  if startsWith low "inf" then some (.inf negative)
  else if startsWith low "nan" then some .nan
  else if startsWith low "0x" then
    match mantissa 16 hexValue (s.drop 2) with
    | some ((n, k), s) =>
      let (a, b) := power n 2 (exp 112 s - 4 * k)
      some (.round BinaryFloat.double negative a b)
    | none => some (.round BinaryFloat.double negative 0 1)
  else do
    let ((n, k), s) ← mantissa 10 (fun c => if isDigit c then some (digitValue c) else none) s
    let (a, b) := power n 10 (exp 101 s - k)
    return .round BinaryFloat.double negative a b

-- `strtof`: the value and what is left of the input, or nothing if it converts nothing.
def strtof (s : CString) : Option (BinaryFloat × CString) :=
  let (negative, s) := sign (skipSpaces s)
  let low := (s.take 8).map toLower
  let exp := fun letter s => (exponent letter s).getD (0, s)
  if startsWith low "infinity" then some (.inf negative, s.drop 8)
  else if startsWith low "inf" then some (.inf negative, s.drop 3)
  else if startsWith low "nan" then some (.nan, (nanTail (s.drop 3)).getD (s.drop 3))
  else if startsWith low "0x" then
    match mantissa 16 hexValue (s.drop 2) with
    | some ((n, k), s) =>
      let (e, s) := exp 112 s
      let (a, b) := power n 2 (e - 4 * k)
      some (.round BinaryFloat.single negative a b, s)
    | none => some (.round BinaryFloat.single negative 0 1, s.drop 1)
  else
    match mantissa 10 (fun c => if isDigit c then some (digitValue c) else none) s with
    | some ((n, k), s) =>
      let (e, s) := exp 101 s
      let (a, b) := power n 10 (e - k)
      some (.round BinaryFloat.single negative a b, s)
    | none => none

-- `strtol` to the base 10 with a 32 bit `long`, which keeps to the range of the type.
def strtol (s : CString) : Int :=
  match integer s with
  | none        => 0
  | some (v, _) => max (-2 ^ 31) (min v (2 ^ 31 - 1))

end Scan
