import Mathlib.Algebra.Group.Int.Defs
import Mathlib.Algebra.GroupWithZero.Nat
import Mathlib.Data.List.Basic

-- The texts of JSON, as bytes.
namespace JsonText

abbrev Bytes := List UInt8

-- A byte that may follow a backslash, besides `u`, with the byte that the two stand for.
def escapes : List (UInt8 × UInt8) :=
  [(34, 34), (92, 92), (47, 47), (98, 8), (102, 12), (110, 10), (114, 13), (116, 9)]

def hexDigit (c : UInt8) : Option Nat :=
  if 48 ≤ c ∧ c ≤ 57 then some (c.toNat - 48)
  else if 65 ≤ c ∧ c ≤ 70 then some (c.toNat - 55)
  else if 97 ≤ c ∧ c ≤ 102 then some (c.toNat - 87)
  else none

-- The UTF-8 bytes of a code unit; a surrogate stands for itself.
def utf8 (n : Nat) : Bytes :=
  if n < 0x80 then [n.toUInt8]
  else if n < 0x800 then [(0xc0 + n / 64).toUInt8, (0x80 + n % 64).toUInt8]
  else [(0xe0 + n / 4096).toUInt8, (0x80 + n / 64 % 64).toUInt8, (0x80 + n % 64).toUInt8]

-- The text between the quotes of a string, with the bytes that it stands for.
inductive Characters : Bytes → Bytes → Prop
  | nil : Characters [] []
  | plain (c) : 32 ≤ c → c ≠ 34 → c ≠ 92 → Characters s v → Characters (c :: s) (c :: v)
  | escaped (c d) : (c, d) ∈ escapes → Characters s v → Characters (92 :: c :: s) (d :: v)
  | unicode (a b c d) :
    hexDigit a = some w → hexDigit b = some x → hexDigit c = some y → hexDigit d = some z →
    Characters s v →
    Characters (92 :: 117 :: a :: b :: c :: d :: s) (utf8 (4096 * w + 256 * x + 16 * y + z) ++ v)

-- White space of JSON.
def isSpace (c : UInt8) : Bool :=
  c == 32 || c == 9 || c == 13 || c == 10

def skip (t : Bytes) : Bytes :=
  t.dropWhile isSpace

structure IsDigits (s : Bytes) : Prop where
  nonempty : s ≠ []
  digits   : ∀ c ∈ s, 48 ≤ c ∧ c ≤ 57

structure IsWhole (s : Bytes) : Prop extends IsDigits s where
  zero : s.head? = some 48 → s = [48]

inductive IsFraction : Bytes → Prop
  | none : IsFraction []
  | some : IsDigits s → IsFraction (46 :: s)

inductive IsExponent : Bytes → Prop
  | none : IsExponent []
  | some (c sign) :
    c ∈ [101, 69] → sign ∈ [[], [43], [45]] → IsDigits s → IsExponent (c :: (sign ++ s))

inductive Number : Bytes → Prop
  | mk (sign) :
    sign ∈ [[], [45]] → IsWhole whole → IsFraction fraction → IsExponent exponent →
    Number (sign ++ whole ++ fraction ++ exponent)

-- `true`, `false` and `null`
def literals : List Bytes :=
  [[116, 114, 117, 101], [102, 97, 108, 115, 101], [110, 117, 108, 108]]

inductive Kind
  | value
  | elements
  | member
  | members

-- A text starts with the text of a value, of the elements of an array, or of the members of an
-- object; the last argument is what follows it. The elements and members may have white space in
-- front of them.
inductive Text : Kind → Bytes → Bytes → Prop
  | string : Characters s v → Text .value (34 :: (s ++ 34 :: t)) t
  | number (t) : Number s → Text .value (s ++ t) t
  | literal (t) : s ∈ literals → Text .value (s ++ t) t
  | emptyArray : skip t = 93 :: t₁ → Text .value (91 :: t) t₁
  | array : Text .elements t t₁ → skip t₁ = 93 :: t₂ → Text .value (91 :: t) t₂
  | emptyObject : skip t = 125 :: t₁ → Text .value (123 :: t) t₁
  | object : Text .members t t₁ → skip t₁ = 125 :: t₂ → Text .value (123 :: t) t₂
  | element : Text .value (skip t) t₁ → Text .elements t t₁
  | elements :
    Text .value (skip t) t₁ → skip t₁ = 44 :: t₂ → Text .elements t₂ t₃ → Text .elements t t₃
  | member :
    skip t = 34 :: (s ++ 34 :: t₁) → Characters s v → skip t₁ = 58 :: t₂ →
    Text .value (skip t₂) t₃ → Text .member t t₃
  | single : Text .member t t₁ → Text .members t t₁
  | members :
    Text .member t t₁ → skip t₁ = 44 :: t₂ → Text .members t₂ t₃ → Text .members t t₃

-- A text that is a single value.
def Document (t : Bytes) : Prop :=
  ∃ t₁, Text .value (skip t) t₁ ∧ skip t₁ = []

structure IsObject (e : Bytes) : Prop where
  brace : e.head? = some 123
  text  : Text .value e []

-- A text starts with objects that are separated by commas, and these are the texts of the objects.
inductive Objects : List Bytes → Bytes → Bytes → Prop
  | single : skip t = e ++ t₁ → IsObject e → Objects [e] t t₁
  | cons :
    skip t = e ++ t₁ → IsObject e → skip t₁ = 44 :: t₂ → Objects es t₂ t₃ → Objects (e :: es) t t₃

-- A text that is an array of these objects.
inductive ObjectArray : List Bytes → Bytes → Prop
  | empty : skip t = 91 :: t₁ → skip t₁ = 93 :: t₂ → skip t₂ = [] → ObjectArray [] t
  | objects :
    skip t = 91 :: t₁ → Objects es t₁ t₂ → skip t₂ = 93 :: t₃ → skip t₃ = [] → ObjectArray es t

variable {s t v : Bytes} {c : UInt8}

theorem Characters.append (h : Characters s v) {t w : Bytes} (ht : Characters t w) :
    Characters (s ++ t) (v ++ w) := by
  induction h
  case nil => exact ht
  case plain c hc hq hb _ ih => exact .plain c hc hq hb ih
  case escaped c d hm _ ih   => exact .escaped c d hm ih
  case unicode ha hb hc hd _ ih =>
    rw [List.append_assoc]
    exact .unicode _ _ _ _ ha hb hc hd ih

theorem Characters.of_plain (h : Characters (c :: s) v) (hc : c ≠ 92) : ∃ w, Characters s w := by
  cases h
  case plain h => exact ⟨_, h⟩
  all_goals contradiction

theorem Characters.of_escaped (h : Characters (92 :: c :: s) v) (hc : c ≠ 117) :
    ∃ w, Characters s w := by
  cases h
  case plain h   => contradiction
  case escaped h => exact ⟨_, h⟩
  case unicode   => contradiction

theorem not_characters_quote : ¬Characters (34 :: s) v := by
  intro h
  cases h
  contradiction

theorem not_characters_backslash : ¬Characters [92] v := by
  intro h
  cases h
  contradiction

end JsonText
