import Mathlib.Algebra.Group.Int.Defs
import Mathlib.Algebra.GroupWithZero.Nat
import Mathlib.Data.List.Basic

-- A C string is the list of its bytes up to (and without) the terminating NUL.
abbrev CString := List UInt8

namespace CString

def ofString (s : String) : CString :=
  s.toList.map (·.toNat.toUInt8)

instance : Coe String CString where
  coe := ofString

-- Decided over the text; otherwise Mathlib goes through all the bytes.
instance (priority := high) decidableForallMem (s : CString) (p : UInt8 → Prop) [DecidablePred p] :
    Decidable (∀ c ∈ s, p c) :=
  List.decidableBAll p s

-- `isspace` in the C locale: blank, or one of \t \n \v \f \r.
def isSpace (c : UInt8) : Bool :=
  c == 32 || (9 ≤ c && c ≤ 13)

def isDigit (c : UInt8) : Bool :=
  48 ≤ c && c ≤ 57

def isUpper (c : UInt8) : Bool :=
  65 ≤ c && c ≤ 90

def isLower (c : UInt8) : Bool :=
  97 ≤ c && c ≤ 122

def isAlnum (c : UInt8) : Bool :=
  isDigit c || isUpper c || isLower c

def toLower (c : UInt8) : UInt8 :=
  if isUpper c then c + 32 else c

def toUpper (c : UInt8) : UInt8 :=
  if isLower c then c - 32 else c

-- `strncmp(s, p, strlen(p)) == 0`
def startsWith (s p : CString) : Bool :=
  p.isPrefixOf s

-- `strstr`: the suffix of `s` at the first occurrence of `p`.
def strstr : CString → CString → Option CString
  | [], p      => if p.isEmpty then some [] else none
  | c :: cs, p => if startsWith (c :: cs) p then some (c :: cs) else strstr cs p

def contains (s p : CString) : Bool :=
  (strstr s p).isSome

-- `strchr`: the suffix of `s` at the first occurrence of `c`.
def strchr : CString → UInt8 → Option CString
  | [], _      => none
  | d :: ds, c => if d == c then some (d :: ds) else strchr ds c

-- `strrchr`: the text in front of the last occurrence of `c`, and the text behind it.
def strrchr (s : CString) (c : UInt8) : Option (CString × CString) :=
  match s.reverse.dropWhile (· != c) with
  | []         => none
  | _ :: front => some (front.reverse, (s.reverse.takeWhile (· != c)).reverse)

-- `snprintf(buf, size, "%s", s)`: the text that ends up in a buffer of `size` bytes.
def fit (size : Nat) (s : CString) : CString :=
  s.take (size - 1)

def skipSpaces (s : CString) : CString :=
  s.dropWhile isSpace

def trimRight (s : CString) : CString :=
  (s.reverse.dropWhile isSpace).reverse

section

variable {s front back : CString} {c : UInt8}

theorem strrchr_append (h : c ∉ back) : strrchr (front ++ c :: back) c = some (front, back) := by
  have hr : ∀ d ∈ back.reverse, (d != c) = true := by
    intro d hd
    rw [bne_iff_ne]
    rintro rfl
    exact h (List.mem_reverse.mp hd)
  have rev : (front ++ c :: back).reverse = back.reverse ++ c :: front.reverse := by simp
  rw [strrchr, rev, List.dropWhile_append_of_pos hr, List.takeWhile_append_of_pos hr]
  simp

theorem strrchr_eq_some (h : strrchr s c = some (front, back)) : s = front ++ c :: back ∧ c ∉ back := by
  have parts := @List.takeWhile_append_dropWhile _ (· != c) s.reverse
  unfold strrchr at h
  split at h
  case h_1 => cases h
  case h_2 d rest hd =>
    cases h
    have hc : d = c := by
      have := List.head?_dropWhile_not (· != c) s.reverse
      rw [hd] at this
      simpa using this
    rw [hd, hc] at parts
    refine ⟨by simpa using (congrArg List.reverse parts).symm, fun hm => ?_⟩
    have := List.all_eq_true.mp List.all_takeWhile c (List.mem_reverse.mp hm)
    simp at this

theorem strrchr_eq_none (h : strrchr s c = none) : c ∉ s := by
  unfold strrchr at h
  split at h
  case h_2 => cases h
  case h_1 hd =>
    intro hm
    have parts := @List.takeWhile_append_dropWhile _ (· != c) s.reverse
    rw [hd, List.append_nil] at parts
    have := List.all_eq_true.mp List.all_takeWhile c (parts.symm ▸ List.mem_reverse.mpr hm)
    simp at this

end

theorem fit_of_length_lt {size : Nat} {s : CString} (h : s.length < size) : fit size s = s :=
  List.take_of_length_le (by omega)

theorem fit_length_lt {size : Nat} (s : CString) (h : 0 < size) : (fit size s).length < size := by
  simp only [fit, List.length_take]
  omega

end CString
