import Mathlib.Algebra.Group.Int.Defs
import Mathlib.Algebra.GroupWithZero.Nat
import Mathlib.Data.List.Induction

-- Numbers of several bytes.
namespace Octets

abbrev Bytes := List UInt8

-- The last bytes of a number, the most significant one first.
def be : Nat → Nat → Bytes
  | 0, _     => []
  | k + 1, n => (n / 256 ^ k).toUInt8 :: be k n

def le (k n : Nat) : Bytes :=
  (be k n).reverse

def readBe (s : Bytes) : Nat :=
  s.foldl (fun n b => 256 * n + b.toNat) 0

def readLe (s : Bytes) : Nat :=
  readBe s.reverse

-- Numbers behind each other, each with its width.
def leFields (fields : List (Nat × Nat)) : Bytes :=
  fields.flatMap fun f => le f.1 f.2

def width (fields : List (Nat × Nat)) : Nat :=
  (fields.map Prod.fst).sum

variable {k n : Nat} {s : Bytes}

@[simp] theorem length_be : (be k n).length = k := by
  induction k
  case zero      => rfl
  case succ k ih => rw [be, List.length_cons, ih]

@[simp] theorem length_le : (le k n).length = k := by
  rw [le, List.length_reverse, length_be]

theorem foldl_be {m : Nat} :
    (be k n).foldl (fun n b => 256 * n + b.toNat) m = m * 256 ^ k + n % 256 ^ k := by
  induction k generalizing m
  case zero      => simp [be, Nat.mod_one]
  case succ k ih =>
    have hd : (n / 256 ^ k).toUInt8.toNat = n / 256 ^ k % 256 := rfl
    rw [be, List.foldl_cons, ih, hd, Nat.pow_succ, Nat.mod_mul, Nat.add_mul]
    ac_rfl

theorem readBe_be (h : n < 256 ^ k) : readBe (be k n) = n := by
  rw [readBe, foldl_be, Nat.zero_mul, Nat.zero_add, Nat.mod_eq_of_lt h]

theorem readLe_le (h : n < 256 ^ k) : readLe (le k n) = n := by
  rw [readLe, le, List.reverse_reverse, readBe_be h]

theorem readBe_lt : readBe s < 256 ^ s.length := by
  induction s using List.reverseRecOn
  case nil => decide
  case append_singleton s b ih =>
    have hb := b.toNat_lt
    rw [readBe, List.foldl_append, List.length_append, List.length_singleton, Nat.pow_succ]
    rw [readBe] at ih
    simp only [List.foldl_cons, List.foldl_nil]
    omega

theorem readLe_lt : readLe s < 256 ^ s.length := by
  rw [← @List.length_reverse _ s]
  exact readBe_lt

theorem exists_four (h : 4 ≤ s.length) : ∃ a b c d rest, s = a :: b :: c :: d :: rest := by
  match s, h with
  | a :: b :: c :: d :: rest, _ => exact ⟨a, b, c, d, rest, rfl⟩

theorem or_shift {a b : Nat} (k : Nat) (h : b < 2 ^ k) : a <<< k ||| b = 2 ^ k * a + b := by
  rw [← Nat.shiftLeft_add_eq_or_of_lt h, Nat.shiftLeft_eq, Nat.mul_comm]

theorem readBe_word (a b c d : UInt8) :
    readBe [a, b, c, d] = 2 ^ 24 * a.toNat + (2 ^ 16 * b.toNat + (2 ^ 8 * c.toNat + d.toNat)) := by
  simp only [readBe, List.foldl_cons, List.foldl_nil]
  omega

-- A word of four bytes that are shifted to their places.
theorem or_word (a b c d : UInt8) :
    a.toUInt32 <<< 24 ||| b.toUInt32 <<< 16 ||| c.toUInt32 <<< 8 ||| d.toUInt32 =
      (readBe [a, b, c, d]).toUInt32 := by
  have ha := a.toNat_lt
  have hb := b.toNat_lt
  have hc := c.toNat_lt
  have hd := d.toNat_lt
  have small (x k : Nat) (hx : x < 256) (hk : k ≤ 24) : x <<< k % 2 ^ 32 = x <<< k := by
    refine Nat.mod_eq_of_lt ?_
    rw [Nat.shiftLeft_eq]
    calc
      x * 2 ^ k < 2 ^ 8 * 2 ^ 24 :=
        Nat.mul_lt_mul_of_lt_of_le hx (Nat.pow_le_pow_right (by decide) hk) (by decide)
      _ = 2 ^ 32 := by decide
  refine UInt32.toNat_inj.mp ?_
  simp only [UInt32.toNat_or, UInt32.toNat_shiftLeft, UInt8.toNat_toUInt32]
  rw [show (24 : UInt32).toNat % 32 = 24 from rfl, show (16 : UInt32).toNat % 32 = 16 from rfl,
    show (8 : UInt32).toNat % 32 = 8 from rfl, small _ 24 ha (by decide), small _ 16 hb (by decide),
    small _ 8 hc (by decide), Nat.or_assoc, Nat.or_assoc, or_shift 8 hd, or_shift 16 (by omega),
    or_shift 24 (by omega), readBe_word]
  exact (Nat.mod_eq_of_lt (by omega)).symm

theorem be_word (v : UInt32) :
    be 4 v.toNat = [(v >>> 24).toUInt8, (v >>> 16).toUInt8, (v >>> 8).toUInt8, v.toUInt8] := by
  simp only [be, List.cons.injEq, and_true]
  refine ⟨?_, ?_, ?_, ?_⟩ <;> refine UInt8.toNat_inj.mp ?_ <;> simp [Nat.shiftRight_eq_div_pow]

theorem length_leFields {fields : List (Nat × Nat)} : (leFields fields).length = width fields := by
  induction fields
  case nil => rfl
  case cons f fields ih =>
    rw [leFields, List.flatMap_cons, List.length_append, ← leFields, ih, length_le]
    rfl

-- A number is found behind the ones in front of it.
theorem readLe_leFields {fields : List (Nat × Nat)} {i j : Nat} (h : fields[j]? = some (k, n))
    (hn : n < 256 ^ k) (hi : width (fields.take j) = i) :
    readLe (((leFields fields ++ s).drop i).take k) = n := by
  obtain ⟨hj, hf⟩ := List.getElem?_eq_some_iff.mp h
  have split : fields = fields.take j ++ (k, n) :: fields.drop (j + 1) := by
    rw [← hf, List.getElem_cons_drop, List.take_append_drop]
  have parts : leFields fields =
      leFields (fields.take j) ++ (le k n ++ leFields (fields.drop (j + 1))) := by
    conv => lhs; rw [split, leFields, List.flatMap_append, List.flatMap_cons]
    rfl
  have here : (leFields (fields.take j)).length = i := length_leFields.trans hi
  rw [parts, List.append_assoc, List.drop_left' here, List.append_assoc, List.take_left' length_le,
    readLe_le hn]

end Octets
