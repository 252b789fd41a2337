import Mathlib.Algebra.Group.Int.Defs
import Mathlib.Algebra.GroupWithZero.Nat
import Mathlib.Data.List.Basic
import Mathlib.Logic.Function.Iterate

-- The shift registers of cyclic redundancy checks of `n` bits, which take the most significant bit
-- of a byte first.
structure ShiftRegister (n : Nat) where
  poly : BitVec n
  odd  : poly.getLsbD 0

namespace ShiftRegister

variable {n m : Nat} (r : ShiftRegister n)

def step (s : BitVec n) : BitVec n :=
  if s.msb then (s <<< 1) ^^^ r.poly else s <<< 1

def feed (s : BitVec n) (b : BitVec m) : BitVec n :=
  r.step^[m] (s ^^^ (b.setWidth n <<< (n - m)))

def run (s : BitVec n) (data : List (BitVec m)) : BitVec n :=
  data.foldl r.feed s

variable {r} {k l : Nat} {s t : BitVec n} {b c : BitVec m} {data error burst : List (BitVec m)}

@[simp] theorem run_nil : r.run s ([] : List (BitVec m)) = s :=
  rfl

theorem run_cons : r.run s (b :: data) = r.run (r.feed s b) data :=
  rfl

theorem run_append : r.run s (data ++ error) = r.run (r.run s data) error :=
  List.foldl_append

-- The register is linear.
theorem xor_swap {a b c d : BitVec n} : (a ^^^ b) ^^^ (c ^^^ d) = (a ^^^ c) ^^^ (b ^^^ d) := by
  ac_rfl

theorem step_xor : r.step (s ^^^ t) = r.step s ^^^ r.step t := by
  unfold step
  rw [BitVec.msb_xor, BitVec.shiftLeft_xor_distrib]
  cases s.msb <;> cases t.msb
  case false.false => rfl
  case true.true =>
    simp only [bne_self_eq_false, Bool.false_eq_true, if_true, if_false]
    rw [xor_swap, BitVec.xor_self, BitVec.xor_zero]
  all_goals
    simp only [Bool.bne_true, Bool.bne_false, Bool.not_false, Bool.false_eq_true, if_true, if_false]
    ac_rfl

theorem steps_xor : r.step^[k] (s ^^^ t) = r.step^[k] s ^^^ r.step^[k] t := by
  induction k generalizing s t
  case zero      => rfl
  case succ k ih => rw [Function.iterate_succ_apply, step_xor, ih]; rfl

theorem feed_xor : r.feed (s ^^^ t) (b ^^^ c) = r.feed s b ^^^ r.feed t c := by
  rw [feed, BitVec.setWidth_xor, BitVec.shiftLeft_xor_distrib, xor_swap, steps_xor]
  rfl

theorem run_xor (h : data.length = error.length) :
    r.run (s ^^^ t) (List.zipWith (· ^^^ ·) data error) = r.run s data ^^^ r.run t error := by
  induction data generalizing error s t
  case nil => rw [List.length_eq_zero_iff.mp h.symm]; rfl
  case cons b data ih =>
    cases error
    case nil => cases h
    case cons c error =>
      rw [List.zipWith_cons_cons, run_cons, feed_xor, ih (Nat.succ.inj h), run_cons, run_cons]

-- No step forgets anything, because the register's polynomial is odd.
theorem step_eq_zero : r.step s = 0#n ↔ s = 0#n := by
  constructor
  case mpr => rintro rfl; simp [step]
  intro h
  unfold step at h
  cases hm : s.msb
  case true =>
    have odd : (s <<< 1 ^^^ r.poly).getLsbD 0 = true := by simpa using r.odd
    simp [hm] at h
    simp [h] at odd
  case false =>
    simp only [hm, Bool.false_eq_true, if_false] at h
    apply BitVec.eq_of_getLsbD_eq
    intro i hi
    by_cases hl : i + 1 < n
    case pos =>
      have := congrArg (·.getLsbD (i + 1)) h
      rw [BitVec.getLsbD_zero]
      simpa [hl, hi] using this
    case neg => simpa [BitVec.msb_eq_getLsbD_last, show n - 1 = i by omega] using hm

theorem steps_eq_zero : r.step^[k] s = 0#n ↔ s = 0#n := by
  induction k generalizing s
  case zero      => rfl
  case succ k ih => rw [Function.iterate_succ_apply, ih, step_eq_zero]

theorem run_zeros : r.run s (.replicate k 0#m) = 0#n ↔ s = 0#n := by
  induction k generalizing s
  case zero => rfl
  case succ k ih =>
    rw [List.replicate_succ, run_cons, ih, feed, steps_eq_zero]
    simp

-- Data that is damaged looks sound if and only if the damage alone does.
theorem run_damaged (h : data.length = error.length) (hs : r.run s data = 0#n) :
    r.run s (List.zipWith (· ^^^ ·) data error) = 0#n ↔ r.run 0#n error = 0#n := by
  have := @run_xor _ _ r s 0#n _ _ h
  rw [BitVec.xor_zero] at this
  rw [this, hs, BitVec.zero_xor]

theorem run_burst :
    r.run 0#n (.replicate k 0#m ++ (burst ++ .replicate l 0#m)) = 0#n ↔ r.run 0#n burst = 0#n := by
  rw [run_append, run_zeros.mpr rfl, run_append, run_zeros]

-- As long as the top of the register is clear, what it holds only moves.
theorem steps_low (h : s.toNat * 2 ^ k < 2 ^ n) : r.step^[k] s = s <<< k := by
  induction k generalizing s
  case zero => simp
  case succ k ih =>
    have hlt : s.toNat * 2 < 2 ^ n := by
      refine Nat.lt_of_le_of_lt (Nat.mul_le_mul_left _ ?_) h
      exact Nat.le_trans (by omega) (Nat.pow_le_pow_right Nat.two_pos (show 1 ≤ k + 1 by omega))
    have hm : s.msb = false := by
      cases n
      case zero => rfl
      case succ n =>
        rw [BitVec.msb_eq_decide, decide_eq_false_iff_not, Nat.add_sub_cancel]
        rw [Nat.pow_succ] at hlt
        omega
    have hn : (s <<< 1).toNat = s.toNat * 2 := by
      rw [BitVec.toNat_shiftLeft, Nat.shiftLeft_eq, Nat.pow_one, Nat.mod_eq_of_lt hlt]
    rw [Function.iterate_succ_apply, step, hm, if_neg (by decide), ih, Nat.add_comm, BitVec.shiftLeft_add]
    rwa [hn, Nat.mul_assoc, Nat.mul_comm 2, ← Nat.pow_succ]

end ShiftRegister

namespace ShiftRegister

variable {m : Nat} {r : ShiftRegister (m + m)} {s : BitVec (m + m)} {a b c : BitVec m}

theorem append_eq_xor : b ++ c = (b.setWidth (m + m) <<< m) ^^^ c.setWidth (m + m) := by
  apply BitVec.eq_of_getLsbD_eq
  intro i hi
  rw [BitVec.getLsbD_append, BitVec.getLsbD_xor, BitVec.getLsbD_shiftLeft, BitVec.getLsbD_setWidth,
    BitVec.getLsbD_setWidth]
  by_cases h : i < m
  case pos => simp [h, hi]
  case neg => simp [h, hi, show i - m < m + m by omega, BitVec.getLsbD_of_ge c i (by omega)]

theorem eq_append_iff : s = b ++ c ↔ (s >>> m).setWidth m = b ∧ s.setWidth m = c := by
  constructor
  case mp =>
    rintro rfl
    constructor <;> apply BitVec.eq_of_getLsbD_eq <;> intro i hi
    all_goals
      simp only [BitVec.getLsbD_setWidth, BitVec.getLsbD_ushiftRight, BitVec.getLsbD_append]
      simp [hi]
  case mpr =>
    rintro ⟨rfl, rfl⟩
    apply BitVec.eq_of_getLsbD_eq
    intro i hi
    rw [BitVec.getLsbD_append]
    by_cases h : i < m
    case pos => simp [h]
    case neg => simp [h, show i - m < m by omega, show m + (i - m) = i by omega]

-- Two bytes fill a register of twice their width.
theorem run_pair : r.run s [b, c] = r.step^[m + m] (s ^^^ (b ++ c)) := by
  have low : r.step^[m] (c.setWidth (m + m)) = c.setWidth (m + m) <<< m := by
    refine steps_low ?_
    rw [BitVec.toNat_setWidth_of_le (by omega), Nat.pow_add]
    exact Nat.mul_lt_mul_of_pos_right c.isLt (Nat.two_pow_pos m)
  rw [run_cons, run_cons, run_nil, feed, feed, Nat.add_sub_cancel, ← low, ← steps_xor,
    Function.iterate_add_apply, append_eq_xor, BitVec.xor_assoc]

theorem run_pair_eq_zero : r.run s [b, c] = 0#(m + m) ↔ s = b ++ c := by
  rw [run_pair, steps_eq_zero, BitVec.xor_eq_zero_iff]

end ShiftRegister
