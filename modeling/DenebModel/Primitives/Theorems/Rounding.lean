import Mathlib.Algebra.Order.Floor.Semifield
import DenebModel.Primitives.Theorems.Decimal

-- The rational numbers that floating point numbers stand for, and how far rounding is off.
namespace BinaryFloat

-- The value of a finite number without its sign.
def magnitude (m : Nat) (e : Int) : ℚ :=
  m * 2 ^ e

def signed (negative : Bool) (v : ℚ) : ℚ :=
  if negative then -v else v

def toRat : BinaryFloat → ℚ
  | nan | inf _ => 0
  | fin s m e   => signed s (magnitude m e)

theorem magnitude_nonneg {m : Nat} {e : Int} : 0 ≤ magnitude m e :=
  mul_nonneg (Nat.cast_nonneg m) (zpow_nonneg zero_le_two e)

theorem magnitude_pos {m : Nat} {e : Int} (h : 0 < m) : 0 < magnitude m e :=
  mul_pos (Nat.cast_pos.mpr h) (zpow_pos zero_lt_two e)

theorem scale_pos {n d : Nat} {e : Int} (hd : 0 < d) : 0 < (scale n d e).2 := by
  unfold scale
  split_ifs
  · positivity
  · exact hd

theorem scale_rat {n d : Nat} {e : Int} :
    ((scale n d e).1 : ℚ) / (scale n d e).2 = n / d * 2 ^ (-e) := by
  by_cases he : 0 ≤ e
  · obtain ⟨k, rfl⟩ := Int.eq_ofNat_of_zero_le he
    simp only [scale, he, if_true, Int.toNat_natCast, zpow_neg, zpow_natCast, Nat.cast_mul,
      Nat.cast_pow, Nat.cast_ofNat]
    rw [← div_div, div_eq_mul_inv]
  · obtain ⟨k, rfl⟩ : ∃ k : Nat, e = -k := ⟨e.natAbs, by omega⟩
    simp only [scale, he, if_false, Int.neg_neg, Int.toNat_natCast, zpow_natCast, Nat.cast_mul,
      Nat.cast_pow, Nat.cast_ofNat]
    rw [mul_div_right_comm]

theorem scale_one_rat {m : Nat} {e : Int} :
    ((scale m 1 (-e)).1 : ℚ) / (scale m 1 (-e)).2 = magnitude m e := by
  rw [scale_rat, Int.neg_neg, Nat.cast_one, div_one, magnitude]

theorem roundQuotient_rat {n d : Nat} (h : 0 < d) :
    |(roundQuotient n d : ℚ) - n / d| ≤ 1 / 2 := by
  have hd : (0 : ℚ) < d := Nat.cast_pos.mpr h
  obtain ⟨hlo, hhi⟩ := @roundQuotient_near n d h
  have hlo' : (2 * n : ℚ) ≤ 2 * (d * roundQuotient n d) + d := by exact_mod_cast hlo
  have hhi' : (2 * (d * roundQuotient n d) : ℚ) ≤ 2 * n + d := by exact_mod_cast hhi
  have hn : (n : ℚ) = n / d * d := (div_mul_cancel₀ _ hd.ne').symm
  rw [abs_le]
  constructor
  · by_contra hc
    nlinarith
  · by_contra hc
    nlinarith

-- In the normal range the relative error of rounding is at most half a unit of the last place.
theorem round_normal {negative s : Bool} {n d m : Nat} {e : Int} (hn : 0 < n) (hd : 0 < d)
    (hlo : (2 : ℚ) ^ (-126 : Int) ≤ n / d) (hround : round single negative n d = .fin s m e) :
    s = negative ∧ 0 < m ∧ |magnitude m e - n / d| ≤ n / d * 2 ^ (-24 : Int) := by
  have hpos : (0 : ℚ) < n / d := div_pos (Nat.cast_pos.mpr hn) (Nat.cast_pos.mpr hd)
  have hlog := floorLog2_eq hn hd
  generalize hk : Int.log 2 ((n : ℚ) / d) = k at hlog
  have hkl : -126 ≤ k := hk ▸ (Int.zpow_le_iff_le_log (by decide) hpos).mp (by exact_mod_cast hlo)
  have hle : (2 : ℚ) ^ k ≤ n / d := hk ▸ Int.zpow_log_le_self (by decide) hpos
  have he : max (floorLog2 n d - ((24 : Nat) - 1)) (-149) = k - 23 := by
    rw [hlog]
    omega
  have hb := @scale_pos n d (k - 23) hd
  have hs := @scale_rat n d (k - 23)
  have hr := @roundQuotient_rat (scale n d (k - 23)).1 _ hb
  rw [hs] at hr
  simp only [round, single, he, if_neg hn.ne'] at hround
  generalize roundQuotient (scale n d (k - 23)).1 (scale n d (k - 23)).2 = q at hr hround
  split_ifs at hround
  injection hround with hsign hm hexp
  subst hm hexp
  have hp : (0 : ℚ) < 2 ^ (k - 23) := zpow_pos zero_lt_two _
  have hcancel : (2 : ℚ) ^ (-(k - 23)) * 2 ^ (k - 23) = 1 := by
    rw [← zpow_add₀ two_ne_zero, neg_add_cancel, zpow_zero]
  generalize hw : (n : ℚ) / d * 2 ^ (-(k - 23)) = w at hr
  have hv : (n : ℚ) / d = w * 2 ^ (k - 23) := by
    rw [← hw, mul_assoc, hcancel, mul_one]
  have hk23 : (2 : ℚ) ^ k = 2 ^ 23 * 2 ^ (k - 23) := by
    rw [← zpow_natCast, ← zpow_add₀ two_ne_zero]
    congr 1
    omega
  rw [hv, hk23] at hle
  have hwl : (2 : ℚ) ^ 23 ≤ w := le_of_mul_le_mul_right hle hp
  obtain ⟨hrl, -⟩ := abs_le.mp hr
  have hmpos : (0 : ℚ) < q := by linarith
  refine ⟨hsign.symm, by exact_mod_cast hmpos, ?_⟩
  have herr : magnitude q (k - 23) - n / d = (q - w) * 2 ^ (k - 23) := by
    rw [magnitude, hv, sub_mul]
  have h24 : (2 : ℚ) ^ (-24 : Int) * 2 ^ 23 = 1 / 2 := by norm_num
  rw [herr, abs_mul, abs_of_pos hp, hv]
  calc |(q : ℚ) - w| * 2 ^ (k - 23)
    _ ≤ 1 / 2 * 2 ^ (k - 23) := mul_le_mul_of_nonneg_right hr hp.le
    _ = 2 ^ (-24 : Int) * 2 ^ 23 * 2 ^ (k - 23) := by rw [h24]
    _ ≤ 2 ^ (-24 : Int) * w * 2 ^ (k - 23) := by gcongr
    _ = w * 2 ^ (k - 23) * 2 ^ (-24 : Int) := by ring

theorem round_finite {negative : Bool} {n d : Nat} (hn : 0 < n) (hd : 0 < d)
    (hlo : (2 : ℚ) ^ (-126 : Int) ≤ n / d) (hhi : (n : ℚ) / d < 2 ^ (127 : Int)) :
    ∃ m e, round single negative n d = .fin negative m e := by
  have hpos : (0 : ℚ) < n / d := div_pos (Nat.cast_pos.mpr hn) (Nat.cast_pos.mpr hd)
  have hlog := floorLog2_eq hn hd
  generalize hk : Int.log 2 ((n : ℚ) / d) = k at hlog
  have hkl : -126 ≤ k := hk ▸ (Int.zpow_le_iff_le_log (by decide) hpos).mp (by exact_mod_cast hlo)
  have hkh : k < 127 := hk ▸ (Int.lt_zpow_iff_log_lt (by decide) hpos).mp (by exact_mod_cast hhi)
  have hlt : (n : ℚ) / d < 2 ^ (k + 1) := hk ▸ Int.lt_zpow_succ_log_self (by decide) _
  have he : max (floorLog2 n d - ((24 : Nat) - 1)) (-149) = k - 23 := by
    rw [hlog]
    omega
  have hs := @scale_rat n d (k - 23)
  have hr := @roundQuotient_rat (scale n d (k - 23)).1 _ (@scale_pos n d (k - 23) hd)
  simp only [round, single, he, if_neg hn.ne']
  rw [hs] at hr
  generalize roundQuotient (scale n d (k - 23)).1 (scale n d (k - 23)).2 = q at hr
  have hp : (0 : ℚ) < 2 ^ (-(k - 23)) := zpow_pos zero_lt_two _
  have hw : (n : ℚ) / d * 2 ^ (-(k - 23)) < 2 ^ 24 := by
    calc (n : ℚ) / d * 2 ^ (-(k - 23))
      _ < 2 ^ (k + 1) * 2 ^ (-(k - 23)) := mul_lt_mul_of_pos_right hlt hp
      _ = 2 ^ (24 : Int) := by
        rw [← zpow_add₀ two_ne_zero]
        congr 1
        omega
      _ = 2 ^ 24 := by norm_num
  obtain ⟨-, hrh⟩ := abs_le.mp hr
  have hq : q ≤ 2 ^ 24 := by
    have : (q : ℚ) < 2 ^ 24 + 1 := by linarith
    exact Nat.lt_succ_iff.mp (by exact_mod_cast this)
  have hqlog : q.log2 < 25 := by
    by_cases hz : q = 0
    · rw [hz]
      decide
    · exact (Nat.log2_lt hz).mpr (Nat.lt_of_le_of_lt hq (by decide))
  rw [if_neg (by omega)]
  exact ⟨_, _, rfl⟩

-- The float that is closest to a number.
def nearest (q : ℚ) : BinaryFloat :=
  round single (q < 0) q.num.natAbs q.den

theorem nearest_div {a b : Nat} (hb : 0 < b) : nearest (a / b) = round single false a b := by
  have hq : ¬ (a : ℚ) / b < 0 := not_lt.mpr (div_nonneg (Nat.cast_nonneg _) (Nat.cast_nonneg _))
  obtain ⟨c, ha, hc⟩ :=
    Rat.exists_eq_mul_div_num_and_eq_mul_div_den a (Int.natCast_ne_zero.mpr hb.ne')
  rw [Int.cast_natCast, Int.cast_natCast] at ha hc
  have hden : (0 : Int) < ((a : ℚ) / b).den := Int.natCast_pos.mpr (Rat.den_pos _)
  have hcpos : 0 < c := by
    have : 0 < c * ((a : ℚ) / b).den := hc ▸ Int.natCast_pos.mpr hb
    exact pos_of_mul_pos_left this hden.le
  obtain ⟨k, rfl⟩ := Int.eq_ofNat_of_zero_le hcpos.le
  have hnum : 0 ≤ ((a : ℚ) / b).num := Rat.num_nonneg.mpr (not_lt.mp hq)
  have hak : a = ((a : ℚ) / b).num.natAbs * k := by
    zify
    rw [abs_of_nonneg hnum, mul_comm]
    exact ha
  have hbk : b = ((a : ℚ) / b).den * k := by
    zify
    rw [mul_comm]
    exact hc
  have hw : 0 < ((a : ℚ) / b).den := Rat.den_pos _
  rw [nearest, decide_eq_false hq]
  generalize ((a : ℚ) / b).num.natAbs = u at hak
  generalize ((a : ℚ) / b).den = w at hbk hw
  rw [hak, hbk]
  exact (round_mul hw (by omega)).symm

theorem aligned_rat {s : Bool} {m : Nat} {e b : Int} (h : b ≤ e) :
    (aligned s m e b : ℚ) * 2 ^ b = toRat (.fin s m e) := by
  have hp : (m : ℚ) * 2 ^ (e - b).toNat * 2 ^ b = magnitude m e := by
    rw [mul_assoc, ← zpow_natCast, Int.toNat_of_nonneg (by omega), ← zpow_add₀ two_ne_zero,
      Int.sub_add_cancel, magnitude]
  cases s
  · simp [aligned, toRat, signed, hp]
  · simp [aligned, toRat, signed, hp]

theorem lt_iff {s₁ s₂ : Bool} {m₁ m₂ : Nat} {e₁ e₂ : Int} :
    lt (.fin s₁ m₁ e₁) (.fin s₂ m₂ e₂) ↔ toRat (.fin s₁ m₁ e₁) < toRat (.fin s₂ m₂ e₂) := by
  rw [← aligned_rat (Int.min_le_left e₁ e₂), ← aligned_rat (Int.min_le_right e₁ e₂),
    mul_lt_mul_iff_left₀ (zpow_pos zero_lt_two _)]
  simp [lt]

-- The search for a negative exponent.
theorem negative_eq {n d : Nat} (hn : 0 < n) (hd : 0 < d) {fuel k : Nat} {x : Int}
    (hk : n * 10 ^ k < d * 10) (hx : Int.log 10 ((n : ℚ) / d) = x) (hfuel : -x < fuel + k) :
    floorLog10.negative n d fuel k = x := by
  have hd' : (0 : ℚ) < d := Nat.cast_pos.mpr hd
  have hpos : (0 : ℚ) < n / d := div_pos (Nat.cast_pos.mpr hn) hd'
  -- The logarithm is below the exponents that were already tried.
  have hlt : x ≤ -k := by
    have hlog : Int.log 10 ((n : ℚ) / d) < 1 - k := by
      refine (Int.lt_zpow_iff_log_lt (by decide) hpos).mp ?_
      rw [Nat.cast_ofNat, zpow_sub₀ (by norm_num), zpow_one, zpow_natCast,
        div_lt_div_iff₀ hd' (by positivity)]
      rw [mul_comm (10 : ℚ)]
      exact_mod_cast hk
    omega
  induction fuel generalizing k
  case zero =>
    rw [floorLog10.negative]
    omega
  case succ fuel hi =>
    have hle : d ≤ n * 10 ^ k ↔ -(k : Int) ≤ x := by
      rw [← hx, ← Int.zpow_le_iff_le_log (by decide) hpos, Nat.cast_ofNat, zpow_neg, zpow_natCast,
        le_div_iff₀ hd', inv_mul_le_iff₀ (by positivity), mul_comm]
      exact_mod_cast Iff.rfl
    rw [floorLog10.negative]
    split_ifs with h
    · have := hle.mp h
      omega
    · have hk' : n * 10 ^ (k + 1) < d * 10 := by
        rw [Nat.pow_succ, ← Nat.mul_assoc]
        omega
      have hx' : x < -(k : Int) := Int.not_le.mp (hle.not.mp h)
      exact hi hk' (by push_cast at hfuel ⊢; omega) (by push_cast; omega)

-- `floorLog10` finds the decimal logarithm of every number that is not too small for `double`.
theorem floorLog10_eq {n d : Nat} (hn : 0 < n) (hd : 0 < d)
    (hlo : (10 : ℚ) ^ (-330 : Int) ≤ n / d) : floorLog10 n d = Int.log 10 ((n : ℚ) / d) := by
  have hd' : (0 : ℚ) < d := Nat.cast_pos.mpr hd
  have hpos : (0 : ℚ) < n / d := div_pos (Nat.cast_pos.mpr hn) hd'
  rw [floorLog10]
  split_ifs with h
  · have hone : (1 : ℚ) ≤ n / d := by
      rw [le_div_iff₀ hd', one_mul]
      exact_mod_cast h
    have hq : 0 < n / d := Nat.div_pos h hd
    rw [Int.log_of_one_le_right _ hone, Nat.floor_div_eq_div]
    have hlen := fun k hk => @Nat.length_toDigits_le_iff 10 (n / d) k (by decide) hk
    have hpos : 0 < (Nat.toDigits 10 (n / d)).length := Nat.length_toDigits_pos
    have hlog : (Nat.toDigits 10 (n / d)).length = Nat.log 10 (n / d) + 1 := by
      refine Nat.le_antisymm ?_ ?_
      · exact (hlen _ (Nat.succ_pos _)).mpr (Nat.lt_pow_succ_log_self (by decide) _)
      · refine Nat.succ_le_of_lt ((Nat.log_lt_iff_lt_pow (by decide) hq.ne').mpr ?_)
        exact (hlen _ hpos).mp (Nat.le_refl _)
    omega
  · have hlog : -330 ≤ Int.log 10 ((n : ℚ) / d) :=
      (Int.zpow_le_iff_le_log (by decide) hpos).mp (by exact_mod_cast hlo)
    exact negative_eq hn hd (by omega) rfl (by omega)

end BinaryFloat
