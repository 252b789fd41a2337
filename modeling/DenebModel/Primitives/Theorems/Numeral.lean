import Mathlib.Data.List.TakeWhile
import DenebModel.Primitives.Theorems.Rounding

-- The numbers that printed text denotes.
namespace BinaryFloat

open CString Scan

-- The number that a text denotes, if all of the text is a decimal numeral.
def numeral (s : CString) : Option ℚ := do
  let (negative, s) := sign s
  let ((n, k), s) ← mantissa 10 (fun c => if isDigit c then some (digitValue c) else none) s
  let (e, s) ← exponent 101 s
  let (a, b) := power n 10 (e - k)
  if s.isEmpty then some (signed negative (a / b)) else none

theorem power_rat {n : Nat} {e : Int} :
    ((power n 10 e).1 : ℚ) / (power n 10 e).2 = n * 10 ^ e := by
  by_cases he : 0 ≤ e
  · obtain ⟨k, rfl⟩ := Int.eq_ofNat_of_zero_le he
    simp only [power, he, if_true, Int.toNat_natCast, zpow_natCast, Nat.cast_mul, Nat.cast_pow,
      Nat.cast_ofNat, Nat.cast_one, div_one]
  · obtain ⟨k, rfl⟩ : ∃ k : Nat, e = -k := ⟨e.natAbs, by omega⟩
    simp only [power, he, if_false, Int.neg_neg, Int.toNat_natCast, zpow_neg, zpow_natCast,
      Nat.cast_pow, Nat.cast_ofNat, div_eq_mul_inv]

theorem decimal_append {s t : CString} :
    decimal (s ++ t) = t.foldl (fun n c => 10 * n + digitValue c) (decimal s) := by
  rw [decimal, List.foldl_append, ← decimal]

theorem decimal_zeros {s : CString} {k : Nat} :
    decimal (s ++ List.replicate k 48) = decimal s * 10 ^ k := by
  induction k
  case zero => simp
  case succ k hi =>
    rw [List.replicate_succ', ← List.append_assoc, decimal_snoc, hi, Nat.pow_succ]
    have : digitValue 48 = 0 := rfl
    rw [this, Nat.add_zero, Nat.mul_comm, Nat.mul_assoc]

-- Leading zeros count for nothing.
theorem decimal_padded {s : CString} {k : Nat} : decimal (List.replicate k 48 ++ s) = decimal s := by
  induction k
  case zero => rfl
  case succ k hi =>
    rw [List.replicate_succ, List.cons_append, decimal, List.foldl_cons]
    exact hi

theorem stripZeros_point {f : CString} :
    ∃ front k, f = front ++ List.replicate k 48 ∧
      stripZeros (46 :: f) = if front = [] then [] else 46 :: front := by
  have hsplit := @List.takeWhile_append_dropWhile _ (· == (48 : UInt8)) f.reverse
  have hzeros : f.reverse.takeWhile (· == 48) =
      List.replicate (f.reverse.takeWhile (· == 48)).length 48 :=
    List.eq_replicate_of_mem fun c hc => by simpa using List.mem_takeWhile_imp hc
  refine ⟨(f.reverse.dropWhile (· == 48)).reverse, (f.reverse.takeWhile (· == 48)).length, ?_, ?_⟩
  · rw [← List.reverse_replicate, ← hzeros, ← List.reverse_append, hsplit, List.reverse_reverse]
  · have hdrop : (46 :: f).reverse.dropWhile (· == 48) =
        f.reverse.dropWhile (· == 48) ++ [46] := by
      rw [List.reverse_cons, List.dropWhile_append]
      split_ifs with h
      · rw [List.isEmpty_iff.mp h]
        rfl
      · rfl
    simp only [stripZeros, hdrop, List.reverse_append, List.reverse_singleton,
      List.singleton_append, List.cons.injEq, true_and]

section

variable {w f t : CString}

-- The mantissa of a number whose fraction has lost its trailing zeros.
theorem mantissa_strip (hw : ∀ c ∈ w, isDigit c) (hf : ∀ c ∈ f, isDigit c) (hne : w ≠ [])
    (ht : ∀ c ∈ t.head?, isDigit c = false ∧ c ≠ 46) :
    ∃ n k, mantissa 10 (fun c => if isDigit c then some (digitValue c) else none)
        (w ++ stripZeros (46 :: f) ++ t) = some ((n, k), t) ∧
      (n : ℚ) * 10 ^ (-(k : Int)) = decimal (w ++ f) * 10 ^ (-(f.length : Int)) := by
  have htd : ∀ c ∈ t.head?, isDigit c = false := fun c hc => (ht c hc).left
  have htake : t.takeWhile isDigit = [] := by
    cases t
    case nil => rfl
    case cons c t => simp [htd c rfl]
  have hdrop : t.dropWhile isDigit = t := by
    cases t
    case nil => rfl
    case cons c t => simp [htd c rfl]
  have hpoint : isDigit 46 = false := by decide
  obtain ⟨front, k, rfl, hstrip⟩ := @stripZeros_point f
  have hvalue : (decimal (w ++ front) : ℚ) * 10 ^ (-(front.length : Int)) =
      decimal (w ++ (front ++ List.replicate k 48)) *
        10 ^ (-((front ++ List.replicate k 48).length : Int)) := by
    rw [← List.append_assoc, decimal_zeros, List.length_append, List.length_replicate]
    push_cast
    rw [neg_add, zpow_add₀ (by norm_num), mul_assoc, mul_left_comm (10 ^ k : ℚ)]
    rw [← zpow_natCast, ← zpow_add₀ (by norm_num), add_neg_cancel, zpow_zero, mul_one]
  rw [hstrip]
  split_ifs with h
  · subst h
    refine ⟨decimal w, 0, ?_, by simpa using hvalue⟩
    have hmatch : ∀ c s, t = c :: s → c ≠ 46 := by
      rintro c s rfl
      exact (ht c rfl).right
    simp only [mantissa, isSome_digit, List.append_nil, List.takeWhile_append_of_pos hw,
      List.dropWhile_append_of_pos hw, htake, hdrop]
    split
    · exact absurd rfl (hmatch _ _ rfl)
    · rw [if_neg (by simpa using hne), foldl_digits hw]
      rfl
  · have hfront : ∀ c ∈ front, isDigit c := fun c hc => hf c (List.mem_append_left _ hc)
    refine ⟨decimal (w ++ front), front.length, ?_, hvalue⟩
    have htake' : (w ++ 46 :: front ++ t).takeWhile isDigit = w := by
      rw [List.append_assoc, List.takeWhile_append_of_pos hw]
      simp [hpoint]
    have hdrop' : (w ++ 46 :: front ++ t).dropWhile isDigit = 46 :: (front ++ t) := by
      rw [List.append_assoc, List.dropWhile_append_of_pos hw]
      simp [hpoint]
    simp only [mantissa, isSome_digit, htake', hdrop', List.takeWhile_append_of_pos hfront,
      List.dropWhile_append_of_pos hfront, htake, hdrop, List.append_nil]
    rw [if_neg (by simp [hne]), foldl_digits hw, foldl_digits hfront, decimal_append]
    rfl

-- The exponent as it is printed, if at all.
def exponentText : Option Int → CString
  | none   => []
  | some x => [101, if x < 0 then 45 else 43] ++ padLeft 2 (digits x.natAbs)

theorem exponentText_head {x : Option Int} :
    ∀ c ∈ (exponentText x).head?, isDigit c = false ∧ c ≠ 46 := by
  rcases x with _ | x
  · rintro c ⟨⟩
  · intro c hc
    rw [exponentText, List.cons_append, List.head?_cons, Option.mem_some_iff] at hc
    subst hc
    decide

theorem exponent_text {x : Option Int} :
    exponent 101 (exponentText x) = some (x.getD 0, []) := by
  rcases x with _ | x
  · rfl
  · have hds : ∀ c ∈ padLeft 2 (digits x.natAbs), isDigit c := by
      intro c hc
      rcases List.mem_append.mp hc with hc | hc
      · rw [(List.mem_replicate.mp hc).right]
        rfl
      · exact isDigit_of_mem_digits c hc
    have hne : padLeft 2 (digits x.natAbs) ≠ [] := by simp [padLeft, digits_ne_nil]
    have htake : (padLeft 2 (digits x.natAbs)).takeWhile isDigit = padLeft 2 (digits x.natAbs) := by
      rw [← List.append_nil (padLeft _ _), List.takeWhile_append_of_pos hds]
      simp
    have hdrop : (padLeft 2 (digits x.natAbs)).dropWhile isDigit = [] := by
      rw [← List.append_nil (padLeft _ _), List.dropWhile_append_of_pos hds]
      rfl
    have hvalue : decimal (padLeft 2 (digits x.natAbs)) = x.natAbs := by
      rw [padLeft, decimal_padded, decimal_digits]
    have he : toLower 101 = 101 := by decide
    rw [exponentText, List.cons_append, List.cons_append, List.nil_append, exponent, if_pos he]
    split_ifs with hx
    · simp only [sign, htake, hdrop, hvalue, List.isEmpty_eq_false_iff.mpr hne, Option.getD_some]
      simp only [Bool.false_eq_true, if_false, if_true]
      rw [Int.ofNat_natAbs_of_nonpos (by omega), Int.neg_neg]
    · simp only [sign, htake, hdrop, hvalue, List.isEmpty_eq_false_iff.mpr hne, Option.getD_some]
      simp only [Bool.false_eq_true, if_false]
      rw [Int.natAbs_of_nonneg (by omega)]

theorem sign_digits {negative : Bool} (h : ∀ c ∈ w, isDigit c) (hne : w ≠ []) :
    sign (formatG.sign negative ++ (w ++ t)) = (negative, w ++ t) := by
  cases negative
  case true => rfl
  case false =>
    obtain ⟨c, w, rfl⟩ := List.exists_cons_of_ne_nil hne
    have hc := h c (.head _)
    have hminus : c ≠ 45 := fun he => absurd (he ▸ hc) (by decide)
    have hplus : c ≠ 43 := fun he => absurd (he ▸ hc) (by decide)
    simp [formatG.sign, sign, hminus, hplus]

-- The number that a fraction without trailing zeros denotes.
theorem numeral_strip {negative : Bool} {x : Option Int} (hw : ∀ c ∈ w, isDigit c)
    (hf : ∀ c ∈ f, isDigit c) (hne : w ≠ []) :
    numeral (formatG.sign negative ++ (w ++ stripZeros (46 :: f) ++ exponentText x)) =
      some (signed negative (decimal (w ++ f) * 10 ^ (x.getD 0 - f.length))) := by
  obtain ⟨n, k, hm, hvalue⟩ := mantissa_strip hw hf hne (@exponentText_head x)
  have hsign := @sign_digits w (stripZeros (46 :: f) ++ exponentText x) negative hw hne
  rw [← List.append_assoc w] at hsign
  have hrat : (n : ℚ) * 10 ^ (x.getD 0 - k) = decimal (w ++ f) * 10 ^ (x.getD 0 - f.length) := by
    have h10 : (10 : ℚ) ≠ 0 := by norm_num
    rw [Int.sub_eq_add_neg, Int.sub_eq_add_neg, zpow_add₀ h10, zpow_add₀ h10, mul_left_comm, hvalue,
      mul_left_comm]
  simp only [numeral, hsign, hm, exponent_text, Option.bind_eq_bind, Option.bind_some, power_rat,
    hrat, List.isEmpty_nil, if_true]

end

-- The significant digits of a fraction and the exponent of the first of them.
def significant (p n d : Nat) : Nat × Int :=
  let x := floorLog10 n d
  let shift := (p : Int) - 1 - x
  let ds := if 0 ≤ shift then roundQuotient (n * 10 ^ shift.toNat) d
            else roundQuotient n (d * 10 ^ (-shift).toNat)
  if ds = 10 ^ p then (10 ^ (p - 1), x + 1) else (ds, x)

-- How significant digits are laid out.
def layout (p : Nat) (ds : Nat) (x : Int) : CString :=
  if -4 ≤ x ∧ x < p then
    if 0 ≤ x then
      (digits ds).take (x.toNat + 1) ++ stripZeros (46 :: (digits ds).drop (x.toNat + 1))
    else
      [48] ++ stripZeros (46 :: (List.replicate ((-x).toNat - 1) 48 ++ digits ds))
  else
    (digits ds).take 1 ++ stripZeros (46 :: (digits ds).drop 1) ++ exponentText (some x)

theorem formatG_eq {p m : Nat} {s : Bool} {e : Int} (h : 0 < m) :
    formatG p (.fin s m e) = formatG.sign s ++
      layout p (significant p (scale m 1 (-e)).1 (scale m 1 (-e)).2).1
        (significant p (scale m 1 (-e)).1 (scale m 1 (-e)).2).2 := by
  obtain ⟨m, rfl⟩ := Nat.exists_eq_succ_of_ne_zero h.ne'
  simp only [formatG, significant, layout, exponentText]
  split_ifs <;> simp only [List.append_assoc]

theorem length_digits {p ds : Nat} (hp : 0 < p) (hlo : 10 ^ (p - 1) ≤ ds) (hhi : ds < 10 ^ p) :
    (digits ds).length = p := by
  have hlen := fun k hk => @Nat.length_toDigits_le_iff 10 ds k (by decide) hk
  rw [digits, List.length_map]
  refine Nat.le_antisymm ((hlen p hp).mpr hhi) ?_
  by_cases h1 : p = 1
  · rw [h1]
    exact Nat.length_toDigits_pos
  · have := mt (hlen (p - 1) (by omega)).mp (Nat.not_lt.mpr hlo)
    omega

-- Laid out digits denote what they stand for.
theorem numeral_layout {negative : Bool} {p ds : Nat} {x : Int} (hp : 0 < p)
    (hlo : 10 ^ (p - 1) ≤ ds) (hhi : ds < 10 ^ p) :
    numeral (formatG.sign negative ++ layout p ds x) =
      some (signed negative (ds * 10 ^ (x + 1 - p))) := by
  have hlen := length_digits hp hlo hhi
  have htake : ∀ k, ∀ c ∈ (digits ds).take k, isDigit c := fun k c hc =>
    isDigit_of_mem_digits c (List.mem_of_mem_take hc)
  have hdrop : ∀ k, ∀ c ∈ (digits ds).drop k, isDigit c := fun k c hc =>
    isDigit_of_mem_digits c (List.mem_of_mem_drop hc)
  have hne : ∀ k, (digits ds).take (k + 1) ≠ [] := by simp [digits_ne_nil]
  rw [layout]
  split_ifs with h hx
  · have hnum := @numeral_strip _ _ negative none (htake (x.toNat + 1)) (hdrop (x.toNat + 1)) (hne _)
    rw [exponentText, List.append_nil, List.take_append_drop, decimal_digits, List.length_drop,
      hlen] at hnum
    rw [hnum]
    congr 4
    rw [Option.getD_none]
    omega
  · have hzeros : ∀ c ∈ List.replicate ((-x).toNat - 1) 48 ++ digits ds, isDigit c := by
      intro c hc
      rcases List.mem_append.mp hc with hc | hc
      · rw [(List.mem_replicate.mp hc).right]
        rfl
      · exact isDigit_of_mem_digits c hc
    have hnum := @numeral_strip [48] _ negative none (by decide) hzeros (by decide)
    have hdec : decimal ([48] ++ (List.replicate ((-x).toNat - 1) 48 ++ digits ds)) = ds := by
      rw [← List.append_assoc]
      exact decimal_padded.trans decimal_digits
    rw [exponentText, List.append_nil, hdec, List.length_append, List.length_replicate,
      hlen] at hnum
    rw [hnum]
    congr 4
    rw [Option.getD_none]
    omega
  · have hnum := @numeral_strip _ _ negative (some x) (htake 1) (hdrop 1) (hne 0)
    rw [List.take_append_drop, decimal_digits, List.length_drop, hlen] at hnum
    rw [hnum]
    congr 4
    rw [Option.getD_some]
    omega

-- The digits are the value in units of the last of them, rounded.
theorem significant_near {p n d : Nat} (hn : 0 < n) (hd : 0 < d)
    (hlo : (10 : ℚ) ^ (-330 : Int) ≤ n / d) :
    ∃ q : Nat, |(q : ℚ) - n / d * 10 ^ ((p : Int) - 1 - Int.log 10 ((n : ℚ) / d))| ≤ 1 / 2 ∧
      significant p n d = if q = 10 ^ p then (10 ^ (p - 1), Int.log 10 ((n : ℚ) / d) + 1)
        else (q, Int.log 10 ((n : ℚ) / d)) := by
  rw [significant, floorLog10_eq hn hd hlo]
  generalize Int.log 10 ((n : ℚ) / d) = x
  by_cases hs : 0 ≤ (p : Int) - 1 - x
  · obtain ⟨k, hk⟩ := Int.eq_ofNat_of_zero_le hs
    refine ⟨roundQuotient (n * 10 ^ k) d, ?_, ?_⟩
    · have hr := @roundQuotient_rat (n * 10 ^ k) d hd
      rw [hk, zpow_natCast, div_mul_eq_mul_div]
      push_cast at hr
      exact hr
    · simp only [hk, Int.toNat_natCast, Int.natCast_nonneg, if_true]
  · obtain ⟨k, hk⟩ : ∃ k : Nat, (p : Int) - 1 - x = -k := ⟨((p : Int) - 1 - x).natAbs, by omega⟩
    refine ⟨roundQuotient n (d * 10 ^ k), ?_, ?_⟩
    · have hr := @roundQuotient_rat n (d * 10 ^ k) (by positivity)
      rw [hk, zpow_neg, zpow_natCast, ← div_eq_mul_inv, div_div]
      push_cast at hr
      exact hr
    · rw [hk] at hs
      simp only [hk, hs, if_false, Int.neg_neg, Int.toNat_natCast]

theorem significant_bounds {p n d : Nat} (hp : 0 < p) (hn : 0 < n) (hd : 0 < d)
    (hlo : (10 : ℚ) ^ (-330 : Int) ≤ n / d) :
    10 ^ (p - 1) ≤ (significant p n d).1 ∧ (significant p n d).1 < 10 ^ p := by
  have hpos : (0 : ℚ) < n / d := div_pos (Nat.cast_pos.mpr hn) (Nat.cast_pos.mpr hd)
  obtain ⟨r, rfl⟩ := Nat.exists_eq_succ_of_ne_zero hp.ne'
  obtain ⟨q, hq, heq⟩ := @significant_near (r + 1) n d hn hd hlo
  have hle := Int.zpow_log_le_self (b := 10) (by decide) hpos
  have hlt := Int.lt_zpow_succ_log_self (b := 10) (by decide) ((n : ℚ) / d)
  generalize Int.log 10 ((n : ℚ) / d) = x at hq heq hle hlt
  generalize hw : (n : ℚ) / d * 10 ^ (((r + 1 : Nat) : Int) - 1 - x) = w at hq
  have hp10 : (0 : ℚ) < 10 ^ (((r + 1 : Nat) : Int) - 1 - x) := zpow_pos (by norm_num) _
  have hwl : ((10 ^ r : Nat) : ℚ) ≤ w := by
    rw [← hw]
    calc ((10 ^ r : Nat) : ℚ)
      _ = 10 ^ x * 10 ^ (((r + 1 : Nat) : Int) - 1 - x) := by
        rw [← zpow_add₀ (by norm_num), Nat.cast_pow, Nat.cast_ofNat, ← zpow_natCast]
        congr 1
        push_cast
        ring
      _ ≤ _ := mul_le_mul_of_nonneg_right (by exact_mod_cast hle) hp10.le
  have hwh : w < ((10 * 10 ^ r : Nat) : ℚ) := by
    rw [← hw]
    calc (n : ℚ) / d * 10 ^ (((r + 1 : Nat) : Int) - 1 - x)
      _ < 10 ^ (x + 1) * 10 ^ (((r + 1 : Nat) : Int) - 1 - x) :=
        mul_lt_mul_of_pos_right (by exact_mod_cast hlt) hp10
      _ = ((10 * 10 ^ r : Nat) : ℚ) := by
        rw [← zpow_add₀ (by norm_num), Nat.mul_comm, ← Nat.pow_succ, Nat.cast_pow, Nat.cast_ofNat,
          ← zpow_natCast]
        congr 1
        push_cast
        ring
  obtain ⟨hql, hqh⟩ := abs_le.mp hq
  have hpow : 10 ^ (r + 1) = 10 * 10 ^ r := by rw [Nat.pow_succ, Nat.mul_comm]
  have hr : 0 < 10 ^ r := Nat.pow_pos (by decide)
  have hlow : 10 ^ r ≤ q := by
    have : ((10 ^ r : Nat) : ℚ) < q + 1 := by linarith
    exact Nat.lt_succ_iff.mp (by exact_mod_cast this)
  have hhigh : q ≤ 10 * 10 ^ r := by
    have : (q : ℚ) < (10 * 10 ^ r : Nat) + 1 := by linarith
    exact Nat.lt_succ_iff.mp (by exact_mod_cast this)
  simp only [Nat.succ_eq_add_one, Nat.add_sub_cancel, hpow] at heq ⊢
  rw [heq]
  split_ifs with h <;> omega

-- A decimal of few digits is recovered from every fraction that is close enough to it.
theorem significant_of_near {p n d M : Nat} {X : Int} (hp : 0 < p) (hp' : p ≤ 6) (hn : 0 < n)
    (hd : 0 < d) (hlo : (10 : ℚ) ^ (-330 : Int) ≤ n / d) (hM : 10 ^ (p - 1) ≤ M) (hM' : M < 10 ^ p)
    (hnear : |(n : ℚ) / d - M * 10 ^ (X + 1 - p)| ≤ M * 10 ^ (X + 1 - p) * 2 ^ (-24 : Int)) :
    significant p n d = (M, X) := by
  have hpos : (0 : ℚ) < n / d := div_pos (Nat.cast_pos.mpr hn) (Nat.cast_pos.mpr hd)
  obtain ⟨r, rfl⟩ := Nat.exists_eq_succ_of_ne_zero hp.ne'
  obtain ⟨q, hq, heq⟩ := @significant_near (r + 1) n d hn hd hlo
  have hpow : 10 ^ (r + 1) = 10 * 10 ^ r := by rw [Nat.pow_succ, Nat.mul_comm]
  have hr : 1 ≤ 10 ^ r := Nat.one_le_pow r 10 (by decide)
  have hr' : 10 ^ r ≤ 10 ^ 5 := Nat.pow_le_pow_right (by decide) (by omega)
  simp only [Nat.succ_eq_add_one, Nat.add_sub_cancel, hpow] at hM hM' heq
  generalize hE : X + 1 - ((r + 1 : Nat) : Int) = E at hnear
  have hE10 : (0 : ℚ) < 10 ^ E := zpow_pos (by norm_num) _
  -- The value in units of the last digit.
  generalize hu : (n : ℚ) / d * 10 ^ (-E) = u
  have hv : (n : ℚ) / d = u * 10 ^ E := by
    rw [← hu, mul_assoc, ← zpow_add₀ (by norm_num), neg_add_cancel, zpow_zero, mul_one]
  have hu24 : |u - M| ≤ M * 2 ^ (-24 : Int) := by
    rw [hv, ← sub_mul, abs_mul, abs_of_pos hE10, mul_right_comm] at hnear
    exact le_of_mul_le_mul_right hnear hE10
  have h24 : (2 : ℚ) ^ (-24 : Int) = 1 / 16777216 := by norm_num
  have hrq : (1 : ℚ) ≤ (10 ^ r : Nat) := by exact_mod_cast hr
  have hrq' : ((10 ^ r : Nat) : ℚ) ≤ 100000 := by exact_mod_cast hr'
  have hMq : (M : ℚ) + 1 ≤ 10 * (10 ^ r : Nat) := by exact_mod_cast hM'
  rw [h24] at hu24
  obtain ⟨hul, huh⟩ := abs_le.mp hu24
  have hunit : ∀ e : Int, ((10 ^ r : Nat) : ℚ) * 10 ^ e = 10 ^ (r + e) := fun e => by
    rw [zpow_add₀ (by norm_num), zpow_natCast, Nat.cast_pow, Nat.cast_ofNat]
  by_cases hcase : ((10 ^ r : Nat) : ℚ) ≤ u
  · have hlog : Int.log 10 ((n : ℚ) / d) = X := by
      refine le_antisymm (Int.lt_add_one_iff.mp ?_) ?_
      · refine (Int.lt_zpow_iff_log_lt (by decide) hpos).mp ?_
        have hX : X + 1 = r + (E + 1) := by omega
        rw [hX, Nat.cast_ofNat, ← hunit, hv, zpow_add₀ (by norm_num), zpow_one]
        nlinarith
      · refine (Int.zpow_le_iff_le_log (by decide) hpos).mp ?_
        have hX : X = r + E := by omega
        rw [hX, Nat.cast_ofNat, ← hunit, hv]
        exact mul_le_mul_of_nonneg_right hcase hE10.le
    have hshift : ((r + 1 : Nat) : Int) - 1 - X = -E := by omega
    rw [hlog, hshift, hu] at hq
    obtain ⟨hql, hqh⟩ := abs_le.mp hq
    have hqM : q = M := by
      have h1 : (q : ℚ) < M + 1 := by linarith
      have h2 : (M : ℚ) < q + 1 := by linarith
      have h1' : q < M + 1 := by exact_mod_cast h1
      have h2' : M < q + 1 := by exact_mod_cast h2
      omega
    rw [heq, hqM, hlog, if_neg (by omega)]
  · have hMr : M = 10 ^ r := by
      have h1 : (M : ℚ) < (10 ^ r : Nat) + 1 := by linarith
      have h1' : M < 10 ^ r + 1 := by exact_mod_cast h1
      omega
    subst hMr
    have hlog : Int.log 10 ((n : ℚ) / d) = X - 1 := by
      refine le_antisymm (Int.lt_add_one_iff.mp ?_) ?_
      · refine (Int.lt_zpow_iff_log_lt (by decide) hpos).mp ?_
        have hX : X - 1 + 1 = r + E := by omega
        rw [hX, Nat.cast_ofNat, ← hunit, hv]
        exact mul_lt_mul_of_pos_right (lt_of_not_ge hcase) hE10
      · refine (Int.zpow_le_iff_le_log (by decide) hpos).mp ?_
        have hX : X - 1 = r + (E - 1) := by omega
        rw [hX, Nat.cast_ofNat, ← hunit, hv, zpow_sub₀ (by norm_num), zpow_one]
        have : ((10 ^ r : Nat) : ℚ) * (10 ^ E / 10) = (10 ^ r : Nat) / 10 * 10 ^ E := by ring
        rw [this]
        exact mul_le_mul_of_nonneg_right (by linarith) hE10.le
    have hshift : ((r + 1 : Nat) : Int) - 1 - (X - 1) = -E + 1 := by omega
    rw [hlog, hshift, zpow_add₀ (by norm_num), ← mul_assoc, hu, zpow_one] at hq
    obtain ⟨hql, hqh⟩ := abs_le.mp hq
    have hq10 : q = 10 * 10 ^ r := by
      have h1 : (q : ℚ) < (10 * 10 ^ r : Nat) + 1 := by
        push_cast at hul huh hrq' ⊢
        linarith
      have h2 : ((10 * 10 ^ r : Nat) : ℚ) < q + 1 := by
        push_cast at hul huh hrq' ⊢
        linarith
      have h1' : q < 10 * 10 ^ r + 1 := by exact_mod_cast h1
      have h2' : 10 * 10 ^ r < q + 1 := by exact_mod_cast h2
      omega
    rw [heq, if_pos hq10, hlog, Int.sub_add_cancel]

-- The value has at most `p` significant digits.
def Short (p : Nat) (v : ℚ) : Prop :=
  ∃ m < 10 ^ p, ∃ j : Int, v = (m : Nat) * 10 ^ j

theorem Short.zero {p : Nat} : Short p 0 :=
  ⟨0, Nat.pow_pos (by decide), 0, by simp⟩

theorem Short.normalize {p : Nat} {v : ℚ} (hp : 0 < p) (hv : v ≠ 0) (h : Short p v) :
    ∃ M X, 10 ^ (p - 1) ≤ M ∧ M < 10 ^ p ∧ v = (M : Nat) * 10 ^ ((X : Int) + 1 - p) := by
  obtain ⟨m, hm, j, rfl⟩ := h
  have hm0 : m ≠ 0 := fun h => hv (by rw [h, Nat.cast_zero, zero_mul])
  have hlog : Nat.log 10 m < p := (Nat.log_lt_iff_lt_pow (by decide) hm0).mpr hm
  have hle := Nat.pow_log_le_self 10 hm0
  have hlt := Nat.lt_pow_succ_log_self (b := 10) (by decide) m
  generalize Nat.log 10 m = l at hlog hle hlt
  have hpow : 0 < 10 ^ (p - 1 - l) := Nat.pow_pos (by decide)
  refine ⟨m * 10 ^ (p - 1 - l), j - (p - 1 - l : Nat) + p - 1, ?_, ?_, ?_⟩
  · calc 10 ^ (p - 1)
      _ = 10 ^ l * 10 ^ (p - 1 - l) := by
        rw [← Nat.pow_add]
        congr 1
        omega
      _ ≤ m * 10 ^ (p - 1 - l) := Nat.mul_le_mul_right _ hle
  · calc m * 10 ^ (p - 1 - l)
      _ < 10 ^ (l + 1) * 10 ^ (p - 1 - l) := Nat.mul_lt_mul_of_pos_right hlt hpow
      _ = 10 ^ p := by
        rw [← Nat.pow_add]
        congr 1
        omega
  · have hj : j - (p - 1 - l : Nat) + p - 1 + 1 - p = j - (p - 1 - l : Nat) := by omega
    rw [hj, Nat.cast_mul, Nat.cast_pow, Nat.cast_ofNat, mul_assoc, ← zpow_natCast,
      ← zpow_add₀ (by norm_num), add_sub_cancel]

theorem signed_injective {s : Bool} {v w : ℚ} : signed s v = signed s w ↔ v = w := by
  cases s <;> simp [signed]

-- A number that was rounded to `float` is printed exactly if it is short enough.
theorem numeral_formatG_iff {p n d m : Nat} {negative s : Bool} {e : Int} (hp : 0 < p) (hp' : p ≤ 6)
    (hn : 0 < n) (hd : 0 < d) (hlo : (2 : ℚ) ^ (-126 : Int) ≤ n / d)
    (hround : round single negative n d = .fin s m e) :
    numeral (formatG p (.fin s m e)) = some (signed negative (n / d)) ↔ Short p ((n : ℚ) / d) := by
  obtain ⟨rfl, hm, herr⟩ := round_normal hn hd hlo hround
  have hpos : (0 : ℚ) < n / d := div_pos (Nat.cast_pos.mpr hn) (Nat.cast_pos.mpr hd)
  have hb : 0 < (scale m 1 (-e)).2 := scale_pos (by decide)
  have hval := @scale_one_rat m e
  have hmag : (2 : ℚ) ^ (-127 : Int) ≤ magnitude m e := by
    have hsplit : (2 : ℚ) ^ (-127 : Int) = 2 ^ (-126 : Int) * (1 / 2) := by norm_num
    have hsmall : (2 : ℚ) ^ (-24 : Int) ≤ 1 / 2 := by norm_num
    obtain ⟨herrl, -⟩ := abs_le.mp herr
    rw [hsplit]
    nlinarith
  have hlow : (10 : ℚ) ^ (-330 : Int) ≤ (scale m 1 (-e)).1 / (scale m 1 (-e)).2 := by
    have hten : (10 : ℚ) ^ (-330 : Int) ≤ 10 ^ (-39 : Int) :=
      zpow_le_zpow_right₀ (by norm_num) (by decide)
    have htwo : (10 : ℚ) ^ (-39 : Int) ≤ 2 ^ (-127 : Int) := by norm_num
    rw [hval]
    exact hten.trans (htwo.trans hmag)
  have ha : 0 < (scale m 1 (-e)).1 := by
    have : (0 : ℚ) < (scale m 1 (-e)).1 / (scale m 1 (-e)).2 := by
      rw [hval]
      exact magnitude_pos hm
    rcases div_pos_iff.mp this with ⟨h, -⟩ | ⟨-, h⟩
    · exact_mod_cast h
    · exact absurd h (not_lt.mpr (Nat.cast_nonneg _))
  rw [formatG_eq hm]
  obtain ⟨hds, hds'⟩ := significant_bounds hp ha hb hlow
  rw [numeral_layout hp hds hds', Option.some_inj, signed_injective]
  constructor
  · intro h
    exact ⟨_, hds', _, h.symm⟩
  · intro h
    obtain ⟨M, X, hM, hM', hv⟩ := h.normalize hp hpos.ne'
    have hnear : |((scale m 1 (-e)).1 : ℚ) / (scale m 1 (-e)).2 - M * 10 ^ (X + 1 - p)| ≤
        M * 10 ^ (X + 1 - p) * 2 ^ (-24 : Int) := by
      rw [hval, ← hv]
      exact herr
    rw [significant_of_near hp hp' ha hb hlow hM hM' hnear, hv]

-- The bytes of a printed number: digits, and what else a numeral or its substitute consists of.
def Printed (s : CString) : Prop :=
  ∀ c ∈ s, Numeric c ∨ c ∈ ofString "+-aefin"

instance (s : CString) : Decidable (Printed s) :=
  inferInstanceAs (Decidable (∀ c ∈ s, Numeric c ∨ c ∈ ofString "+-aefin"))

theorem Printed.append {s t : CString} (hs : Printed s) (ht : Printed t) : Printed (s ++ t) :=
  fun c hc => (List.mem_append.mp hc).elim (hs c) (ht c)

theorem Printed.of_subset {s t : CString} (ht : Printed t) (h : s ⊆ t) : Printed s :=
  fun c hc => ht c (h hc)

theorem printed_digits {n : Nat} : Printed (digits n) :=
  fun c hc => .inl (.inl (isDigit_of_mem_digits c hc))

theorem printed_zeros {k : Nat} : Printed (List.replicate k 48) := by
  intro c hc
  rw [(List.mem_replicate.mp hc).right]
  decide

theorem printed_sign {s : Bool} : Printed (formatG.sign s) := by
  cases s <;> decide

theorem Printed.strip {f : CString} (h : Printed f) : Printed (stripZeros (46 :: f)) := by
  obtain ⟨front, k, hf, hstrip⟩ := @stripZeros_point f
  rw [hstrip]
  split_ifs
  · exact List.forall_mem_nil _
  · refine List.forall_mem_cons.mpr ⟨by decide, ?_⟩
    exact h.of_subset (hf ▸ List.subset_append_left _ _)

theorem printed_exponentText {x : Option Int} : Printed (exponentText x) := by
  rcases x with _ | x
  · exact List.forall_mem_nil _
  · refine Printed.append ?_ (printed_zeros.append printed_digits)
    split_ifs <;> decide

theorem printed_formatG {p : Nat} {v : BinaryFloat} : Printed (formatG p v) := by
  rcases v with _ | s | ⟨s, m, e⟩
  · rw [formatG]
    decide
  · exact printed_sign.append (by decide)
  · rcases Nat.eq_zero_or_pos m with rfl | hm
    · exact printed_sign.append (by decide)
    · rw [formatG_eq hm, layout]
      generalize (significant p _ _).1 = ds
      have htake : ∀ k, Printed ((digits ds).take k) := fun k =>
        printed_digits.of_subset (List.take_subset _ _)
      have hdrop : ∀ k, Printed ((digits ds).drop k) := fun k =>
        printed_digits.of_subset (List.drop_subset _ _)
      refine printed_sign.append ?_
      split_ifs
      · exact (htake _).append (hdrop _).strip
      · exact Printed.append (by decide) (printed_zeros.append printed_digits).strip
      · exact ((htake _).append (hdrop _).strip).append printed_exponentText

-- What may follow a numeral: a blank, a comment, or nothing.
def Ends (after : CString) : Prop :=
  ∀ c ∈ after.head?, isSpace c ∨ c = 59

section

variable {s after : CString}

theorem Ends.other (ha : Ends after) {c : UInt8} (hc : c ∈ after.head?) :
    isDigit c = false ∧ c ≠ 46 ∧ toLower c ≠ 101 ∧ toLower c ≠ 120 := by
  have hmem : c ∈ ([32, 9, 10, 11, 12, 13, 59] : List UInt8) := by
    have h := ha c hc
    simp only [isSpace, Bool.or_eq_true, beq_iff_eq, Bool.and_eq_true, decide_eq_true_eq,
      UInt8.le_iff_toNat_le] at h
    simp only [List.mem_cons, List.not_mem_nil, or_false, ← UInt8.toNat_inj] at h ⊢
    have h9 : (9 : UInt8).toNat = 9 := rfl
    have h10 : (10 : UInt8).toNat = 10 := rfl
    have h11 : (11 : UInt8).toNat = 11 := rfl
    have h12 : (12 : UInt8).toNat = 12 := rfl
    have h13 : (13 : UInt8).toNat = 13 := rfl
    omega
  have hall : ∀ c ∈ ([32, 9, 10, 11, 12, 13, 59] : List UInt8),
      isDigit c = false ∧ c ≠ 46 ∧ toLower c ≠ 101 ∧ toLower c ≠ 120 := by decide
  exact hall c hmem

theorem takeWhile_append_end {p : UInt8 → Bool} (ha : ∀ c ∈ after.head?, p c = false) :
    (s ++ after).takeWhile p = s.takeWhile p := by
  induction s
  case nil =>
    cases after
    case nil => rfl
    case cons c after => simp [ha c rfl]
  case cons c s hi =>
    rw [List.cons_append, List.takeWhile_cons, List.takeWhile_cons, hi]

theorem dropWhile_append_end {p : UInt8 → Bool} (ha : ∀ c ∈ after.head?, p c = false) :
    (s ++ after).dropWhile p = s.dropWhile p ++ after := by
  induction s
  case nil =>
    cases after
    case nil => rfl
    case cons c after => simp [ha c rfl]
  case cons c s hi =>
    rw [List.cons_append, List.dropWhile_cons, List.dropWhile_cons, hi]
    split_ifs <;> rfl

theorem mantissa_append {v : Nat × Nat} {rest : CString} (ha : Ends after)
    (h : mantissa 10 (fun c => if isDigit c then some (digitValue c) else none) s =
      some (v, rest)) :
    mantissa 10 (fun c => if isDigit c then some (digitValue c) else none) (s ++ after) =
      some (v, rest ++ after) := by
  have hd : ∀ c ∈ after.head?, isDigit c = false := fun c hc => (ha.other hc).left
  simp only [mantissa, isSome_digit, takeWhile_append_end hd, dropWhile_append_end hd] at h ⊢
  rcases hs : s.dropWhile isDigit with _ | ⟨c, t⟩
  · simp only [hs] at h
    split_ifs at h with hempty
    injection h with h
    injection h with hv hrest
    subst hv hrest
    rcases after with _ | ⟨d, after⟩
    · simp [hempty]
    · have hpoint : d ≠ 46 := (ha.other rfl).right.left
      simp only [List.nil_append]
      split
      · rename_i heq
        exact absurd (List.cons.inj heq).left hpoint
      · simp [hempty]
  · simp only [hs, List.cons_append] at h ⊢
    split at h
    · rename_i heq
      injection heq with hc ht
      subst hc ht
      simp only [takeWhile_append_end hd, dropWhile_append_end hd]
      split_ifs at h ⊢
      injection h with h
      injection h with hv hrest
      rw [hv, hrest]
    · rename_i hne
      have hpoint : c ≠ 46 := fun hc => hne t (by rw [hc])
      split_ifs at h with hempty
      injection h with h
      injection h with hv hrest
      split
      · rename_i heq
        exact absurd (List.cons.inj heq).left hpoint
      · rw [if_neg hempty, hv, ← hrest]
        rfl

theorem exponent_append {e : Int} (ha : Ends after) (h : exponent 101 s = some (e, [])) :
    exponent 101 (s ++ after) = some (e, after) := by
  have hd : ∀ c ∈ after.head?, isDigit c = false := fun c hc => (ha.other hc).left
  rcases s with _ | ⟨c, t⟩
  · injection h with h
    injection h with he
    subst he
    rcases after with _ | ⟨c, after⟩
    · rfl
    · rw [List.nil_append, exponent, if_neg (ha.other rfl).right.right.left]
  · rw [exponent] at h
    split_ifs at h with hc
    · rw [List.cons_append, exponent, if_pos hc]
      have hsign : t ≠ [] → sign (t ++ after) = ((sign t).1, (sign t).2 ++ after) := by
        intro ht
        obtain ⟨d, t, rfl⟩ := List.exists_cons_of_ne_nil ht
        simp only [sign, List.cons_append]
        split <;> simp_all
      by_cases ht : t = []
      · subst ht
        simp [sign] at h
      · simp only [hsign ht, takeWhile_append_end hd, dropWhile_append_end hd]
        simp only at h
        split_ifs at h ⊢
        all_goals
          injection h with h
          injection h with he hrest
          rw [he, hrest]
          rfl
    · injection h with h
      injection h with _ hrest
      contradiction

theorem mantissa_head {v : Nat × Nat} {rest : CString}
    (h : mantissa 10 (fun c => if isDigit c then some (digitValue c) else none) s =
      some (v, rest)) : ∃ c t, s = c :: t ∧ Numeric c := by
  rcases s with _ | ⟨c, t⟩
  · simp [mantissa] at h
  · refine ⟨c, t, rfl, ?_⟩
    by_cases hd : isDigit c
    · exact .inl hd
    · refine .inr ?_
      by_contra hp
      simp [mantissa, isSome_digit, hd, hp] at h

-- A numeral has no letter behind a leading zero but the one of the exponent.
theorem not_hex {v : Nat × Nat} {rest : CString} {e : Int} (ha : Ends after)
    (hm : mantissa 10 (fun c => if isDigit c then some (digitValue c) else none) s =
      some (v, rest))
    (he : exponent 101 rest = some (e, [])) :
    startsWith (((s ++ after).take 8).map toLower) "0x" = false := by
  obtain ⟨c, t, rfl, hc⟩ := mantissa_head hm
  rw [Bool.eq_false_iff]
  intro hx
  rcases t with _ | ⟨d, t⟩
  · rcases after with _ | ⟨d, after⟩
    · simp [startsWith, ofString] at hx
    · have hd := (ha.other rfl).right.right.right
      simp [startsWith, ofString] at hx
      exact hd hx.right.symm
  · have hd : toLower d = 120 := by
      simp [startsWith, ofString] at hx
      exact hx.right.symm
    have hzero : c = 48 := by
      simp [startsWith, ofString, hc.toLower_eq] at hx
      exact hx.left.symm
    have hother : isDigit d = false ∧ d ≠ 46 := by
      refine ⟨?_, ?_⟩
      · rw [Bool.eq_false_iff]
        intro hdig
        have hn : Numeric d := .inl hdig
        rw [hn.toLower_eq] at hd
        exact absurd (hd ▸ hdig) (by decide)
      · rintro rfl
        exact absurd hd (by decide)
    subst hzero
    have h48 : isDigit 48 = true := rfl
    simp [mantissa, isSome_digit, h48, hother.left, hother.right] at hm
    rw [← hm.right, exponent, if_neg (by rw [hd]; decide)] at he
    simp at he

-- A numeral is scanned as the number it denotes, rounded.
theorem float_numeral {text : CString} {q : ℚ} (ha : Ends after) (h : numeral text = some q) :
    ∃ negative a b, 0 < b ∧ q = signed negative ((a : Nat) / (b : Nat)) ∧
      float single (text ++ after) = some (.round single negative a b, after) := by
  rcases hs : sign text with ⟨negative, s⟩
  simp only [numeral, hs, Option.bind_eq_bind, Option.bind_eq_some_iff] at h
  obtain ⟨⟨⟨n, k⟩, rest⟩, hm, ⟨e, rest'⟩, he, hq⟩ := h
  dsimp only at he hq
  split_ifs at hq with hempty
  rw [List.isEmpty_iff.mp hempty] at he
  injection hq with hq
  obtain ⟨c, t, rfl, hc⟩ := mantissa_head hm
  have htext : skipSpaces (text ++ after) = text ++ after ∧
      sign (text ++ after) = (negative, c :: t ++ after) := by
    rcases text with _ | ⟨d, text⟩
    · simp [sign] at hs
    · by_cases hminus : d = 45
      · subst hminus
        simp only [sign, Prod.mk.injEq] at hs
        rw [← hs.left, ← hs.right]
        exact ⟨rfl, rfl⟩
      · by_cases hplus : d = 43
        · subst hplus
          simp only [sign, Prod.mk.injEq] at hs
          rw [← hs.left, ← hs.right]
          exact ⟨rfl, rfl⟩
        · have hplain : sign (d :: text) = (false, d :: text) := by simp [sign, hminus, hplus]
          rw [hplain, Prod.mk.injEq, List.cons.injEq] at hs
          obtain ⟨rfl, rfl, rfl⟩ := hs
          simp [skipSpaces, hc.not_space, sign, hminus, hplus]
  have hlow : ∀ p : CString, (∀ d ∈ p.head?, d ≠ c) → p ≠ [] →
      startsWith (((c :: t ++ after).take 8).map toLower) p = false := by
    intro p hp hne
    rcases p with _ | ⟨d, p⟩
    · contradiction
    · rw [Bool.eq_false_iff]
      intro hstart
      simp [startsWith, hc.toLower_eq] at hstart
      exact hp d rfl hstart.left
  have hother : ∀ d : UInt8, ¬ Numeric d → d ≠ c := fun d hd h => hd (h ▸ hc)
  have hinfinity := hlow "infinity" (by rintro d ⟨⟩; exact hother _ (by decide)) (by decide)
  have hinfi := hlow "infi" (by rintro d ⟨⟩; exact hother _ (by decide)) (by decide)
  have hinf := hlow "inf" (by rintro d ⟨⟩; exact hother _ (by decide)) (by decide)
  have hnan := hlow "nan" (by rintro d ⟨⟩; exact hother _ (by decide)) (by decide)
  have hhex := not_hex ha hm he
  refine ⟨negative, (power n 10 (e - k)).1, (power n 10 (e - k)).2, ?_, hq.symm, ?_⟩
  · unfold power
    split_ifs
    · exact Nat.one_pos
    · exact Nat.pow_pos (by decide)
  · simp only [float, htext, hinfinity, hinfi, hinf, hnan, hhex, Bool.false_eq_true, if_false,
      mantissa_append ha hm, exponent_append ha he, Option.bind_eq_bind, Option.bind_some]
    rfl

end

section

variable {ds fs : CString} {negative : Bool}

theorem numeral_whole (h : ∀ c ∈ ds, isDigit c) (hne : ds ≠ []) :
    numeral (formatG.sign negative ++ ds) = some (signed negative (decimal ds)) := by
  have hsign := @sign_digits ds [] negative h hne
  rw [List.append_nil] at hsign
  have value := @power_rat (decimal ds) 0
  simp only [numeral, hsign, mantissa_whole h hne, Option.bind_eq_bind, Option.bind_some, exponent,
    Nat.cast_zero, Int.sub_zero, value, List.isEmpty_nil, if_true, zpow_zero, mul_one]

theorem numeral_point (h : ∀ c ∈ ds, isDigit c) (hf : ∀ c ∈ fs, isDigit c) (hne : ds ≠ []) :
    numeral (formatG.sign negative ++ (ds ++ 46 :: fs)) =
      some (signed negative (decimal (ds ++ fs) / 10 ^ fs.length)) := by
  have value := @power_rat (decimal (ds ++ fs)) (0 - fs.length)
  rw [Int.zero_sub, zpow_neg, zpow_natCast, ← div_eq_mul_inv] at value
  simp only [numeral, sign_digits h hne, mantissa_point h hf hne, Option.bind_eq_bind,
    Option.bind_some, exponent, Int.zero_sub, value, List.isEmpty_nil, if_true]

theorem numeral_tenths {k : Nat} :
    numeral (formatG.sign negative ++ tenths k) = some (signed negative (k / 10)) := by
  have digit : ∀ c ∈ [digit (k % 10)], isDigit c :=
    fun c hc => List.mem_singleton.mp hc ▸ digit_isDigit (Nat.mod_lt k (by decide))
  have whole := @numeral_point (digits (k / 10)) [BinaryFloat.digit (k % 10)] negative
    isDigit_of_mem_digits digit digits_ne_nil
  have value : decimal (digits (k / 10) ++ [BinaryFloat.digit (k % 10)]) = k := by
    rw [decimal_snoc, decimal_digits, digitValue_digit (Nat.mod_lt k (by decide))]
    omega
  rw [value] at whole
  simpa [tenths] using whole

-- A magnitude in tenths, rounded.
def tenthsOf (m : Nat) (e : Int) : Nat :=
  roundQuotient ((scale m 1 (-e)).1 * 10) (scale m 1 (-e)).2

theorem tenthsOf_near {m : Nat} {e : Int} : |(tenthsOf m e : ℚ) / 10 - magnitude m e| ≤ 1 / 20 := by
  have near := @roundQuotient_rat ((scale m 1 (-e)).1 * 10) (scale m 1 (-e)).2 (scale_pos Nat.one_pos)
  have ten : (((scale m 1 (-e)).1 * 10 : Nat) : ℚ) / (scale m 1 (-e)).2 = magnitude m e * 10 := by
    rw [Nat.cast_mul, mul_div_right_comm, scale_one_rat, Nat.cast_ofNat]
  rw [ten, ← tenthsOf] at near
  rw [abs_le] at near ⊢
  constructor <;> linarith [near.1, near.2]

theorem formatF_tenths {m : Nat} {e : Int} :
    formatF 1 (.fin negative m e) = formatG.sign negative ++ tenths (tenthsOf m e) := by
  simp only [formatF, pow_one, Nat.reduceAdd, padLeft_digits]
  simp [tenths, tenthsOf]

theorem numeral_formatD {n : Int} : numeral (formatD n) = some n := by
  unfold formatD
  split
  case isTrue h =>
    have value := @numeral_whole (digits n.natAbs) true isDigit_of_mem_digits digits_ne_nil
    have abs : ((n.natAbs : Int) : ℚ) = -n := by rw [Int.ofNat_natAbs_of_nonpos h.le, Int.cast_neg]
    rw [decimal_digits, signed, if_pos rfl, ← Int.cast_natCast, abs, neg_neg] at value
    exact value
  case isFalse h =>
    have value := @numeral_whole (digits n.natAbs) false isDigit_of_mem_digits digits_ne_nil
    have abs : ((n.natAbs : Int) : ℚ) = n := by rw [Int.natAbs_of_nonneg (Int.not_lt.mp h)]
    rw [decimal_digits, signed, if_neg Bool.false_ne_true, ← Int.cast_natCast, abs] at value
    exact value


end

end BinaryFloat
