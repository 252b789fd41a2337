import Mathlib.Data.Int.Log
import Mathlib.Data.Rat.Floor
import Mathlib.Tactic.IntervalCases
import DenebModel.Primitives.Scan

-- Decimal text: what the digits of a number are scanned as.
namespace BinaryFloat

open CString Scan

def digit (n : Nat) : UInt8 :=
  n.digitChar.toNat.toUInt8

theorem digit_isDigit {n : Nat} (h : n < 10) : isDigit (digit n) := by
  interval_cases n <;> decide

theorem digitValue_digit {n : Nat} (h : n < 10) : digitValue (digit n) = n := by
  interval_cases n <;> decide

theorem digits_of_lt {n : Nat} (h : n < 10) : digits n = [digit n] := by
  rw [digits, Nat.toDigits_of_lt_base h]
  rfl

theorem digits_of_ge {n : Nat} (h : 10 ≤ n) : digits n = digits (n / 10) ++ [digit (n % 10)] := by
  rw [digits, Nat.toDigits_of_base_le (by decide) h, List.map_append]
  rfl

theorem isDigit_of_mem_digits {n : Nat} : ∀ c ∈ digits n, isDigit c := by
  induction n using Nat.strongRecOn
  case ind n hi =>
    by_cases h : n < 10
    · simp [digits_of_lt h, digit_isDigit h]
    · rw [digits_of_ge (Nat.le_of_not_lt h)]
      intro c hc
      rcases List.mem_append.mp hc with hc | hc
      · exact hi (n / 10) (by omega) c hc
      · rw [List.mem_singleton.mp hc]
        exact digit_isDigit (by omega)

theorem digits_ne_nil {n : Nat} : digits n ≠ [] := by
  simp [digits, Nat.toDigits_ne_nil]

theorem decimal_snoc {s : CString} {c : UInt8} :
    decimal (s ++ [c]) = 10 * decimal s + digitValue c := by
  simp [decimal]

@[simp] theorem decimal_digits {n : Nat} : decimal (digits n) = n := by
  induction n using Nat.strongRecOn
  case ind n hi =>
    by_cases h : n < 10
    · simp [digits_of_lt h, decimal, digitValue_digit h]
    · rw [digits_of_ge (Nat.le_of_not_lt h), decimal_snoc, hi (n / 10) (by omega),
        digitValue_digit (by omega)]
      omega

-- The digits of a number are followed by something else.
theorem takeWhile_digits {n : Nat} {s : CString} (h : ∀ c ∈ s.head?, isDigit c = false) :
    (digits n ++ s).takeWhile isDigit = digits n := by
  rw [List.takeWhile_append_of_pos isDigit_of_mem_digits]
  cases s
  case nil => simp
  case cons c s => simp [h c rfl]

theorem dropWhile_digits {n : Nat} {s : CString} (h : ∀ c ∈ s.head?, isDigit c = false) :
    (digits n ++ s).dropWhile isDigit = s := by
  rw [List.dropWhile_append_of_pos isDigit_of_mem_digits]
  cases s
  case nil => rfl
  case cons c s => simp [h c rfl]

theorem roundQuotient_near {n d : Nat} (h : 0 < d) :
    2 * n ≤ 2 * (d * roundQuotient n d) + d ∧ 2 * (d * roundQuotient n d) ≤ 2 * n + d := by
  have hn := Nat.div_add_mod n d
  have hr := Nat.mod_lt n h
  have hs : d * (n / d + 1) = d * (n / d) + d := by rw [Nat.mul_add, Nat.mul_one]
  simp only [roundQuotient]
  split_ifs
  all_goals omega

theorem roundQuotient_eq {n d q : Nat} (hlo : 2 * n < 2 * (d * q) + d)
    (hhi : 2 * (d * q) < 2 * n + d) : roundQuotient n d = q := by
  have hd : 0 < d := by omega
  have ⟨hn, hn'⟩ := @roundQuotient_near n d hd
  have hle : d * roundQuotient n d < d * (q + 1) := by
    rw [Nat.mul_add]
    omega
  have hge : d * q < d * (roundQuotient n d + 1) := by
    rw [Nat.mul_add]
    omega
  have hle' := Nat.lt_of_mul_lt_mul_left hle
  have hge' := Nat.lt_of_mul_lt_mul_left hge
  omega

theorem floorLog2_le {n d : Nat} : floorLog2 n d ≤ (n.log2 : Int) - d.log2 := by
  simp only [floorLog2]
  split <;> omega

theorem scale_le_iff {n d : Nat} {e : Int} (hd : 0 < d) :
    (scale n d e).2 ≤ (scale n d e).1 ↔ (2 : ℚ) ^ e ≤ n / d := by
  have hd' : (0 : ℚ) < d := Nat.cast_pos.mpr hd
  rw [le_div_iff₀ hd']
  by_cases he : 0 ≤ e
  · obtain ⟨k, rfl⟩ := Int.eq_ofNat_of_zero_le he
    simp only [scale, he, if_true, Int.toNat_natCast, zpow_natCast]
    rw [mul_comm d]
    exact_mod_cast Iff.rfl
  · obtain ⟨k, rfl⟩ : ∃ k : Nat, e = -k := ⟨e.natAbs, by omega⟩
    have hp : (0 : ℚ) < 2 ^ k := by positivity
    simp only [scale, he, if_false, Int.neg_neg, Int.toNat_natCast, zpow_neg, zpow_natCast]
    rw [inv_mul_le_iff₀ hp, mul_comm n]
    exact_mod_cast Iff.rfl

-- `floorLog2` finds the binary logarithm, although it starts from the logarithms of the parts.
theorem floorLog2_eq {n d : Nat} (hn : 0 < n) (hd : 0 < d) :
    floorLog2 n d = Int.log 2 ((n : ℚ) / d) := by
  have hd' : (0 : ℚ) < d := Nat.cast_pos.mpr hd
  have hpos : (0 : ℚ) < n / d := div_pos (Nat.cast_pos.mpr hn) hd'
  have hle : ∀ e, (scale n d e).2 ≤ (scale n d e).1 ↔ e ≤ Int.log 2 ((n : ℚ) / d) := fun e =>
    (scale_le_iff hd).trans (Int.zpow_le_iff_le_log (by decide) hpos)
  have hnl : (2 : ℚ) ^ n.log2 ≤ n := by exact_mod_cast Nat.log2_self_le hn.ne'
  have hnh : (n : ℚ) < 2 ^ (n.log2 + 1) := by exact_mod_cast Nat.lt_log2_self
  have hdl : (2 : ℚ) ^ d.log2 ≤ d := by exact_mod_cast Nat.log2_self_le hd.ne'
  have hdh : (d : ℚ) < 2 ^ (d.log2 + 1) := by exact_mod_cast Nat.lt_log2_self
  have hsplit : ∀ a b : Nat, (2 : ℚ) ^ ((a : Int) - b) = 2 ^ a / 2 ^ b := fun a b => by
    rw [zpow_sub₀ two_ne_zero, zpow_natCast, zpow_natCast]
  have hlow : (n.log2 : Int) - (d.log2 + 1 : Nat) ≤ Int.log 2 ((n : ℚ) / d) := by
    refine (Int.zpow_le_iff_le_log (by decide) hpos).mp ?_
    calc (2 : ℚ) ^ ((n.log2 : Int) - (d.log2 + 1 : Nat))
      _ = 2 ^ n.log2 / 2 ^ (d.log2 + 1) := hsplit _ _
      _ ≤ n / d := by gcongr
  have hhigh : Int.log 2 ((n : ℚ) / d) < (n.log2 + 1 : Nat) - (d.log2 : Int) := by
    refine (Int.lt_zpow_iff_log_lt (by decide) hpos).mp ?_
    calc (n : ℚ) / d
      _ < 2 ^ (n.log2 + 1) / 2 ^ d.log2 := by gcongr
      _ = 2 ^ (((n.log2 + 1 : Nat) : Int) - d.log2) := (hsplit _ _).symm
  simp only [floorLog2, hle]
  split <;> omega

theorem scale_mul {n d c : Nat} {e : Int} :
    scale (n * c) (d * c) e = ((scale n d e).1 * c, (scale n d e).2 * c) := by
  unfold scale
  split_ifs <;> simp only [Nat.mul_right_comm]

theorem roundQuotient_mul {n d c : Nat} (hc : 0 < c) :
    roundQuotient (n * c) (d * c) = roundQuotient n d := by
  simp only [roundQuotient, Nat.mul_div_mul_right _ _ hc, Nat.mul_mod_mul_right, ← Nat.mul_assoc,
    Nat.mul_lt_mul_right hc]

-- Rounding depends on the value of the fraction only.
theorem round_mul {f : Format} {negative : Bool} {n d c : Nat} (hd : 0 < d) (hc : 0 < c) :
    round f negative (n * c) (d * c) = round f negative n d := by
  by_cases hn : n = 0
  · simp [hn, round]
  · have hn' : 0 < n := Nat.pos_of_ne_zero hn
    have hc' : (c : ℚ) ≠ 0 := Nat.cast_ne_zero.mpr hc.ne'
    have hlog : floorLog2 (n * c) (d * c) = floorLog2 n d := by
      rw [floorLog2_eq (Nat.mul_pos hn' hc) (Nat.mul_pos hd hc), floorLog2_eq hn' hd, Nat.cast_mul,
        Nat.cast_mul, mul_div_mul_right _ _ hc']
    have hz : ¬ n * c = 0 := (Nat.mul_pos hn' hc).ne'
    simp only [round, hn, hz, if_false, hlog, scale_mul, roundQuotient_mul hc]

-- A multiple of a tenth below a thousand is recovered from its `float` by rounding to tenths.
theorem literal_tenths {k : Nat} (hk : 0 < k) (hk' : k < 10000) :
    ∃ m j : Nat, literal k 10 = .fin false m (-j) ∧ 0 < m ∧ roundQuotient (m * 10) (2 ^ j) = k := by
  have hlog : k.log2 < 14 := (Nat.log2_lt (by omega)).mpr (by omega)
  have h10 : (10 : Nat).log2 = 3 := by decide
  have hfloor := @floorLog2_le k 10
  generalize he : max (floorLog2 k 10 - ((24 : Nat) - 1)) (-149) = e
  have hneg : e ≤ -13 := by omega
  obtain ⟨j, rfl⟩ : ∃ j : Nat, e = -j := ⟨e.natAbs, by omega⟩
  have hscale : scale k 10 (-j) = (k * 2 ^ j, 10) := by
    rw [scale, if_neg (by omega), Int.neg_neg, Int.toNat_natCast]
  have hnear := @roundQuotient_near (k * 2 ^ j) 10 (by decide)
  have hfin : ¬ (128 : Int) ≤ (roundQuotient (k * 2 ^ j) 10).log2 + -j := by
    have hpow : 0 < 2 ^ j := Nat.two_pow_pos j
    have hmul : k * 2 ^ j < 10000 * 2 ^ j := Nat.mul_lt_mul_of_pos_right hk' hpow
    have hlt : roundQuotient (k * 2 ^ j) 10 < 2 ^ (j + 10) := by
      rw [Nat.pow_add]
      omega
    by_cases hz : roundQuotient (k * 2 ^ j) 10 = 0
    · simp only [hz, Nat.log2_zero]
      omega
    · have := (Nat.log2_lt hz).mpr hlt
      omega
  have hpow : 2 ^ 5 ≤ 2 ^ j := Nat.pow_le_pow_right (by decide) (by omega)
  have hmul : 1 * 2 ^ j ≤ k * 2 ^ j := Nat.mul_le_mul_right _ hk
  refine ⟨roundQuotient (k * 2 ^ j) 10, j, ?_, by omega, ?_⟩
  · simp only [literal, round, single, he, hscale, if_neg hk.ne', if_neg hfin]
  · refine roundQuotient_eq ?_ ?_ <;> rw [Nat.mul_comm (2 ^ j)] <;> omega

-- A number with one digit behind the point has at least one in front of it.
theorem padLeft_digits {k : Nat} : padLeft 2 (digits k) = digits (k / 10) ++ [digit (k % 10)] := by
  by_cases h : k < 10
  · rw [digits_of_lt h, Nat.div_eq_of_lt h, Nat.mod_eq_of_lt h]
    rfl
  · have hlen : 2 - (digits k).length = 0 := by
      have := List.length_pos_iff.mpr (@digits_ne_nil (k / 10))
      rw [digits_of_ge (Nat.le_of_not_lt h), List.length_append, List.length_singleton]
      omega
    rw [padLeft, hlen, digits_of_ge (Nat.le_of_not_lt h)]
    rfl

theorem formatF_literal {k : Nat} (hk : 0 < k) (hk' : k < 10000) :
    formatF 1 (literal k 10) = digits (k / 10) ++ [46, digit (k % 10)] := by
  obtain ⟨m, j, hm, -, hround⟩ := literal_tenths hk hk'
  have hscale : scale m 1 (- -(j : Int)) = (m, 2 ^ j) := by
    rw [Int.neg_neg, scale, if_pos (by omega), Int.toNat_natCast, Nat.one_mul]
  rw [hm]
  simp only [formatF, hscale, pow_one, hround, Nat.reduceAdd, padLeft_digits]
  simp [formatG.sign]

theorem literal_zero : literal 0 10 = zero := rfl

theorem literal_pos {k : Nat} (hk : 0 < k) (hk' : k < 10000) : lt zero (literal k 10) := by
  obtain ⟨m, j, hm, hpos, -⟩ := literal_tenths hk hk'
  rw [hm]
  simpa [lt, zero, aligned] using hpos

-- Multiples of a tenth remain apart as `float`s.
theorem literal_injective {k l : Nat} (hk : k < 10000) (hl : l < 10000)
    (h : literal k 10 = literal l 10) : k = l := by
  rcases Nat.eq_zero_or_pos k with rfl | hk0 <;> rcases Nat.eq_zero_or_pos l with rfl | hl0
  · rfl
  · exact absurd (h ▸ literal_pos hl0 hl) (by decide)
  · exact absurd (h ▸ literal_pos hk0 hk) (by decide)
  · obtain ⟨m, j, hm, -, hround⟩ := literal_tenths hk0 hk
    obtain ⟨m', j', hm', -, hround'⟩ := literal_tenths hl0 hl
    rw [hm, hm'] at h
    injection h with _ hmm hj
    have hjj : j = j' := by omega
    rw [← hround, ← hround', hmm, hjj]

-- A byte of a numeral.
def Numeric (c : UInt8) : Prop :=
  isDigit c ∨ c = 46

instance (c : UInt8) : Decidable (Numeric c) :=
  inferInstanceAs (Decidable (isDigit c ∨ c = 46))

theorem Numeric.range {c : UInt8} (h : Numeric c) : 46 ≤ c.toNat ∧ c.toNat ≤ 57 := by
  rcases h with h | rfl
  · simp only [isDigit, Bool.and_eq_true, decide_eq_true_eq, UInt8.le_iff_toNat_le] at h
    have h48 : (48 : UInt8).toNat = 48 := rfl
    have h57 : (57 : UInt8).toNat = 57 := rfl
    omega
  · decide

theorem Numeric.not_space {c : UInt8} (h : Numeric c) : isSpace c = false := by
  have hr := h.range
  have h13 : (13 : UInt8).toNat = 13 := rfl
  have h32 : c ≠ 32 := by
    rintro rfl
    exact absurd h (by decide)
  have hle : ¬ c ≤ 13 := by
    rw [UInt8.le_iff_toNat_le]
    omega
  simp [isSpace, h32, hle]

theorem Numeric.toLower_eq {c : UInt8} (h : Numeric c) : toLower c = c := by
  have hr := h.range
  have h65 : (65 : UInt8).toNat = 65 := rfl
  have hle : ¬ (65 : UInt8) ≤ c := by
    rw [UInt8.le_iff_toNat_le]
    omega
  simp [toLower, isUpper, hle]

theorem not_startsWith_of_numeric {s p : CString} {c : UInt8} (h : ∀ c ∈ s, Numeric c)
    (hc : c ∈ p) (hl : ¬ Numeric c) : startsWith ((s.take 8).map toLower) p = false := by
  rw [Bool.eq_false_iff]
  intro hp
  have hpre : p <+: (s.take 8).map toLower := List.isPrefixOf_iff_prefix.mp hp
  obtain ⟨d, hd, hdc⟩ := List.mem_map.mp (hpre.subset hc)
  have hn := h d (List.mem_of_mem_take hd)
  rw [hn.toLower_eq] at hdc
  exact hl (hdc ▸ hn)

-- A numeral without sign and exponent.
theorem strtof_of_numeric {s : CString} (h : ∀ c ∈ s, Numeric c) :
    strtof s =
      match mantissa 10 (fun c => if isDigit c then some (digitValue c) else none) s with
      | some ((n, k), s) =>
        let (e, s) := (exponent 101 s).getD (0, s)
        let (a, b) := power n 10 (e - k)
        some (.round single false a b, s)
      | none => none := by
  have hsign : sign (skipSpaces s) = (false, s) := by
    rcases s with _ | ⟨c, s⟩
    · rfl
    · have hc := h c List.mem_cons_self
      have hminus : c ≠ 45 := fun he => absurd (he ▸ hc) (by decide)
      have hplus : c ≠ 43 := fun he => absurd (he ▸ hc) (by decide)
      rw [skipSpaces, List.dropWhile_cons, hc.not_space]
      simp [sign, hminus, hplus]
  have hinfinity := not_startsWith_of_numeric (p := "infinity") (c := 105) h (by decide) (by decide)
  have hinf := not_startsWith_of_numeric (p := "inf") (c := 105) h (by decide) (by decide)
  have hnan := not_startsWith_of_numeric (p := "nan") (c := 110) h (by decide) (by decide)
  have hhex := not_startsWith_of_numeric (p := "0x") (c := 120) h (by decide) (by decide)
  simp only [strtof, hsign, hinfinity, hinf, hnan, hhex, Bool.false_eq_true, if_false]
    <;> rfl

section

variable {ds fs : CString}

theorem foldl_digits (h : ∀ c ∈ ds, isDigit c) {n : Nat} :
    ds.foldl (fun n c => 10 * n + (if isDigit c then some (digitValue c) else none).getD 0) n =
      ds.foldl (fun n c => 10 * n + digitValue c) n := by
  induction ds generalizing n
  case nil => rfl
  case cons c ds hi =>
    rw [List.foldl_cons, List.foldl_cons, hi (fun d hd => h d (.tail _ hd)),
      if_pos (h c List.mem_cons_self)]
    rfl

theorem isSome_digit :
    (fun c : UInt8 => (if isDigit c then some (digitValue c) else none).isSome) = isDigit := by
  funext c
  cases isDigit c <;> rfl

theorem mantissa_whole (h : ∀ c ∈ ds, isDigit c) (hne : ds ≠ []) :
    mantissa 10 (fun c => if isDigit c then some (digitValue c) else none) ds =
      some ((decimal ds, 0), []) := by
  have htake : ds.takeWhile isDigit = ds := by
    rw [← List.append_nil ds, List.takeWhile_append_of_pos h]
    simp
  have hdrop : ds.dropWhile isDigit = [] := by
    rw [← List.append_nil ds, List.dropWhile_append_of_pos h]
    rfl
  simp only [mantissa, isSome_digit, htake, hdrop]
  rw [if_neg (by simpa using hne), foldl_digits h]
  rfl

theorem mantissa_point (h : ∀ c ∈ ds, isDigit c) (hf : ∀ c ∈ fs, isDigit c) (hne : ds ≠ []) :
    mantissa 10 (fun c => if isDigit c then some (digitValue c) else none) (ds ++ 46 :: fs) =
      some ((decimal (ds ++ fs), fs.length), []) := by
  have hpoint : isDigit 46 = false := by decide
  have htake : (ds ++ 46 :: fs).takeWhile isDigit = ds := by
    rw [List.takeWhile_append_of_pos h]
    simp [hpoint]
  have hdrop : (ds ++ 46 :: fs).dropWhile isDigit = 46 :: fs := by
    rw [List.dropWhile_append_of_pos h]
    simp [hpoint]
  have htake' : fs.takeWhile isDigit = fs := by
    rw [← List.append_nil fs, List.takeWhile_append_of_pos hf]
    simp
  have hdrop' : fs.dropWhile isDigit = [] := by
    rw [← List.append_nil fs, List.dropWhile_append_of_pos hf]
    rfl
  simp only [mantissa, isSome_digit, htake, hdrop, htake', hdrop']
  rw [if_neg (by simp [hne]), foldl_digits h, foldl_digits hf, decimal, List.foldl_append]

theorem strtof_whole (h : ∀ c ∈ ds, isDigit c) (hne : ds ≠ []) :
    strtof ds = some (.round single false (decimal ds) 1, []) := by
  rw [strtof_of_numeric fun c hc => .inl (h c hc), mantissa_whole h hne]
  simp [exponent, power]

theorem strtof_point (h : ∀ c ∈ ds, isDigit c) (hf : ∀ c ∈ fs, isDigit c) (hne : ds ≠ []) :
    strtof (ds ++ 46 :: fs) =
      some (.round single false (decimal (ds ++ fs)) (10 ^ fs.length), []) := by
  have hn : ∀ c ∈ ds ++ 46 :: fs, Numeric c := by
    intro c hc
    rcases List.mem_append.mp hc with hc | hc
    · exact .inl (h c hc)
    · rcases List.mem_cons.mp hc with rfl | hc
      · exact .inr rfl
      · exact .inl (hf c hc)
  rw [strtof_of_numeric hn, mantissa_point h hf hne]
  simp only [exponent, Option.getD_some, power, Int.zero_sub]
  rcases Nat.eq_zero_or_pos fs.length with hz | hpos
  · simp [hz]
  · rw [if_neg (by omega), Int.neg_neg, Int.toNat_natCast]

-- A text in tenths, and what is read when its last byte, or the point as well, is missing.
theorem strtof_tenths {k : Nat} :
    strtof (digits (k / 10) ++ [46, digit (k % 10)]) = some (literal k 10, []) := by
  have hd : ∀ c ∈ [digit (k % 10)], isDigit c := by
    simpa using digit_isDigit (Nat.mod_lt k (by decide))
  rw [strtof_point isDigit_of_mem_digits hd digits_ne_nil, decimal_snoc, decimal_digits,
    digitValue_digit (by omega), Nat.div_add_mod]
  rfl

theorem literal_whole {n : Nat} : round single false n 1 = literal (10 * n) 10 := by
  rw [literal, Nat.mul_comm, ← round_mul (d := 1) (c := 10) (by decide) (by decide)]

theorem strtof_digits_point {n : Nat} :
    strtof (digits n ++ [46]) = some (literal (10 * n) 10, []) := by
  have h := strtof_point (@isDigit_of_mem_digits n) (List.forall_mem_nil _) digits_ne_nil
  rw [h, List.append_nil, decimal_digits, List.length_nil, Nat.pow_zero, literal_whole]

end

-- A number in tenths as it is printed.
def tenths (k : Nat) : CString :=
  digits (k / 10) ++ [46, digit (k % 10)]

theorem decimal_take_digits {n l : Nat} (hl : 0 < l) (h : l < (digits n).length) :
    decimal ((digits n).take l) < n := by
  induction n using Nat.strongRecOn
  case ind n hi =>
    by_cases hn : n < 10
    · simp only [digits_of_lt hn, List.length_singleton] at h
      omega
    · rw [digits_of_ge (Nat.le_of_not_lt hn)] at h ⊢
      simp only [List.length_append, List.length_singleton] at h
      rw [List.take_append_of_le_length (by omega)]
      rcases Nat.lt_or_eq_of_le (Nat.le_of_lt_succ h) with hlt | heq
      · have := hi (n / 10) (by omega) hlt
        omega
      · rw [heq, List.take_length, decimal_digits]
        omega

-- What is read of a number in tenths that is cut: a whole number in place of it, if any.
theorem strtof_tenths_cut {k c : Nat} (h : c < (tenths k).length) (hc : 0 < c) :
    ∃ n, strtof ((tenths k).take c) = some (literal (10 * n) 10, []) ∧ n ≤ k / 10 ∧
      (n = k / 10 ↔ (tenths k).length ≤ c + 2) := by
  have hlen : (tenths k).length = (digits (k / 10)).length + 2 := by simp [tenths]
  by_cases hlast : c = (digits (k / 10)).length + 1
  · refine ⟨k / 10, ?_, Nat.le_refl _, by omega⟩
    have ht : (tenths k).take c = digits (k / 10) ++ [46] := by
      rw [tenths, hlast, List.take_length_add_append]
      rfl
    rw [ht, strtof_digits_point]
  · have ht : (tenths k).take c = (digits (k / 10)).take c :=
      List.take_append_of_le_length (by omega)
    have hds : ∀ d ∈ (digits (k / 10)).take c, isDigit d :=
      fun d hd => isDigit_of_mem_digits d (List.mem_of_mem_take hd)
    have hne : (digits (k / 10)).take c ≠ [] := by
      simp [digits_ne_nil, hc.ne']
    refine ⟨decimal ((digits (k / 10)).take c), ?_, ?_⟩
    · rw [ht, strtof_whole hds hne, literal_whole]
    · by_cases hfull : c = (digits (k / 10)).length
      · rw [hfull, List.take_length, decimal_digits]
        omega
      · have hlt := @decimal_take_digits (k / 10) c hc (by omega)
        omega

theorem tenths_length {k : Nat} : 3 ≤ (tenths k).length := by
  have := List.length_pos_iff.mpr (@digits_ne_nil (k / 10))
  simp only [tenths, List.length_append, List.length_cons, List.length_nil]
  omega

theorem tenths_length_le {k : Nat} (h : k < 10000) : (tenths k).length ≤ 5 := by
  have hd : (digits (k / 10)).length ≤ 3 := by
    rw [digits, List.length_map, Nat.length_toDigits_le_iff (by decide) (by decide)]
    omega
  simp only [tenths, List.length_append, List.length_cons, List.length_nil]
  omega

theorem quote_notMem_tenths {k : Nat} : 34 ∉ tenths k := by
  intro h
  rcases List.mem_append.mp h with h | h
  · exact absurd (isDigit_of_mem_digits _ h) (by decide)
  · have hd := @digit_isDigit (k % 10) (by omega)
    simp only [List.mem_cons, List.not_mem_nil, or_false] at h
    rcases h with h | h
    · contradiction
    · exact absurd (h ▸ hd) (by decide)

theorem strtof_tenths_rest {k c : Nat} {v : BinaryFloat} {rest : CString}
    (h : strtof ((tenths k).take c) = some (v, rest)) : rest = [] := by
  rcases Nat.eq_zero_or_pos c with rfl | hc
  · have hnone : strtof [] = none := by decide
    rw [List.take_zero, hnone] at h
    contradiction
  · by_cases hcut : c < (tenths k).length
    · obtain ⟨n, hn, -⟩ := strtof_tenths_cut hcut hc
      rw [hn] at h
      injection h with h
      exact (Prod.mk.inj h).right.symm
    · rw [List.take_of_length_le (Nat.le_of_not_lt hcut), tenths, strtof_tenths] at h
      injection h with h
      exact (Prod.mk.inj h).right.symm

theorem strtof_tenths_iff {k c : Nat} (hk : 0 < k) (hk' : k < 10000) :
    ((strtof ((tenths k).take c)).map (·.1)).getD zero = literal k 10 ↔
      (tenths k).length ≤ c + if k % 10 = 0 then 2 else 0 := by
  have hlen := @tenths_length k
  rcases Nat.eq_zero_or_pos c with rfl | hc
  · have hz : zero ≠ literal k 10 := fun h =>
      absurd (literal_injective (by decide) hk' (literal_zero.trans h)) hk.ne
    have hnone : strtof ((tenths k).take 0) = none := by
      rw [List.take_zero]
      decide
    simp only [hnone, Option.map_none, Option.getD_none, hz, false_iff]
    split_ifs <;> omega
  · by_cases hcut : c < (tenths k).length
    · obtain ⟨n, hn, hle, hiff⟩ := strtof_tenths_cut hcut hc
      have heq : literal (10 * n) 10 = literal k 10 ↔ 10 * n = k :=
        ⟨literal_injective (by omega) hk', fun h => by rw [h]⟩
      simp only [hn, Option.map_some, Option.getD_some, heq]
      split_ifs <;> omega
    · rw [List.take_of_length_le (Nat.le_of_not_lt hcut), tenths, strtof_tenths]
      simp only [Option.map_some, Option.getD_some, true_iff]
      rw [← tenths]
      omega

end BinaryFloat
