import DenebModel.Primitives.JsonText
import DenebModel.Primitives.Theorems.Numeral

-- The texts of printed numbers as numbers of JSON.
namespace JsonText

open CString BinaryFloat

variable {s : Bytes}

theorem isDigits_digits {n : Nat} : IsDigits (digits n) where
  nonempty := digits_ne_nil
  digits c hc := by simpa [isDigit] using isDigit_of_mem_digits c hc

theorem digits_of_zero_head {n : Nat} (h : (digits n).head? = some 48) : digits n = [48] := by
  induction n using Nat.strongRecOn
  case ind n ih =>
    by_cases hn : n < 10
    case pos =>
      rw [digits_of_lt hn] at h ⊢
      rw [Option.some.inj h]
    case neg =>
      -- The digits in front of the last one would be those of zero.
      rw [digits_of_ge (Nat.le_of_not_lt hn), List.head?_append_of_ne_nil _ digits_ne_nil] at h
      have value := @decimal_digits (n / 10)
      rw [ih (n / 10) (by omega) h] at value
      have : Scan.decimal [48] = 0 := rfl
      omega

theorem isWhole_digits {n : Nat} : IsWhole (digits n) where
  toIsDigits := isDigits_digits
  zero       := digits_of_zero_head

theorem sign_mem {negative : Bool} : formatG.sign negative ∈ [[], [45]] := by
  cases negative <;> simp [formatG.sign]

theorem number_whole {negative : Bool} {n : Nat} : Number (formatG.sign negative ++ digits n) := by
  have := Number.mk _ (@sign_mem negative) (@isWhole_digits n) .none .none
  simpa using this

theorem number_tenths {negative : Bool} {k : Nat} : Number (formatG.sign negative ++ tenths k) := by
  have tenth : IsDigits [digit (k % 10)] := by
    rw [← digits_of_lt (Nat.mod_lt k (by decide))]
    exact isDigits_digits
  have := Number.mk _ (@sign_mem negative) (@isWhole_digits (k / 10)) (.some tenth) .none
  simpa [tenths] using this

theorem number_formatD {n : Int} : Number (formatD n) := by
  unfold formatD
  split
  case isTrue  => exact @number_whole true n.natAbs
  case isFalse => exact @number_whole false n.natAbs

theorem number_formatF {x : BinaryFloat} (hn : x ≠ .nan) (hi : ∀ negative, x ≠ .inf negative) :
    Number (formatF 1 x) := by
  cases x
  case nan   => contradiction
  case inf b => exact absurd rfl (hi b)
  case fin negative m e =>
    rw [formatF_tenths]
    exact number_tenths

-- The last byte of a number is a digit.
theorem Number.last (h : Number s) : ∀ c ∈ s.getLast?, 48 ≤ c ∧ c ≤ 57 := by
  obtain ⟨sign, _, hw, hf, hx⟩ := h
  have tail {front ds : Bytes} (hd : IsDigits ds) : ∀ c ∈ (front ++ ds).getLast?, 48 ≤ c ∧ c ≤ 57 := by
    intro c hc
    rw [List.getLast?_append_of_ne_nil _ hd.nonempty] at hc
    exact hd.digits c (List.mem_of_getLast? hc)
  cases hx
  case some e sign' _ _ hd =>
    rw [← List.cons_append, ← List.append_assoc]
    exact tail hd
  case none =>
    rw [List.append_nil]
    cases hf
    case none => rw [List.append_nil]; exact tail hw.toIsDigits
    case some hd =>
      rw [← List.singleton_append, ← List.append_assoc]
      exact tail hd

end JsonText
