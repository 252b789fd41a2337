import DenebModel.Objects.MotionPolicy
import DenebModel.Primitives.Theorems.Numeral

-- The numbers of a resume, compared with the position that was saved for it.
namespace Deneb.MotionPolicy

open CString BinaryFloat

-- The number behind a letter of a command.
def parameter (letter : UInt8) (command : CString) : Option ℚ :=
  numeral (((command.dropWhile (· != letter)).drop 1).takeWhile (· != 32))

-- A multiple of 0.01 as a position report states it, in the `float` that it is saved as.
def hundredths (negative : Bool) (k : Nat) : BinaryFloat :=
  round single negative k 100

-- The commands denote the given position.
structure Exact (policy : MotionPolicy) (x y z e : ℚ) : Prop where
  xy : ∀ c ∈ policy, startsWith c "G0 X" → parameter 88 c = some x ∧ parameter 89 c = some y
  z  : ∀ c ∈ policy, startsWith c "G0 Z" → parameter 90 c = some z
  e  : ∀ c ∈ policy, startsWith c "G92 E" → parameter 69 c = some e

theorem clampPosition_of_valid {axis : Axis} {v : BinaryFloat} (h : validPositionValue axis v) :
    clampPosition axis v = v := by
  have hge : le zero v := by
    simp only [validPositionValue, Bool.and_eq_true] at h
    exact h.left.right
  have hlt : lt v zero = false := by
    rcases v with _ | s | ⟨s, m, e⟩
    · rfl
    · cases s
      · rfl
      · contradiction
    · simp only [le, lt, zero, Int.min_comm, decide_eq_true_eq, decide_eq_false_iff_not] at hge ⊢
      omega
  simp [clampPosition, hlt, h]

theorem hundredths_iff {negative : Bool} {k : Nat} (h : isFinite (hundredths negative k)) :
    numeral (formatG 3 (hundredths negative k)) = some (signed negative (k / 100)) ↔
      Short 3 (k / 100) := by
  rcases Nat.eq_zero_or_pos k with rfl | hk
  · have hz : numeral (formatG 3 (hundredths negative 0)) = some (signed negative 0) := by
      cases negative <;> decide +kernel
    simp [hz, Short.zero]
  · have hlo : (2 : ℚ) ^ (-126 : Int) ≤ k / (100 : Nat) := by
      have hk' : (1 : ℚ) ≤ k := by exact_mod_cast hk
      have hsmall : (2 : ℚ) ^ (-126 : Int) ≤ 1 / 100 := by norm_num
      push_cast
      linarith
    generalize hv : hundredths negative k = v at h
    rcases v with _ | _ | ⟨s, m, e⟩
    · contradiction
    · contradiction
    · have hiff := numeral_formatG_iff (p := 3) (by decide) (by decide) hk (by decide) hlo hv
      exact_mod_cast hiff

theorem notMem_formatG {v : BinaryFloat} {c : UInt8}
    (h : ¬ Numeric c ∧ c ∉ ofString "+-aefin") : c ∉ formatG 3 v :=
  fun hc => (printed_formatG c hc).elim h.left h.right

theorem parameter_eq {letter : UInt8} {before after : CString} {v : BinaryFloat}
    (hb : letter ∉ before) (ha : ∀ c ∈ after.head?, c = 32) :
    parameter letter (before ++ letter :: (formatG 3 v ++ after)) = numeral (formatG 3 v) := by
  have hdrop : (before ++ letter :: (formatG 3 v ++ after)).dropWhile (· != letter) =
      letter :: (formatG 3 v ++ after) := by
    have hne : ∀ c ∈ before, (c != letter) = true := fun c hc =>
      bne_iff_ne.mpr fun h => hb (h ▸ hc)
    rw [List.dropWhile_append_of_pos hne]
    simp
  have htake : (formatG 3 v ++ after).takeWhile (· != 32) = formatG 3 v := by
    have hne : ∀ c ∈ formatG 3 v, (c != 32) = true := fun c hc =>
      bne_iff_ne.mpr fun h => notMem_formatG (by decide) (h ▸ hc)
    rw [List.takeWhile_append_of_pos hne]
    cases after
    case nil => simp
    case cons c after => simp [ha c rfl]
  rw [parameter, hdrop, List.drop_succ_cons, List.drop_zero, htake]

section

variable {x y z e r0 setpoint : BinaryFloat}

-- The commands of a resume that carry the position, and what the others are not.
theorem resume_cases {c : CString} (h : c ∈ resume x y z e r0 setpoint) :
    c = formatValue "G0 X" (clampPosition .x x) " Y" ++ formatG 3 (clampPosition .y y) ∨
    c = formatValue "G0 Z" (clampPosition .z z) [] ∨
    (lt zero (resumeSetpoint setpoint) ∧ c = formatValue "G92 E" e []) ∨
    (startsWith c "G0 X" = false ∧ startsWith c "G0 Z" = false ∧ startsWith c "G92 E" = false) := by
  rw [resume, List.mem_append, List.mem_append, List.mem_append] at h
  rcases h with ((h | h) | h) | h
  · split_ifs at h
    · simp only [List.mem_cons, List.not_mem_nil, or_false] at h
      rcases h with rfl | rfl | rfl | rfl <;> exact .inr (.inr (.inr ⟨rfl, rfl, rfl⟩))
    · contradiction
  · simp only [List.mem_cons, List.not_mem_nil, or_false] at h
    rcases h with rfl | rfl | rfl
    · exact .inr (.inr (.inr ⟨rfl, rfl, rfl⟩))
    · exact .inl rfl
    · exact .inr (.inl rfl)
  · split_ifs at h with hheated
    · simp only [List.mem_cons, List.not_mem_nil, or_false] at h
      rcases h with rfl | rfl | rfl | rfl
      · exact .inr (.inr (.inr ⟨rfl, rfl, rfl⟩))
      · exact .inr (.inr (.inr ⟨rfl, rfl, rfl⟩))
      · exact .inr (.inr (.inr ⟨rfl, rfl, rfl⟩))
      · exact .inr (.inr (.inl ⟨hheated, rfl⟩))
    · contradiction
  · rw [List.mem_singleton.mp h]
    exact .inr (.inr (.inr ⟨rfl, rfl, rfl⟩))

theorem move_mem :
    formatValue "G0 X" (clampPosition .x x) " Y" ++ formatG 3 (clampPosition .y y) ∈
        resume x y z e r0 setpoint ∧
      formatValue "G0 Z" (clampPosition .z z) [] ∈ resume x y z e r0 setpoint := by
  simp [resume]

theorem e_mem (h : lt zero (resumeSetpoint setpoint)) :
    formatValue "G92 E" e [] ∈ resume x y z e r0 setpoint := by
  simp [resume, h]

theorem parameter_x {v w : BinaryFloat} :
    parameter 88 (formatValue "G0 X" v " Y" ++ formatG 3 w) = numeral (formatG 3 v) := by
  have h : formatValue "G0 X" v " Y" ++ formatG 3 w =
      ofString "G0 " ++ 88 :: (formatG 3 v ++ (ofString " Y" ++ formatG 3 w)) := by
    simp only [formatValue, List.append_assoc]
    rfl
  rw [h, parameter_eq (by decide) (by rintro c ⟨⟩; rfl)]

theorem parameter_y {v w : BinaryFloat} :
    parameter 89 (formatValue "G0 X" v " Y" ++ formatG 3 w) = numeral (formatG 3 w) := by
  have h : formatValue "G0 X" v " Y" ++ formatG 3 w =
      (ofString "G0 X" ++ (formatG 3 v ++ [32])) ++ 89 :: (formatG 3 w ++ []) := by
    simp only [formatValue, List.append_assoc, List.append_nil]
    rfl
  have hb : 89 ∉ ofString "G0 X" ++ (formatG 3 v ++ [32]) := by
    simp only [List.mem_append, not_or]
    exact ⟨by decide, notMem_formatG (by decide), by decide⟩
  rw [h, parameter_eq hb (by rintro c ⟨⟩)]

theorem parameter_z {v : BinaryFloat} :
    parameter 90 (formatValue "G0 Z" v []) = numeral (formatG 3 v) :=
  @parameter_eq 90 "G0 " [] v (by decide) (by rintro c ⟨⟩)

theorem parameter_e {v : BinaryFloat} :
    parameter 69 (formatValue "G92 E" v []) = numeral (formatG 3 v) :=
  @parameter_eq 69 "G92 " [] v (by decide) (by rintro c ⟨⟩)

theorem exact_iff {x' y' z' e' : ℚ} :
    Exact (resume x y z e r0 setpoint) x' y' z' e' ↔
      numeral (formatG 3 (clampPosition .x x)) = some x' ∧
      numeral (formatG 3 (clampPosition .y y)) = some y' ∧
      numeral (formatG 3 (clampPosition .z z)) = some z' ∧
      (lt zero (resumeSetpoint setpoint) → numeral (formatG 3 e) = some e') := by
  constructor
  · intro h
    obtain ⟨hx, hy⟩ := h.xy _ move_mem.left rfl
    rw [parameter_x] at hx
    rw [parameter_y] at hy
    refine ⟨hx, hy, ?_, fun hheated => ?_⟩
    · rw [← parameter_z]
      exact h.z _ move_mem.right rfl
    · rw [← parameter_e]
      exact h.e _ (e_mem hheated) rfl
  · rintro ⟨hx, hy, hz, he⟩
    refine ⟨fun c hc hs => ?_, fun c hc hs => ?_, fun c hc hs => ?_⟩
    · rcases resume_cases hc with rfl | rfl | ⟨-, rfl⟩ | ⟨h, -, -⟩
      · exact ⟨parameter_x.trans hx, parameter_y.trans hy⟩
      · exact absurd hs Bool.false_ne_true
      · exact absurd hs Bool.false_ne_true
      · exact absurd hs (h ▸ Bool.false_ne_true)
    · rcases resume_cases hc with rfl | rfl | ⟨-, rfl⟩ | ⟨-, h, -⟩
      · exact absurd hs Bool.false_ne_true
      · exact parameter_z.trans hz
      · exact absurd hs Bool.false_ne_true
      · exact absurd hs (h ▸ Bool.false_ne_true)
    · rcases resume_cases hc with rfl | rfl | ⟨hheated, rfl⟩ | ⟨-, -, h⟩
      · exact absurd hs Bool.false_ne_true
      · exact absurd hs Bool.false_ne_true
      · exact parameter_e.trans (he hheated)
      · exact absurd hs (h ▸ Bool.false_ne_true)

end

-- A resume returns exactly to the saved position only if its numbers have at most three significant
-- digits; the position of the extruder counts when the resume heats.
theorem resume_exact_iff {kx ky kz ke : Nat} {nx ny nz ne : Bool} {r0 setpoint : BinaryFloat}
    (hx : validPositionValue .x (hundredths nx kx)) (hy : validPositionValue .y (hundredths ny ky))
    (hz : validPositionValue .z (hundredths nz kz)) (he : isFinite (hundredths ne ke)) :
    Exact (resume (hundredths nx kx) (hundredths ny ky) (hundredths nz kz) (hundredths ne ke) r0
        setpoint)
        (signed nx (kx / 100)) (signed ny (ky / 100)) (signed nz (kz / 100))
        (signed ne (ke / 100)) ↔
      Short 3 (kx / 100) ∧ Short 3 (ky / 100) ∧ Short 3 (kz / 100) ∧
        (lt zero (resumeSetpoint setpoint) → Short 3 (ke / 100)) := by
  have hfinite : ∀ {axis v}, validPositionValue axis v → isFinite v := fun h => by
    simp only [validPositionValue, Bool.and_eq_true] at h
    exact h.left.left
  rw [exact_iff, clampPosition_of_valid hx, clampPosition_of_valid hy, clampPosition_of_valid hz,
    hundredths_iff (hfinite hx), hundredths_iff (hfinite hy), hundredths_iff (hfinite hz),
    hundredths_iff he]

theorem resume_exact_short :
    Exact (resume (hundredths false 12300) (hundredths false 4550) (hundredths false 120)
        (hundredths false 34000) zero (ofNat 210))
        (signed false (12300 / 100)) (signed false (4550 / 100)) (signed false (120 / 100))
        (signed false (34000 / 100)) :=
  (@resume_exact_iff 12300 4550 120 34000 false false false false zero (ofNat 210) (by decide +kernel)
    (by decide +kernel) (by decide +kernel) (by decide +kernel)).mpr
    ⟨⟨123, by decide, 0, by norm_num⟩, ⟨455, by decide, -1, by norm_num⟩,
      ⟨12, by decide, -1, by norm_num⟩, fun _ => ⟨34, by decide, 1, by norm_num⟩⟩

-- The saved X is 123.45, and the head is sent to 123.
theorem resume_not_exact_long :
    ¬ Exact (resume (hundredths false 12345) (hundredths false 4550) (hundredths false 120)
        (hundredths false 34000) zero (ofNat 210))
        (12345 / 100) (4550 / 100) (120 / 100) (34000 / 100) := by
  intro h
  have hx := (h.xy (ofString "G0 X123 Y45.5") (by decide +kernel) (by decide)).left
  have hparameter : parameter 88 (ofString "G0 X123 Y45.5") = some 123 := by decide +kernel
  rw [hparameter, Option.some_inj] at hx
  norm_num at hx

end Deneb.MotionPolicy
