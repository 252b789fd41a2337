import DenebModel.Objects.GcodeStream
import DenebModel.Primitives.Theorems.Numeral

-- The targets of rewritten heater waits.
namespace Deneb

open CString BinaryFloat

inductive Heater
  | nozzle | bed
  deriving DecidableEq

def Heater.setCommand : Heater → CString
  | nozzle => "M104 S"
  | bed    => "M140 S"

namespace GcodeRewrite

-- The heater that a line waits for, if the line is a wait in the spelling that the rewriter knows.
def waitHeater (line : CString) : Option Heater :=
  if commandStartsWith line "M190" then some .bed
  else if commandStartsWith line "M109" then some .nozzle
  else none

-- The rewritten line sets a heater to a number and waits for it to get there.
structure WaitsFor (rewrite : GcodeRewrite) (heater : Heater) (q : ℚ) : Prop where
  command : ∃ number, rewrite.commands = [heater.setCommand ++ number] ∧ numeral number = some q
  bed     : rewrite.waitForBed = decide (heater = .bed)
  nozzle  : rewrite.waitForNozzle = decide (heater = .nozzle)
  target  : toRat rewrite.waitTarget = toRat (nearest q)

-- The first `S` of the line is followed by a numeral for `q`.
def Requests (line : CString) (q : ℚ) : Prop :=
  ∃ before letter text after, line = before ++ letter :: (text ++ after) ∧
    (∀ c ∈ before, toUpper c ≠ 83) ∧ toUpper letter = 83 ∧ numeral text = some q ∧ Ends after

-- A number that is zero or that a `float` represents with full precision.
def InRange (q : ℚ) : Prop :=
  q = 0 ∨ (2 : ℚ) ^ (-126 : Int) ≤ q ∧ q < 2 ^ (127 : Int)

section

variable {line : CString} {heater : Heater} {q : ℚ}

theorem commandStartsWith_ne {p r : CString} (h : commandStartsWith line p)
    (hlen : r.length = p.length) (hne : r ≠ p) : commandStartsWith line r = false := by
  rw [Bool.eq_false_iff]
  intro hr
  simp only [commandStartsWith, Bool.and_eq_true, startsWith, List.isPrefixOf_iff_prefix] at h hr
  obtain ⟨t, ht⟩ := h.left
  obtain ⟨u, hu⟩ := hr.left
  exact hne (List.append_inj_left (hu.trans ht.symm) hlen)

theorem line_of_waitHeater (h : waitHeater line = some heater) :
    GcodeRewrite.line line =
      { commands := [heater.setCommand ++ formatG 3 (waitTargetOf line)],
        waitForBed := decide (heater = .bed),
        waitForNozzle := decide (heater = .nozzle),
        waitTarget := waitTargetOf line } := by
  rw [waitHeater] at h
  split_ifs at h with hbed hnozzle
  · injection h with h
    subst h
    have hsilent := commandStartsWith_ne (r := "M117") hbed (by decide) (by decide)
    simp [GcodeRewrite.line, waitCommand, hbed, hsilent, formatValue, Heater.setCommand]
  · injection h with h
    subst h
    have hsilent := commandStartsWith_ne (r := "M117") hnozzle (by decide) (by decide)
    simp [GcodeRewrite.line, waitCommand, hbed, hnozzle, hsilent, formatValue, Heater.setCommand]

theorem scanFloatParam_of_absent (h : ∀ c ∈ line, toUpper c ≠ 83) : scanFloatParam 83 line = none := by
  induction line
  case nil => rfl
  case cons c line hi =>
    have hs : toUpper 83 = 83 := rfl
    rw [scanFloatParam, hs, if_neg (h c List.mem_cons_self)]
    exact hi fun d hd => h d (.tail _ hd)

theorem scanFloatParam_skip {before rest : CString} (h : ∀ c ∈ before, toUpper c ≠ 83) :
    scanFloatParam 83 (before ++ rest) = scanFloatParam 83 rest := by
  induction before
  case nil => rfl
  case cons c before hi =>
    have hs : toUpper 83 = 83 := rfl
    rw [List.cons_append, scanFloatParam, hs, if_neg (h c List.mem_cons_self)]
    exact hi fun d hd => h d (.tail _ hd)

theorem scanFloatParam_of_requests (h : Requests line q) :
    ∃ negative a b, 0 < b ∧ q = signed negative ((a : Nat) / (b : Nat)) ∧
      scanFloatParam 83 line = some (round single negative a b) := by
  obtain ⟨before, letter, text, after, rfl, hbefore, hletter, htext, hafter⟩ := h
  obtain ⟨negative, a, b, hb, hq, hfloat⟩ := float_numeral hafter htext
  refine ⟨negative, a, b, hb, hq, ?_⟩
  have hs : toUpper 83 = 83 := rfl
  rw [scanFloatParam_skip hbefore, scanFloatParam, hletter, hs, if_pos rfl, hfloat]

-- The target of a short request: what is printed for it, and what is waited for.
theorem waitTargetOf_requests (h : Requests line q) (hq : 0 ≤ q) (hrange : InRange q)
    (hshort : Short 3 q) :
    numeral (formatG 3 (waitTargetOf line)) = some q ∧
      toRat (waitTargetOf line) = toRat (nearest q) := by
  obtain ⟨negative, a, b, hb, rfl, hscan⟩ := scanFloatParam_of_requests h
  rcases Nat.eq_zero_or_pos a with rfl | ha
  · have htarget : waitTargetOf line = .fin negative 0 0 := by
      have hlt : lt (.fin negative 0 0) zero = false := by cases negative <;> rfl
      rw [waitTargetOf, hscan]
      simp [BinaryFloat.round, hlt]
    have hzero : signed negative ((0 : Nat) / (b : ℚ)) = 0 := by cases negative <;> simp [signed]
    rw [htarget, hzero]
    cases negative <;> decide +kernel
  · have hpos : (0 : ℚ) < a / b := div_pos (Nat.cast_pos.mpr ha) (Nat.cast_pos.mpr hb)
    have hsign : negative = false := by
      cases negative
      · rfl
      · exact absurd hq (not_le.mpr (neg_neg_iff_pos.mpr hpos))
    subst hsign
    rcases hrange with hzero | ⟨hlo, hhi⟩
    · exact absurd hzero hpos.ne'
    · obtain ⟨m, e, hround⟩ := @round_finite false a b ha hb hlo hhi
      have htarget : waitTargetOf line = round single false a b := by
        have hlt : ¬ lt (.fin false m e) zero := by
          rw [zero, lt_iff]
          simpa [toRat, signed, magnitude] using @magnitude_nonneg m e
        rw [waitTargetOf, hscan, Option.getD_some, hround, if_neg hlt]
      have hnearest : nearest (signed false (a / b)) = round single false a b := nearest_div hb
      rw [htarget, hnearest, hround]
      exact ⟨(numeral_formatG_iff (by decide) (by decide) ha hb hlo hround).mpr hshort, rfl⟩

end

-- A wait that the rewriter recognises keeps the target that `S` gives it, and without `S` the target
-- is zero.
theorem wait_target_preserved {line : CString} {heater : Heater}
    (h : waitHeater line = some heater) :
    (∀ q, Requests line q → 0 ≤ q → InRange q → Short 3 q →
        WaitsFor (GcodeRewrite.line line) heater q) ∧
      ((∀ c ∈ line, toUpper c ≠ 83) → WaitsFor (GcodeRewrite.line line) heater 0) := by
  rw [line_of_waitHeater h]
  constructor
  · intro q hq hnonneg hrange hshort
    obtain ⟨hnumber, htarget⟩ := waitTargetOf_requests hq hnonneg hrange hshort
    exact ⟨⟨_, rfl, hnumber⟩, rfl, rfl, htarget⟩
  · intro habsent
    have htarget : waitTargetOf line = zero := by
      rw [waitTargetOf, scanFloatParam_of_absent habsent]
      rfl
    have hzero : numeral (formatG 3 zero) = some 0 ∧ toRat zero = toRat (nearest 0) := by
      decide +kernel
    rw [htarget]
    exact ⟨⟨_, rfl, hzero.left⟩, rfl, rfl, hzero.right⟩

theorem wait_target_preserved_short :
    WaitsFor (GcodeRewrite.line "  M190 T0 S60.5 ; bed") .bed (121 / 2) ∧
      WaitsFor (GcodeRewrite.line "M109") .nozzle 0 := by
  refine ⟨(wait_target_preserved (by decide)).left (121 / 2) ?_ (by norm_num) ?_ ?_,
    (wait_target_preserved (by decide)).right (by decide)⟩
  · exact ⟨"  M190 T0 ", 83, "60.5", " ; bed", by decide, by decide, by decide, by decide +kernel,
      by rintro c ⟨⟩; exact .inl rfl⟩
  · exact .inr ⟨by norm_num, by norm_num⟩
  · exact ⟨605, by decide, -1, by norm_num⟩

-- The target that `R` gives is not read, so the heater is switched off.
theorem wait_target_not_preserved : ¬ WaitsFor (GcodeRewrite.line "M109 R200") .nozzle 200 := by
  have hline : (GcodeRewrite.line "M109 R200").commands = [ofString "M104 S" ++ ofString "0"] := by
    decide +kernel
  have hzero : numeral "0" = some 0 := by decide +kernel
  rintro ⟨⟨number, hcommands, hnumber⟩, -, -, -⟩
  rw [hline, List.cons.injEq] at hcommands
  have hnumber' : ofString "0" = number := List.append_cancel_left hcommands.left
  rw [← hnumber', hzero, Option.some_inj] at hnumber
  norm_num at hnumber

end GcodeRewrite

end Deneb
