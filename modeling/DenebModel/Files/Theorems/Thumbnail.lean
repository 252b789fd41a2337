import DenebModel.Files.Thumbnail
import Mathlib.Data.List.Nodup

namespace Deneb.Thumbnail

open Octets

variable {width height scaledW scaledH size scaled i : Nat} {place : Nat × Nat}

theorem unsigned_of_lt {n : Nat} (h : n < 2 ^ 32) : unsigned n = n :=
  Nat.mod_eq_of_lt h

theorem minus_of_le {a b : Nat} (ha : a < 2 ^ 32) (h : b ≤ a) : minus a b = a - b := by
  unfold minus unsigned
  omega

-- The rounded length of the shorter side.
theorem rounded_le (hs : 1 ≤ size) (h : i ≤ size) : (i * targetSize + size / 2) / size ≤ targetSize := by
  have : i * targetSize + size / 2 < size * 117 := by
    unfold targetSize
    omega
  exact Nat.le_of_lt_succ (Nat.div_lt_of_lt_mul this)

theorem shorter_bounds (hs : 1 ≤ size) (h : i ≤ size) :
    let n := unsigned ((i * targetSize + size / 2) / size)
    1 ≤ (if n = 0 then 1 else n) ∧ (if n = 0 then 1 else n) ≤ targetSize := by
  have hn : unsigned ((i * targetSize + size / 2) / size) ≤ targetSize :=
    Nat.le_trans (Nat.mod_le _ _) (rounded_le hs h)
  dsimp only
  split
  case isTrue  => decide
  case isFalse => exact ⟨by omega, hn⟩

theorem scaledSize_bounds (hw : 1 ≤ width) (hh : 1 ≤ height) :
    (1 ≤ (scaledSize width height).1 ∧ (scaledSize width height).1 ≤ targetSize) ∧
      1 ≤ (scaledSize width height).2 ∧ (scaledSize width height).2 ≤ targetSize := by
  by_cases h : height ≤ width
  case pos =>
    simp only [scaledSize, if_pos h]
    exact ⟨by decide, shorter_bounds hw h⟩
  case neg =>
    simp only [scaledSize, if_neg h]
    exact ⟨shorter_bounds hh (by omega), by decide⟩

theorem source_lt (hs : 1 ≤ size) (hl : size ≤ 4096) (h : i < scaled) : source size scaled i < size := by
  have hlt : i * size / scaled < size :=
    Nat.div_lt_of_lt_mul (Nat.mul_lt_mul_of_pos_right h hs)
  rw [source, unsigned_of_lt (by omega)]
  rwa [if_neg (by omega)]

theorem mem_places : place ∈ places scaledW scaledH ↔ place.1 < scaledH ∧ place.2 < scaledW := by
  obtain ⟨y, x⟩ := place
  simp only [places, List.pair_mem_product, List.mem_range]

theorem sourcePixel_lt (hw : 1 ≤ width ∧ width ≤ 4096) (hh : 1 ≤ height ∧ height ≤ 4096)
    (h : place ∈ places scaledW scaledH) :
    sourcePixel width height scaledW scaledH place < width * height := by
  have ⟨hy, hx⟩ := mem_places.mp h
  have row := source_lt hh.left hh.right hy
  have column := source_lt hw.left hw.right hx
  calc
    _ < source height scaledH place.1 * width + width := Nat.add_lt_add_left column _
    _ = (source height scaledH place.1 + 1) * width := (Nat.succ_mul _ _).symm
    _ ≤ height * width := Nat.mul_le_mul_right _ row
    _ = width * height := Nat.mul_comm _ _

-- The scaled picture is in the middle of the target.
theorem placed_lt (hs : scaled ≤ targetSize) (h : i < scaled) :
    unsigned (i + offset scaled) = i + (targetSize - scaled) / 2 ∧
      i + (targetSize - scaled) / 2 < targetSize := by
  rw [offset, minus_of_le (by decide) hs]
  unfold targetSize at hs ⊢
  exact ⟨unsigned_of_lt (by omega), by omega⟩

theorem targetPixel_nodup (hw : scaledW ≤ targetSize) (hh : scaledH ≤ targetSize) :
    ((places scaledW scaledH).map (targetPixel scaledW scaledH)).Nodup := by
  refine List.Nodup.map_on ?_ (List.Nodup.product List.nodup_range List.nodup_range)
  intro p hp q hq he
  have ⟨hpy, hpx⟩ := mem_places.mp hp
  have ⟨hqy, hqx⟩ := mem_places.mp hq
  have ⟨py, hpy⟩ := placed_lt hh hpy
  have ⟨px, hpx⟩ := placed_lt hw hpx
  have ⟨qy, hqy⟩ := placed_lt hh hqy
  have ⟨qx, hqx⟩ := placed_lt hw hqx
  simp only [targetPixel, targetRow, targetColumn, py, px, qy, qx] at he
  unfold targetSize at he hpy hpx hqy hqx
  exact Prod.ext (by omega) (by omega)

theorem blend_le {c bg alpha : UInt8} : blend c bg alpha ≤ 255 := by
  have ha := alpha.toNat_lt
  have hc : c.toNat * alpha.toNat ≤ 255 * alpha.toNat := Nat.mul_le_mul_right _ (Nat.le_of_lt_succ c.toNat_lt)
  have hb : bg.toNat * (255 - alpha.toNat) ≤ 255 * (255 - alpha.toNat) :=
    Nat.mul_le_mul_right _ (Nat.le_of_lt_succ bg.toNat_lt)
  rw [blend, minus_of_le (by decide) (by omega), unsigned_of_lt (by omega)]
  omega

-- The loop over the scaled picture stays in both buffers and draws no pixel twice.
theorem scaling_safe (hw : 1 ≤ width ∧ width ≤ 4096) (hh : 1 ≤ height ∧ height ≤ 4096)
    (hs : scaledSize width height = (scaledW, scaledH)) :
    (1 ≤ scaledW ∧ scaledW ≤ targetSize) ∧ (1 ≤ scaledH ∧ scaledH ≤ targetSize) ∧
    (∀ place ∈ places scaledW scaledH,
      sourcePixel width height scaledW scaledH place < width * height ∧
      targetRow scaledH place < targetSize ∧ targetColumn scaledW place < targetSize) ∧
    ((places scaledW scaledH).map (targetPixel scaledW scaledH)).Nodup ∧
    ∀ c bg alpha, blend c bg alpha ≤ 255 := by
  have ⟨hsw, hsh⟩ := scaledSize_bounds hw.left hh.left
  rw [hs] at hsw hsh
  refine ⟨hsw, hsh, fun place h => ?_, targetPixel_nodup hsw.right hsh.right, fun _ _ _ => blend_le⟩
  have ⟨hy, hx⟩ := mem_places.mp h
  have ⟨row, hrow⟩ := placed_lt hsh.right hy
  have ⟨column, hcolumn⟩ := placed_lt hsw.right hx
  exact ⟨sourcePixel_lt hw hh h, by rwa [targetRow, row], by rwa [targetColumn, column]⟩

-- A picture of which only a line is left.
theorem scaling_line : (0, 115) ∈ places 116 1 ∧ sourcePixel 4096 1 116 1 (0, 115) < 4096 := by
  have ⟨_, _, inside, _⟩ := @scaling_safe 4096 1 116 1 (by decide) (by decide) (by decide)
  have last : (0, 115) ∈ places 116 1 := by decide
  exact ⟨last, (inside _ last).left⟩

end Deneb.Thumbnail
