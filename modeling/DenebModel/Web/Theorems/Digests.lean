import DenebModel.Objects.Theorems.Sha256
import DenebModel.Primitives.Theorems.DigestStandards
import DenebModel.Web.Theorems.Md5

-- Both digests against their standards.
namespace Deneb.Digests

open Octets

-- The tables of the RFC and of the code differ in the constant of step 26.
theorem sine_ne : Rfc1321.sines.getD 25 0 ≠ Md5.sines.getD 25 0 := by
  decide

theorem sine_eq : ∀ i < 64, i ≠ 25 → Rfc1321.sines.getD i 0 = Md5.sines.getD i 0 := by
  decide

section

variable {garbage message : Bytes} {chunks : List Bytes}

theorem md5_eq_iff :
    Rfc1321.digestWith Md5.sines message = Rfc1321.digest message ↔
      Rfc1321.Merges Rfc1321.sines Md5.sines message := by
  rw [← Rfc1321.chain_eq_iff (by decide) sine_ne sine_eq]
  constructor
  case mp  => exact fun h => Rfc1321.output_inj h.symm
  case mpr => exact fun h => congrArg Rfc1321.output h.symm

-- The digests do not depend on the division of a text, and the SHA-256 digest is the standard's. The
-- MD5 digest is that of the code's own table, and so the standard's only by a coincidence that no
-- text of a single block brings about.
theorem digests_standard (hg : garbage.length = 64) (h : chunks.flatten.length < 2 ^ 61) :
    ((chunks.foldl Md5.Memory.update { buf := garbage }).final = Rfc1321.digest chunks.flatten ∧
      Sha256.final (chunks.foldl Sha256.update {}) = Fips180.digest chunks.flatten ↔
        Rfc1321.Merges Rfc1321.sines Md5.sines chunks.flatten) ∧
    (chunks.flatten.length ≤ 55 → ¬Rfc1321.Merges Rfc1321.sines Md5.sines chunks.flatten) ∧
    (chunks.foldl Md5.Memory.update { buf := garbage }).final =
      Rfc1321.digestWith Md5.sines chunks.flatten ∧
    Sha256.final (chunks.foldl Sha256.update {}) = Fips180.digest chunks.flatten := by
  have md5 := Md5.memory_digest hg h
  have sha256 := Sha256.digest_eq h
  refine ⟨?_, Rfc1321.not_merges, md5, sha256⟩
  rw [md5, and_iff_left sha256]
  exact md5_eq_iff

end

-- A text that is fed in two pieces.
theorem abc_digest :
    ([[97], [98, 99]].foldl Md5.Memory.update { buf := .replicate 64 0 }).final ≠
      Rfc1321.digest [97, 98, 99] := by
  have ⟨standard, short, _, sha256⟩ := @digests_standard (.replicate 64 0) [[97], [98, 99]]
    List.length_replicate (by decide)
  exact fun h => short (by decide) (standard.mp ⟨h, sha256⟩)

-- The digest of the empty text is not the standard's.
theorem empty_digest :
    ¬∀ (garbage : Bytes) (chunks : List Bytes), garbage.length = 64 → chunks.flatten.length < 2 ^ 61 →
      (chunks.foldl Md5.Memory.update { buf := garbage }).final = Rfc1321.digest chunks.flatten ∧
        Sha256.final (chunks.foldl Sha256.update {}) = Fips180.digest chunks.flatten := by
  intro h
  have standard := (h (.replicate 64 0) [] List.length_replicate (by decide)).left
  rw [Md5.memory_digest List.length_replicate (by decide), md5_eq_iff] at standard
  exact Rfc1321.not_merges (by decide) standard

end Deneb.Digests
