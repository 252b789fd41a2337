import DenebModel.Objects.Sha256
import DenebModel.Primitives.DigestStandards

namespace Deneb.Sha256

open Octets

-- The hash as the code computes it, block by block.
def hash : BlockHash State where
  size     := 64
  size_pos := blockSize_pos
  compress := transform

def standard (s : State) : Fips180.State :=
  ⟨s.a, s.b, s.c, s.d, s.e, s.f, s.g, s.h⟩

variable {ctx : Context} {block data message : Bytes} {s : State}

theorem loadBe32_eq (h : 4 ≤ block.length) : loadBe32 block = (readBe (block.take 4)).toUInt32 := by
  obtain ⟨a, b, c, d, rest, rfl⟩ := exists_four h
  exact or_word a b c d

theorem words_eq (h : block.length = 64) : words block = Fips180.schedule block := by
  have first : ((List.range 16).map fun i => loadBe32 (block.drop (i * 4))) = blockWords readBe block := by
    refine List.map_congr_left fun i hi => ?_
    have := List.mem_range.mp hi
    rw [loadBe32_eq (by rw [List.length_drop]; omega), Nat.mul_comm]
  rw [words, first]
  rfl

theorem standard_transform (h : block.length = 64) :
    standard (transform s block) = Fips180.compress (standard s) block := by
  have rounds (w : List UInt32) (is : List Nat) (s : State) :
      standard (is.foldl (round w) s) = is.foldl (Fips180.round w) (standard s) := by
    induction is generalizing s
    case nil => rfl
    case cons i is ih => exact ih _
  rw [transform, words_eq h, Fips180.compress, ← rounds]
  rfl

theorem standard_chain {field : Bytes} :
    standard (hash.chain s field message) = Fips180.hash.chain (standard s) field message :=
  BlockHash.chain_map standard rfl fun _ _ => standard_transform

-- What a context has gone through.
def Context.progress (ctx : Context) : hash.Progress :=
  ⟨ctx.state, ctx.buffer, ctx.short⟩

theorem progress_fill : (fill ctx data).progress = ctx.progress.absorb data := by
  induction ctx, data using fill.induct
  case case1 ctx =>
    rw [fill, dif_pos rfl]
    rfl
  case case2 ctx data hd take buffer hb ih =>
    rw [fill, dif_neg hd, dif_pos hb, ih]
    conv => rhs; rw [← List.take_append_drop take data, BlockHash.Progress.absorb_append]
    have full : ctx.progress.pending.length + (data.take take).length = hash.size := by
      rw [← List.length_append]
      exact hb
    rw [BlockHash.Progress.absorb_full full]
    rfl
  case case3 ctx data hd take buffer hb ih =>
    rw [fill, dif_neg hd, dif_neg hb, ih]
    conv => rhs; rw [← List.take_append_drop take data, BlockHash.Progress.absorb_append]
    have hl : ctx.progress.pending.length + (data.take take).length < hash.size := by
      have := ctx.short
      have : buffer.length ≤ 64 := by
        simp only [buffer, List.length_append, List.length_take]
        omega
      rw [← List.length_append]
      exact Nat.lt_of_le_of_ne this hb
    have ⟨hs, hp⟩ := BlockHash.Progress.absorb_short hl
    congr 1
    exact BlockHash.Progress.ext hs.symm hp.symm

theorem progress_update : (update ctx data).progress = ctx.progress.absorb data :=
  progress_fill

theorem bitCount_fill : (fill ctx data).bitCount = ctx.bitCount := by
  induction ctx, data using fill.induct
  case case1 ctx                            => rw [fill, dif_pos rfl]
  case case2 ctx data hd take buffer hb ih => rw [fill, dif_neg hd, dif_pos hb, ih]
  case case3 ctx data hd take buffer hb ih => rw [fill, dif_neg hd, dif_neg hb, ih]

theorem bitCount_update : (update ctx data).bitCount = (ctx.bitCount + data.length * 8) % 2 ^ 64 :=
  bitCount_fill

-- However a text is divided, the context goes through all of it.
theorem progress_updates {chunks : List Bytes} :
    (chunks.foldl update ctx).progress = ctx.progress.absorb chunks.flatten := by
  induction chunks generalizing ctx
  case nil => rfl
  case cons chunk chunks ih =>
    rw [List.foldl_cons, ih, progress_update, List.flatten_cons, BlockHash.Progress.absorb_append]

theorem bitCount_updates {chunks : List Bytes} (h : ctx.bitCount < 2 ^ 64) :
    (chunks.foldl update ctx).bitCount = (ctx.bitCount + 8 * chunks.flatten.length) % 2 ^ 64 := by
  induction chunks generalizing ctx
  case nil => exact (Nat.mod_eq_of_lt h).symm
  case cons chunk chunks ih =>
    have hu := @bitCount_update ctx chunk
    rw [List.foldl_cons, ih (by omega), hu, List.flatten_cons, List.length_append]
    omega

theorem storeBe32_eq : storeBe32 = fun v => be 4 v.toNat :=
  funext fun v => (be_word v).symm

theorem lenBe_eq {n : Nat} :
    ((List.range 8).map fun i => (n >>> ((7 - i) * 8)).toUInt8) = be 8 n := by
  have byte : ∀ i, n >>> ((7 - i) * 8) = n / 256 ^ (7 - i) := by
    intro i
    rw [Nat.shiftRight_eq_div_pow, Nat.pow_mul', show 2 ^ 8 = 256 by decide]
  simp only [byte]
  rfl

-- The bytes that `final` puts between the text and its length.
theorem pad_eq {n : Nat} :
    (0x80 :: .replicate 63 0 : Bytes).take (if n % 64 < 56 then 56 - n % 64 else 120 - n % 64) =
      0x80 :: .replicate (hash.zeros 8 n) 0 := by
  have hz : (if n % 64 < 56 then 56 - n % 64 else 120 - n % 64) = hash.zeros 8 n + 1 := by
    simp only [BlockHash.zeros, hash]
    split <;> omega
  have hl : hash.zeros 8 n < 64 := Nat.mod_lt _ (by decide)
  rw [hz, List.take_succ_cons, List.take_replicate, Nat.min_eq_left (by omega)]

theorem final_eq (hp : ctx.progress = (hash.start {}).absorb message)
    (hb : ctx.bitCount = 8 * message.length) : final ctx = Fips180.digest message := by
  have hl : ctx.buffer.length = message.length % 64 := by
    have := @BlockHash.Progress.length_pending _ hash (hash.start {}) message
    rw [← hp] at this
    exact this.trans (by simp [BlockHash.start, hash])
  have through : (update (update ctx ((0x80 :: .replicate 63 0 : Bytes).take
      (if ctx.buffer.length < 56 then 56 - ctx.buffer.length else 120 - ctx.buffer.length)))
      ((List.range 8).map fun i => (ctx.bitCount >>> ((7 - i) * 8)).toUInt8)).progress =
      hash.start (hash.chain {} (be 8 ctx.bitCount) message) := by
    rw [progress_update, progress_update, hp, hl, pad_eq, lenBe_eq, ← BlockHash.Progress.absorb_append,
      ← BlockHash.Progress.absorb_append, ← BlockHash.absorb_pad, BlockHash.pad, BlockHash.padding, length_be]
    rfl
  have state := congrArg (fun p => Fips180.output (standard p.state)) through
  have output : final ctx = Fips180.output (standard (update (update ctx
      ((0x80 :: .replicate 63 0 : Bytes).take
        (if ctx.buffer.length < 56 then 56 - ctx.buffer.length else 120 - ctx.buffer.length)))
      ((List.range 8).map fun i => (ctx.bitCount >>> ((7 - i) * 8)).toUInt8)).state) := by
    rw [final, storeBe32_eq]
    rfl
  rw [output]
  refine state.trans ?_
  rw [Fips180.digest, ← hb]
  exact congrArg Fips180.output standard_chain

-- The digest is the standard's, however the text is divided.
theorem digest_eq {chunks : List Bytes} (h : chunks.flatten.length < 2 ^ 61) :
    final (chunks.foldl update {}) = Fips180.digest chunks.flatten := by
  refine final_eq progress_updates ?_
  rw [bitCount_updates (by decide), show ({} : Context).bitCount = 0 from rfl, Nat.zero_add]
  exact Nat.mod_eq_of_lt (by omega)

end Deneb.Sha256
