import DenebModel.Primitives.DigestStandards
import DenebModel.Web.Md5Buffer

namespace Deneb.Md5

open Octets

def standard (s : State) : Rfc1321.State :=
  ⟨s.a, s.b, s.c, s.d⟩

section

variable {s : State} {block data message : Bytes} {x : List UInt32}

theorem words_eq {n : Nat} (h : block.length = 4 * n) :
    words n block = (List.range n).map fun i => (readLe ((block.drop (4 * i)).take 4)).toUInt32 := by
  induction n generalizing block
  case zero => rfl
  case succ n ih =>
    obtain ⟨a, b, c, d, rest, rfl⟩ := exists_four (show 4 ≤ block.length by omega)
    have hr : rest.length = 4 * n := by
      rw [List.length_cons, List.length_cons, List.length_cons, List.length_cons] at h
      omega
    have swap (p q r t : UInt32) : p ||| q ||| r ||| t = t ||| r ||| q ||| p := by
      ac_rfl
    have first : a.toUInt32 ||| b.toUInt32 <<< 8 ||| c.toUInt32 <<< 16 ||| d.toUInt32 <<< 24 =
        (readLe [a, b, c, d]).toUInt32 := by
      rw [swap]
      exact or_word d c b a
    rw [words, first, ih hr, List.range_succ_eq_map, List.map_cons, List.map_map]
    rfl

-- The steps of the four rounds one after the other.
theorem round_standard {round : Round} {r i : Nat} (hr : (round, r) ∈ rounds.zipIdx) (hi : i < 16) :
    standard (round.step x (sines.getD (16 * r + i) 0) i s) =
      Rfc1321.step sines x (standard s) (16 * r + i) := by
  have hm : (16 * r + i) % 4 = i % 4 := by omega
  have hd : (16 * r + i) / 16 = r := by omega
  simp only [rounds, List.zipIdx_cons, List.zipIdx_nil, List.mem_cons, List.not_mem_nil, or_false,
    Prod.mk.injEq] at hr
  rcases hr with ⟨rfl, rfl⟩ | ⟨rfl, rfl⟩ | ⟨rfl, rfl⟩ | ⟨rfl, rfl⟩
  all_goals simp only [Rfc1321.step, Rfc1321.mix, Rfc1321.index, Rfc1321.distance, hd, hm]
  case inl =>
    rw [show 16 * 0 + i = i by omega]
    exact Rfc1321.State.ext rfl (UInt32.add_comm _ _) rfl rfl
  case inr.inl =>
    rw [show (5 * (16 * (0 + 1) + i) + 1) % 16 = (1 + 5 * i) % 16 by omega]
    exact Rfc1321.State.ext rfl (UInt32.add_comm _ _) rfl rfl
  case inr.inr.inl =>
    rw [show (3 * (16 * (0 + 1 + 1) + i) + 5) % 16 = (5 + 3 * i) % 16 by omega]
    exact Rfc1321.State.ext rfl (UInt32.add_comm _ _) rfl rfl
  case inr.inr.inr =>
    rw [show 7 * (16 * (0 + 1 + 1 + 1) + i) % 16 = 7 * i % 16 by omega]
    exact Rfc1321.State.ext rfl (UInt32.add_comm _ _) rfl rfl

-- All steps with their round, its number and their number in it.
def steps : List (Round × Nat × Nat) :=
  rounds.zipIdx.flatMap fun r => (List.range 16).map fun i => (r.1, r.2, i)

theorem mem_steps {t : Round × Nat × Nat} (h : t ∈ steps) : (t.1, t.2.1) ∈ rounds.zipIdx ∧ t.2.2 < 16 := by
  obtain ⟨r, hr, ht⟩ := List.mem_flatMap.mp h
  obtain ⟨i, hi, rfl⟩ := List.mem_map.mp ht
  exact ⟨hr, List.mem_range.mp hi⟩

theorem map_steps : steps.map (fun t => 16 * t.2.1 + t.2.2) = List.range 64 := by
  decide

theorem foldl_standard {l : List (Round × Nat × Nat)}
    (h : ∀ t ∈ l, (t.1, t.2.1) ∈ rounds.zipIdx ∧ t.2.2 < 16) :
    standard (l.foldl (fun s t => t.1.step x (sines.getD (16 * t.2.1 + t.2.2) 0) t.2.2 s) s) =
      (l.map fun t => 16 * t.2.1 + t.2.2).foldl (Rfc1321.step sines x) (standard s) := by
  induction l generalizing s
  case nil => rfl
  case cons t l ih =>
    have ⟨hr, hi⟩ := h t (.head _)
    rw [List.foldl_cons, ih fun t hm => h t (.tail _ hm), round_standard hr hi]
    rfl

theorem standard_transform (h : block.length = 64) :
    standard (transform s block) = Rfc1321.compress sines (standard s) block := by
  have words : words 16 block = blockWords readLe block := words_eq h
  simp only [transform, words, Rfc1321.compress]
  rw [← map_steps, ← foldl_standard fun t => mem_steps]
  rfl

end

-- The hash as the code computes it, block by block.
def hash : BlockHash State where
  size     := 64
  size_pos := blockSize_pos
  compress := transform

open BlockHash.Progress

section

variable {s : State} {buf src data message : Bytes} {p : hash.Progress} {i n fuel : Nat}

theorem blocks_eq (h : data.length ≤ fuel) :
    blocks fuel s data = (((hash.start s).absorb data).state, ((hash.start s).absorb data).pending) := by
  induction fuel generalizing s data
  case zero =>
    rw [List.eq_nil_of_length_eq_zero (Nat.le_zero.mp h)]
    rfl
  case succ fuel ih =>
    rw [blocks]
    split
    case isTrue hl =>
      have ⟨hs, hp⟩ := @absorb_short _ hash (hash.start s) data (by simpa [BlockHash.start, hash] using hl)
      rw [hs, hp]
      rfl
    case isFalse hl =>
      have full : (hash.start s).pending.length + (data.take 64).length = hash.size := by
        rw [List.length_take, Nat.min_eq_left (by omega)]
        rfl
      rw [ih (by rw [List.length_drop]; omega)]
      conv => rhs; rw [← List.take_append_drop 64 data, absorb_append, absorb_full full]
      rfl

theorem length_copy (h : i + src.length ≤ buf.length) : (copy buf i src).length = buf.length := by
  simp only [copy, List.length_append, List.length_take, List.length_drop]
  omega

theorem take_copy (h : i + src.length ≤ buf.length) :
    (copy buf i src).take (i + src.length) = buf.take i ++ src := by
  have hl : (buf.take i ++ src).length = i + src.length := by
    rw [List.length_append, List.length_take, Nat.min_eq_left (by omega)]
  rw [copy, ← hl, List.take_left]

theorem copy_full (h : i + src.length = buf.length) : copy buf i src = buf.take i ++ src := by
  rw [copy, List.drop_of_length_le (by omega), List.append_nil]

-- The memory of a context that has gone through what `p` has.
structure Memory.Holds (m : Memory) (p : hash.Progress) : Prop where
  state  : m.state = p.state
  idx    : m.count % 64 = p.pending.length
  length : m.buf.length = 64
  used   : m.buf.take p.pending.length = p.pending

variable {m : Memory}

theorem Memory.Holds.takeBlocks (hp : p = hash.start m.state) (hl : m.buf.length = 64)
    (hi : m.count % 64 = (p.absorb data).pending.length) :
    (m.takeBlocks data).Holds (p.absorb data) := by
  have short := (p.absorb data).short
  have fits : 0 + (p.absorb data).pending.length ≤ m.buf.length := by
    rw [hl, Nat.zero_add]
    exact Nat.le_of_lt short
  have used := take_copy fits
  rw [Nat.zero_add, List.take_zero, List.nil_append] at used
  rw [Memory.takeBlocks, blocks_eq (Nat.le_refl _), ← hp]
  exact ⟨rfl, hi, (length_copy fits).trans hl, used⟩

theorem Memory.Holds.update (h : m.Holds p) : (m.update data).Holds (p.absorb data) := by
  have idx : (m.count + data.length) % 2 ^ 64 % 64 = (p.absorb data).pending.length := by
    have := h.idx
    rw [length_pending, show hash.size = 64 from rfl]
    omega
  have short : p.pending.length < 64 := p.short
  have hl := h.length
  simp only [Memory.update, h.idx]
  split
  case isTrue hz =>
    refine Memory.Holds.takeBlocks ?_ hl idx
    exact BlockHash.Progress.ext h.state.symm (List.eq_nil_of_length_eq_zero hz)
  case isFalse hz =>
    split
    case isTrue hd =>
      have full : p.pending.length + (data.take (64 - p.pending.length)).length = hash.size := by
        rw [List.length_take, Nat.min_eq_left hd, show hash.size = 64 from rfl]
        omega
      have buf := copy_full (full.trans hl.symm)
      rw [h.used] at buf
      have through : p.absorb data =
          (hash.start (hash.compress p.state (p.pending ++ data.take (64 - p.pending.length)))).absorb
            (data.drop (64 - p.pending.length)) := by
        conv => lhs; rw [← List.take_append_drop (64 - p.pending.length) data, absorb_append, absorb_full full]
      rw [through] at idx ⊢
      refine Memory.Holds.takeBlocks ?_ ((length_copy (Nat.le_of_eq (full.trans hl.symm))).trans hl) idx
      rw [buf, h.state]
      rfl
    case isFalse hd =>
      have hs : p.pending.length + data.length < hash.size := by
        rw [show hash.size = 64 from rfl]
        omega
      have ⟨state, pending⟩ := absorb_short hs
      have fits : p.pending.length + data.length ≤ m.buf.length := by
        rw [hl]
        exact Nat.le_of_lt hs
      refine ⟨h.state.trans state.symm, idx, (length_copy fits).trans hl, ?_⟩
      rw [pending, List.length_append, take_copy fits, h.used]

theorem Memory.Holds.updates {chunks : List Bytes} (h : m.Holds p) :
    (chunks.foldl Memory.update m).Holds (p.absorb chunks.flatten) := by
  induction chunks generalizing m p
  case nil => exact h
  case cons chunk chunks ih =>
    rw [List.foldl_cons, List.flatten_cons, absorb_append]
    exact ih h.update

theorem count_updates {chunks : List Bytes} (h : m.count < 2 ^ 64) :
    (chunks.foldl Memory.update m).count = (m.count + chunks.flatten.length) % 2 ^ 64 := by
  induction chunks generalizing m
  case nil => exact (Nat.mod_eq_of_lt h).symm
  case cons chunk chunks ih =>
    have hc : (m.update chunk).count = (m.count + chunk.length) % 2 ^ 64 := by
      simp only [Memory.update]
      split
      case isTrue  => rfl
      case isFalse => split <;> rfl
    rw [List.foldl_cons, ih (by omega), hc, List.flatten_cons, List.length_append]
    omega

-- The padding fills the block that the text ends in, or that one and another.
theorem absorb_padding {field : Bytes} (hf : field.length = 8) (hn : p.pending.length = n % 64) :
    (p.absorb (hash.padding field n)).state =
      if 56 < p.pending.length + 1 then
        transform (transform p.state (p.pending ++ [0x80] ++ .replicate (64 - (p.pending.length + 1)) 0))
          (.replicate 56 0 ++ field)
      else transform p.state (p.pending ++ [0x80] ++ .replicate (56 - (p.pending.length + 1)) 0 ++ field) := by
  have short : p.pending.length < 64 := p.short
  have size : hash.size = 64 := rfl
  split
  case isTrue hk =>
    have two : hash.padding field n =
        (0x80 :: .replicate (64 - (p.pending.length + 1)) 0) ++ (.replicate 56 0 ++ field) := by
      have zeros : hash.zeros field.length n = 64 - (p.pending.length + 1) + 56 := by
        rw [BlockHash.zeros, hf, size]
        omega
      rw [BlockHash.padding, zeros, List.replicate_add, List.append_assoc]
      rfl
    have first : p.pending.length + (0x80 :: List.replicate (64 - (p.pending.length + 1)) 0 : Bytes).length =
        hash.size := by
      rw [List.length_cons, List.length_replicate, size]
      omega
    have second (s : State) :
        (hash.start s).pending.length + (List.replicate 56 0 ++ field).length = hash.size := by
      rw [List.length_append, List.length_replicate, hf]
      rfl
    rw [two, absorb_append, absorb_full first, absorb_full (second _), List.append_assoc]
    rfl
  case isFalse hk =>
    have one : p.pending.length + (hash.padding field n).length = hash.size := by
      rw [BlockHash.padding, BlockHash.zeros, List.length_cons, List.length_append, List.length_replicate, hf,
        size]
      omega
    have zeros : hash.zeros field.length n = 56 - (p.pending.length + 1) := by
      rw [BlockHash.zeros, hf, size]
      omega
    rw [absorb_full one, BlockHash.padding, zeros, List.append_assoc, List.append_assoc]
    rfl

theorem bits_eq {bits : Nat} : ((List.range 8).map fun i => (bits >>> (i * 8)).toUInt8) = le 8 bits := by
  simp only [List.range, List.range.loop, List.map_cons, List.map_nil, le, be, Nat.shiftRight_eq_div_pow]
  rfl

-- The last block ends with the length of the text.
theorem close_eq {bits : Nat} (hl : m.buf.length = 64) (hi : i ≤ 56) :
    m.close bits i = transform m.state (m.buf.take i ++ .replicate (56 - i) 0 ++ le 8 bits) := by
  have zeros : i + (List.replicate (56 - i) (0 : UInt8)).length = 56 := by
    rw [List.length_replicate]
    omega
  have buf := @take_copy m.buf (.replicate (56 - i) 0) i (by omega)
  have size := @length_copy m.buf (.replicate (56 - i) 0) i (by omega)
  rw [zeros] at buf
  rw [Memory.close, bits_eq, copy_full (by rw [size, hl, length_le]), buf]

theorem le_word (v : UInt32) :
    le 4 v.toNat = [v.toUInt8, (v >>> 8).toUInt8, (v >>> 16).toUInt8, (v >>> 24).toUInt8] := by
  rw [le, be_word]
  rfl

-- The state that `final` ends with.
def Memory.closed (m : Memory) (bits idx : Nat) : State :=
  let buf := copy m.buf idx [0x80]
  if 56 < idx + 1 then
    let buf := copy buf (idx + 1) (.replicate (64 - (idx + 1)) 0)
    Memory.close { m with state := transform m.state buf, buf } bits 0
  else Memory.close { m with buf } bits (idx + 1)

theorem final_eq_closed :
    m.final = Rfc1321.output (standard (m.closed (m.count * 8 % 2 ^ 64) (m.count % 64))) := by
  simp only [Memory.final, Rfc1321.output, le_word]
  rfl

theorem Memory.Holds.closed {bits : Nat} (h : m.Holds p) (hn : p.pending.length = n % 64) :
    m.closed bits p.pending.length = (p.absorb (hash.padding (le 8 bits) n)).state := by
  have short : p.pending.length < 64 := p.short
  have hl := h.length
  have buf := @take_copy m.buf [0x80] p.pending.length (by simp; omega)
  have size := @length_copy m.buf [0x80] p.pending.length (by simp; omega)
  rw [List.length_singleton, h.used] at buf
  rw [absorb_padding length_le hn]
  unfold Memory.closed
  split
  case isTrue hk =>
    have whole := @copy_full (copy m.buf p.pending.length [0x80])
      (.replicate (64 - (p.pending.length + 1)) 0) (p.pending.length + 1) (by
        rw [size, hl, List.length_replicate]
        omega)
    have length := @length_copy (copy m.buf p.pending.length [0x80])
      (.replicate (64 - (p.pending.length + 1)) 0) (p.pending.length + 1) (by
        rw [size, hl, List.length_replicate]
        omega)
    rw [close_eq (length.trans (size.trans hl)) (Nat.zero_le 56)]
    simp only [whole, buf, h.state]
    rfl
  case isFalse hk =>
    rw [close_eq (size.trans hl) (Nat.le_of_not_lt hk)]
    simp only [buf, h.state]

-- A context that keeps only the bytes in use.
structure Context.Holds (ctx : Context) (p : hash.Progress) : Prop where
  state : ctx.state = p.state
  buf   : ctx.buf = p.pending

variable {ctx : Context}

theorem Context.Holds.update (h : ctx.Holds p) : (update ctx data).Holds (p.absorb data) := by
  have hp : (hash.start ctx.state).absorb ctx.buf = p := by
    have ⟨state, pending⟩ := @absorb_short _ hash (hash.start ctx.state) ctx.buf (by
      rw [h.buf]
      exact (Nat.zero_add _).symm ▸ p.short)
    exact BlockHash.Progress.ext (state.trans h.state) (pending.trans h.buf)
  have through : (hash.start ctx.state).absorb (ctx.buf ++ data) = p.absorb data := by
    rw [absorb_append, hp]
  have enough : (ctx.buf ++ data).length ≤ ctx.buf.length + data.length :=
    Nat.le_of_eq List.length_append
  rw [Md5.update, blocks_eq enough, through]
  exact ⟨rfl, rfl⟩

theorem Context.Holds.updates {texts : List CString} (h : ctx.Holds p) :
    (texts.foldl Md5.update ctx).Holds (p.absorb texts.flatten) ∧
      (texts.foldl Md5.update ctx).count = ctx.count + texts.flatten.length := by
  induction texts generalizing ctx p
  case nil => exact ⟨h, rfl⟩
  case cons text texts ih =>
    have updated : (Md5.update ctx text).Holds (p.absorb text) := h.update
    have ⟨holds, count⟩ := ih updated
    rw [List.foldl_cons, List.flatten_cons, absorb_append, count, List.length_append, ← Nat.add_assoc]
    exact ⟨holds, rfl⟩

theorem littleEndian_eq : littleEndian n 8 = le 8 n := by
  simp only [littleEndian, List.range, List.range.loop, List.map_cons, List.map_nil, le, be]
  rfl

theorem littleEndian_word (v : UInt32) : littleEndian v.toNat 4 = le 4 v.toNat := by
  simp only [littleEndian, List.range, List.range.loop, List.map_cons, List.map_nil, le, be]
  rfl

theorem Context.Holds.final (h : ctx.Holds p) (hn : p.pending.length = n % 64) :
    Md5.final ctx = Rfc1321.output (standard
      (p.absorb (hash.padding (le 8 (ctx.count * 8 % 2 ^ 64)) n)).state) := by
  rw [absorb_padding length_le hn]
  simp only [Md5.final, Rfc1321.output, littleEndian_eq, littleEndian_word, h.buf, h.state,
    List.length_append, List.length_singleton]
  split
  case isTrue  => rfl
  case isFalse =>
    simp only [List.length_append, List.length_singleton]
    rfl

theorem length_pending_start {message : Bytes} :
    ((hash.start {}).absorb message).pending.length = message.length % 64 := by
  rw [length_pending]
  simp [BlockHash.start, hash]

-- What a text and its padding leave, whatever the buffer held before and however the text is divided.
theorem memory_final {garbage : Bytes} (hg : garbage.length = 64) {chunks : List Bytes}
    (h : chunks.flatten.length < 2 ^ 61) :
    (chunks.foldl Memory.update { buf := garbage }).final =
      Rfc1321.output (standard (((hash.start {}).absorb chunks.flatten).absorb
        (hash.padding (le 8 (8 * chunks.flatten.length)) chunks.flatten.length)).state) := by
  have start : Memory.Holds { buf := garbage } (hash.start {}) := ⟨rfl, rfl, hg, rfl⟩
  have holds := @Memory.Holds.updates _ _ chunks start
  have count : (chunks.foldl Memory.update { buf := garbage }).count = chunks.flatten.length := by
    rw [count_updates (show 0 < 2 ^ 64 by decide), show (Memory.mk {} 0 garbage).count = 0 from rfl,
      Nat.zero_add]
    exact Nat.mod_eq_of_lt (by omega)
  have bits : chunks.flatten.length * 8 % 2 ^ 64 = 8 * chunks.flatten.length := by
    rw [Nat.mul_comm]
    exact Nat.mod_eq_of_lt (by omega)
  rw [final_eq_closed, holds.idx, holds.closed length_pending_start, count, bits]

-- `Context` leaves out nothing that a digest depends on.
theorem final_eq_memory {garbage : Bytes} (hg : garbage.length = 64) {texts : List CString}
    (h : texts.flatten.length < 2 ^ 61) :
    Md5.final (texts.foldl Md5.update {}) = (texts.foldl Memory.update { buf := garbage }).final := by
  have start : Context.Holds {} (hash.start {}) := ⟨rfl, rfl⟩
  have ⟨holds, count⟩ := @Context.Holds.updates _ _ texts start
  have bits : (0 + texts.flatten.length) * 8 % 2 ^ 64 = 8 * texts.flatten.length := by
    rw [Nat.zero_add, Nat.mul_comm]
    exact Nat.mod_eq_of_lt (by omega)
  rw [holds.final length_pending_start, memory_final hg h, count, bits]

theorem memory_digest {garbage : Bytes} (hg : garbage.length = 64) {chunks : List Bytes}
    (h : chunks.flatten.length < 2 ^ 61) :
    (chunks.foldl Memory.update { buf := garbage }).final =
      Rfc1321.digestWith sines chunks.flatten := by
  have through := @BlockHash.absorb_pad _ hash chunks.flatten (le 8 (8 * chunks.flatten.length)) {}
  rw [BlockHash.pad, absorb_append] at through
  rw [memory_final hg h, through]
  exact congrArg Rfc1321.output (BlockHash.chain_map standard rfl fun _ _ => standard_transform)

end
end Deneb.Md5
