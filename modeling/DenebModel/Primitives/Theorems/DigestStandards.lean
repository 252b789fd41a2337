import DenebModel.Primitives.DigestStandards
import Mathlib.Data.List.Nodup
import Mathlib.Tactic.IntervalCases

namespace Rfc1321

open Octets

theorem rotate_injective {n : UInt32} (hn : 0 < n.toNat) (hl : n.toNat < 32) : Function.Injective (rotate n) := by
  intro x y h
  have hs : (32 - n).toNat = 32 - n.toNat := UInt32.toNat_sub_of_le _ _ (UInt32.le_iff_toNat_le.mpr (Nat.le_of_lt hl))
  have rot (z : UInt32) : (rotate n z).toBitVec = z.toBitVec <<< n.toNat ||| z.toBitVec >>> (32 - n.toNat) := by
    have left : (z <<< n).toBitVec = z.toBitVec <<< n.toNat := by
      rw [UInt32.toBitVec_shiftLeft]
      rw [BitVec.shiftLeft_eq', BitVec.toNat_umod]
      exact congrArg _ (Nat.mod_eq_of_lt hl)
    have right : (z >>> (32 - n)).toBitVec = z.toBitVec >>> (32 - n.toNat) := by
      rw [UInt32.toBitVec_shiftRight, BitVec.ushiftRight_eq', BitVec.toNat_umod, UInt32.toNat_toBitVec, hs]
      exact congrArg _ (Nat.mod_eq_of_lt (show 32 - n.toNat < 32 by omega))
    rw [rotate, UInt32.toBitVec_or, left, right]
  have bit (z : UInt32) (i : Nat) (hi : i < 32) : (rotate n z).toBitVec.getLsbD ((i + n.toNat) % 32) = z.toBitVec.getLsbD i := by
    rw [rot, BitVec.getLsbD_or, BitVec.getLsbD_shiftLeft, BitVec.getLsbD_ushiftRight]
    by_cases hw : i + n.toNat < 32
    case pos =>
      rw [Nat.mod_eq_of_lt hw, BitVec.getLsbD_of_ge z.toBitVec (32 - n.toNat + (i + n.toNat)) (by omega)]
      simp [hw]
    case neg =>
      have hm : (i + n.toNat) % 32 = i + n.toNat - 32 := by omega
      rw [hm, show 32 - n.toNat + (i + n.toNat - 32) = i by omega]
      simp [show i + n.toNat - 32 < n.toNat by omega]
  refine UInt32.toBitVec_inj.mp (BitVec.eq_of_getLsbD_eq fun i hi => ?_)
  rw [← bit x i hi, ← bit y i hi, h]

variable {table table' x : List UInt32} {s s' : State} {j : Nat} {block message : Bytes}

theorem distance_lt (j : Nat) : 0 < (distance j).toNat ∧ (distance j).toNat < 32 := by
  have hj : j % 4 < 4 := Nat.mod_lt _ (by decide)
  unfold distance
  generalize j % 4 = k at hj
  split <;> interval_cases k <;> decide

-- A step forgets nothing: it can be undone, and it passes a difference of the constants on.
theorem step_inj (ht : table.getD j 0 = table'.getD j 0) (h : step table x s j = step table' x s' j) : s = s' := by
  have hb : s.b = s'.b := congrArg State.c h
  have hc : s.c = s'.c := congrArg State.d h
  have hd : s.d = s'.d := congrArg State.a h
  have sum := congrArg State.b h
  simp only [step, hb, hc, hd, ht, UInt32.add_right_inj] at sum
  have := rotate_injective (distance_lt j).left (distance_lt j).right sum
  rw [UInt32.add_left_inj, UInt32.add_left_inj, UInt32.add_left_inj] at this
  exact State.ext this hb hc hd

theorem table_inj (h : step table x s j = step table' x s j) : table.getD j 0 = table'.getD j 0 := by
  have sum := congrArg State.b h
  simp only [step, UInt32.add_right_inj] at sum
  have := rotate_injective (distance_lt j).left (distance_lt j).right sum
  rwa [UInt32.add_right_inj] at this

theorem steps_ne {l : List Nat} (ht : ∀ i ∈ l, table.getD i 0 = table'.getD i 0) (h : s ≠ s') :
    l.foldl (step table x) s ≠ l.foldl (step table' x) s' := by
  induction l generalizing s s'
  case nil => exact h
  case cons i l ih => exact ih (fun i hm => ht i (.tail _ hm)) fun he => h (step_inj (ht i (.head _)) he)

theorem steps_congr {l : List Nat} (ht : ∀ i ∈ l, table.getD i 0 = table'.getD i 0) :
    l.foldl (step table x) s = l.foldl (step table' x) s := by
  induction l generalizing s
  case nil => rfl
  case cons i l ih =>
    rw [List.foldl_cons, List.foldl_cons, ih fun i hm => ht i (.tail _ hm)]
    rw [step, ht i (.head _)]
    rfl

theorem add_inj {r r' : State} (h : s.add r = s.add r') : r = r' := by
  refine State.ext ?_ ?_ ?_ ?_
  · exact (UInt32.add_right_inj _).mp (congrArg State.a h)
  · exact (UInt32.add_right_inj _).mp (congrArg State.b h)
  · exact (UInt32.add_right_inj _).mp (congrArg State.c h)
  · exact (UInt32.add_right_inj _).mp (congrArg State.d h)

-- With tables that differ in one place, a block takes a state to different states.
theorem compress_ne (hj : j < 64) (hn : table.getD j 0 ≠ table'.getD j 0)
    (ht : ∀ i < 64, i ≠ j → table.getD i 0 = table'.getD i 0) :
    compress table s block ≠ compress table' s block := by
  obtain ⟨front, rest, parts⟩ := List.append_of_mem (List.mem_range.mpr hj)
  have others : ∀ i ∈ front ++ rest, table.getD i 0 = table'.getD i 0 := by
    intro i hi
    have nodup : (front ++ j :: rest).Nodup := parts ▸ List.nodup_range
    have hj := (List.nodup_cons.mp (List.nodup_middle.mp nodup)).left
    have hm : i ∈ List.range 64 := by
      rw [parts]
      rcases List.mem_append.mp hi with h | h
      · exact List.mem_append_left _ h
      · exact List.mem_append_right _ (.tail _ h)
    exact ht i (List.mem_range.mp hm) fun he => hj (he ▸ hi)
  have differ (x : List UInt32) :
      (List.range 64).foldl (step table x) s ≠ (List.range 64).foldl (step table' x) s := by
    rw [parts, List.foldl_append, List.foldl_append, List.foldl_cons, List.foldl_cons,
      steps_congr fun i hi => others i (List.mem_append_left _ hi)]
    exact steps_ne (fun i hi => others i (List.mem_append_right _ hi)) fun he => hn (table_inj he)
  exact fun h => differ _ (add_inj h)

-- The blocks of the padded message end with one that brings two states together again, after the
-- chains over the two tables have parted.
def Merges (table table' : List UInt32) (message : Bytes) : Prop :=
  ∃ front last, (hash table).blocks ((hash table).pad (lengthField message) message) = front ++ [last] ∧
    front.foldl (compress table) start ≠ front.foldl (compress table') start ∧
    compress table (front.foldl (compress table) start) last =
      compress table' (front.foldl (compress table') start) last

theorem blocks_ne_nil : (hash table).blocks ((hash table).pad (lengthField message) message) ≠ [] := by
  have hd := @BlockHash.dvd_length_pad _ (hash table) message (lengthField message)
  have hl : 0 < ((hash table).pad (lengthField message) message).length := by
    simp [BlockHash.pad, BlockHash.padding]
  intro h
  have flat := BlockHash.flatten_blocks hd
  rw [h] at flat
  rw [← flat] at hl
  simp at hl

theorem chain_eq_iff (hj : j < 64) (hn : table.getD j 0 ≠ table'.getD j 0)
    (ht : ∀ i < 64, i ≠ j → table.getD i 0 = table'.getD i 0) :
    (hash table).chain start (lengthField message) message =
      (hash table').chain start (lengthField message) message ↔ Merges table table' message := by
  have same : (hash table').blocks ((hash table').pad (lengthField message) message) =
      (hash table).blocks ((hash table).pad (lengthField message) message) := by
    simp only [BlockHash.blocks, BlockHash.pad, BlockHash.padding, BlockHash.zeros, hash]
  rw [BlockHash.chain, BlockHash.chain, same]
  constructor
  case mp =>
    intro h
    obtain ⟨front, last, parts⟩ := (List.eq_nil_or_concat' _).resolve_left (@blocks_ne_nil table message)
    rw [parts, List.foldl_append, List.foldl_append] at h
    refine ⟨front, last, parts, fun he => ?_, h⟩
    change compress table (front.foldl (compress table) start) last =
      compress table' (front.foldl (compress table') start) last at h
    rw [he] at h
    exact compress_ne hj hn ht h
  case mpr =>
    rintro ⟨front, last, parts, -, h⟩
    rw [parts, List.foldl_append, List.foldl_append]
    exact h

theorem not_merges (h : message.length ≤ 55) : ¬Merges table table' message := by
  rintro ⟨front, last, parts, apart, -⟩
  have hz : (hash table).zeros 8 message.length = 55 - message.length := by
    rw [BlockHash.zeros, show (hash table).size = 64 from rfl]
    omega
  have hl : ((hash table).pad (lengthField message) message).length = 64 := by
    rw [BlockHash.pad, BlockHash.padding, lengthField, length_le, hz, List.length_append, List.length_cons,
      List.length_append, List.length_replicate, length_le]
    omega
  have one := congrArg List.length parts
  rw [BlockHash.blocks, List.length_map, List.length_range, hl, List.length_append, List.length_singleton,
    show (hash table).size = 64 from rfl] at one
  have : front = [] := List.eq_nil_of_length_eq_zero (by omega)
  rw [this, List.foldl_nil, List.foldl_nil] at apart
  exact apart rfl

theorem output_inj (h : output s = output s') : s = s' := by
  have word {v w : UInt32} (h : le 4 v.toNat = le 4 w.toNat) : v = w := by
    have := congrArg readLe h
    rwa [readLe_le v.toNat_lt, readLe_le w.toNat_lt, UInt32.toNat_inj] at this
  simp only [output, List.flatMap_cons, List.flatMap_nil] at h
  have ⟨ha, h⟩ := List.append_inj h (by rw [length_le, length_le])
  have ⟨hb, h⟩ := List.append_inj h (by rw [length_le, length_le])
  have ⟨hc, h⟩ := List.append_inj h (by rw [length_le, length_le])
  have ⟨hd, _⟩ := List.append_inj h (by rw [length_le, length_le])
  exact State.ext (word ha) (word hb) (word hc) (word hd)

end Rfc1321
