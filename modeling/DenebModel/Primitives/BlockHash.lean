import DenebModel.Primitives.Octets
import Mathlib.Data.List.Basic

open Octets in
-- Hashes that go through a message in blocks of `size` bytes.
structure BlockHash (State : Type) where
  size     : Nat
  size_pos : 0 < size
  compress : State → Bytes → State

namespace BlockHash

open Octets

variable {State : Type} (hash : BlockHash State)

def blocks (data : Bytes) : List Bytes :=
  (List.range (data.length / hash.size)).map fun i => (data.drop (hash.size * i)).take hash.size

-- The zeros with which a message, a byte in front of them and a field of `k` bytes behind them end
-- with a block.
def zeros (k length : Nat) : Nat :=
  (hash.size - (length + 1 + k) % hash.size) % hash.size

def padding (field : Bytes) (length : Nat) : Bytes :=
  0x80 :: (.replicate (hash.zeros field.length length) 0 ++ field)

def pad (field message : Bytes) : Bytes :=
  message ++ hash.padding field message.length

def chain (start : State) (field message : Bytes) : State :=
  (hash.blocks (hash.pad field message)).foldl hash.compress start

-- The state behind the last whole block, and the bytes after it.
@[ext]
structure Progress where
  state   : State
  pending : Bytes
  short   : pending.length < hash.size

def start (state : State) : Progress hash where
  state
  pending := []
  short   := hash.size_pos

namespace Progress

variable {hash}

def feed (p : Progress hash) (b : UInt8) : Progress hash :=
  if h : p.pending.length + 1 = hash.size then hash.start (hash.compress p.state (p.pending ++ [b]))
  else { p with
    pending := p.pending ++ [b]
    short   := by have := p.short; rw [List.length_append, List.length_singleton]; omega }

def absorb (p : Progress hash) (data : Bytes) : Progress hash :=
  data.foldl feed p

variable {p : Progress hash} {a b data message field block : Bytes} {bs chunks : List Bytes} {s : State}

theorem absorb_append : p.absorb (a ++ b) = (p.absorb a).absorb b :=
  List.foldl_append

theorem absorb_short (h : p.pending.length + data.length < hash.size) :
    (p.absorb data).state = p.state ∧ (p.absorb data).pending = p.pending ++ data := by
  induction data using List.reverseRecOn
  case nil => simp [absorb]
  case append_singleton data b ih =>
    rw [List.length_append, List.length_singleton] at h
    have ⟨hs, hp⟩ := ih (by omega)
    have hn : ¬(p.absorb data).pending.length + 1 = hash.size := by
      rw [hp, List.length_append]
      omega
    rw [absorb_append]
    rw [show (p.absorb data).absorb [b] = (p.absorb data).feed b from rfl, feed, dif_neg hn]
    exact ⟨hs, (congrArg (· ++ [b]) hp).trans (List.append_assoc ..)⟩

theorem absorb_full (h : p.pending.length + data.length = hash.size) :
    p.absorb data = hash.start (hash.compress p.state (p.pending ++ data)) := by
  have hne : data ≠ [] := by
    rintro rfl
    have := p.short
    simp at h
    omega
  obtain ⟨data, b, rfl⟩ := (List.eq_nil_or_concat' data).resolve_left hne
  rw [List.length_append, List.length_singleton] at h
  have ⟨hs, hp⟩ := absorb_short (show p.pending.length + data.length < hash.size by omega)
  have hf : (p.absorb data).pending.length + 1 = hash.size := by
    rw [hp, List.length_append]
    omega
  rw [absorb_append, show (p.absorb data).absorb [b] = (p.absorb data).feed b from rfl, feed, dif_pos hf, hs,
    hp, List.append_assoc]

theorem length_feed {b : UInt8} : (p.feed b).pending.length = (p.pending.length + 1) % hash.size := by
  have := p.short
  unfold feed
  split
  case isTrue h  => rw [h, Nat.mod_self]; rfl
  case isFalse h =>
    rw [List.length_append, List.length_singleton, Nat.mod_eq_of_lt (by omega)]

theorem length_pending : (p.absorb data).pending.length = (p.pending.length + data.length) % hash.size := by
  induction data generalizing p
  case nil => exact (Nat.mod_eq_of_lt p.short).symm
  case cons b data ih =>
    rw [show p.absorb (b :: data) = (p.feed b).absorb data from rfl, ih, length_feed, Nat.mod_add_mod,
      List.length_cons, Nat.add_assoc, Nat.add_comm 1]

theorem absorb_blocks (h : ∀ b ∈ bs, b.length = hash.size) :
    (hash.start s).absorb bs.flatten = hash.start (bs.foldl hash.compress s) := by
  induction bs generalizing s
  case nil => rfl
  case cons b bs ih =>
    have first := @absorb_full _ hash (hash.start s) b (by simp [start, h b (.head _)])
    rw [List.flatten_cons, absorb_append, first, ih fun b hm => h b (.tail _ hm)]
    rfl

end Progress

variable {hash} {data message field : Bytes} {s : State}

theorem length_of_mem_blocks {block : Bytes} (hb : block ∈ hash.blocks data) : block.length = hash.size := by
  obtain ⟨i, hi, rfl⟩ := List.mem_map.mp hb
  have := Nat.mul_le_mul_left hash.size (Nat.succ_le_of_lt (List.mem_range.mp hi))
  have := Nat.mul_div_le data.length hash.size
  rw [Nat.mul_succ] at *
  rw [List.length_take, List.length_drop]
  omega

theorem flatten_blocks (h : hash.size ∣ data.length) : (hash.blocks data).flatten = data := by
  have first (k : Nat) :
      ((List.range k).map fun i => (data.drop (hash.size * i)).take hash.size).flatten =
        data.take (hash.size * k) := by
    induction k
    case zero => simp
    case succ k ih =>
      rw [List.range_succ, List.map_append, List.flatten_append, ih, Nat.mul_succ, List.take_add]
      simp
  rw [blocks, first, Nat.mul_div_cancel' h, List.take_length]

theorem dvd_length_pad : hash.size ∣ (hash.pad field message).length := by
  have hp := hash.size_pos
  have hr := Nat.mod_lt (message.length + 1 + field.length) hp
  have hd := Nat.div_add_mod (message.length + 1 + field.length) hash.size
  simp only [pad, padding, zeros, List.length_append, List.length_cons, List.length_replicate]
  by_cases hz : (message.length + 1 + field.length) % hash.size = 0
  case pos =>
    rw [hz, Nat.sub_zero, Nat.mod_self]
    refine ⟨(message.length + 1 + field.length) / hash.size, ?_⟩
    omega
  case neg =>
    rw [Nat.mod_eq_of_lt (show hash.size - _ < hash.size by omega)]
    refine ⟨(message.length + 1 + field.length) / hash.size + 1, ?_⟩
    rw [Nat.mul_succ]
    omega

-- The chain over the blocks of the padded message is what the message and its padding leave.
theorem absorb_pad : (hash.start s).absorb (hash.pad field message) =
    hash.start (hash.chain s field message) := by
  conv => lhs; rw [← flatten_blocks (@dvd_length_pad _ hash message field)]
  exact Progress.absorb_blocks fun b hb => length_of_mem_blocks hb

-- A hash whose steps follow those of another one.
theorem chain_map {State' : Type} {hash' : BlockHash State'} (f : State → State')
    (size : hash.size = hash'.size)
    (step : ∀ s block, block.length = hash.size → f (hash.compress s block) = hash'.compress (f s) block) :
    f (hash.chain s field message) = hash'.chain (f s) field message := by
  have same : hash'.pad field message = hash.pad field message := by
    simp only [pad, padding, zeros, size]
  have run (bs : List Bytes) (hb : ∀ b ∈ bs, b.length = hash.size) (s : State) :
      f (bs.foldl hash.compress s) = bs.foldl hash'.compress (f s) := by
    induction bs generalizing s
    case nil => rfl
    case cons b bs ih =>
      rw [List.foldl_cons, ih (fun b hm => hb b (.tail _ hm)), step s b (hb b (.head _))]
      rfl
  rw [chain, chain, same, run _ fun b hm => length_of_mem_blocks hm]
  simp only [blocks, size]

end BlockHash
