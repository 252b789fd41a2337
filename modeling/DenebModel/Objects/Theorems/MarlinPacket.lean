import DenebModel.Objects.MarlinPacket
import DenebModel.Primitives.ShiftRegister
import Mathlib.Data.List.GetD

namespace Deneb

-- The register of `deneb_crc16_ccitt`.
def ccitt : ShiftRegister 16 where
  poly := 0x1021
  odd  := by decide

theorem crc16CcittBit_toBitVec (crc : UInt16) : (crc16CcittBit crc).toBitVec = ccitt.step crc.toBitVec := by
  have top : crc &&& 0x8000 ≠ 0 ↔ crc.toBitVec.msb := by
    have h : (crc &&& 0x8000).toBitVec = crc.toBitVec &&& BitVec.twoPow 16 15 := rfl
    rw [BitVec.and_twoPow] at h
    rw [BitVec.msb_eq_getLsbD_last, ne_eq, ← UInt16.toBitVec_inj, h]
    cases crc.toBitVec.getLsbD 15 <;> decide
  unfold crc16CcittBit ShiftRegister.step
  by_cases h : crc &&& 0x8000 ≠ 0
  case pos => rw [if_pos h, if_pos (top.mp h)]; rfl
  case neg => rw [if_neg h, if_neg (mt top.mpr h)]; rfl

theorem crc16CcittBits_toBitVec (k : Nat) (crc : UInt16) :
    (crc16CcittBit^[k] crc).toBitVec = ccitt.step^[k] crc.toBitVec := by
  induction k generalizing crc
  case zero      => rfl
  case succ k ih =>
    rw [Function.iterate_succ_apply, ih, crc16CcittBit_toBitVec, Function.iterate_succ_apply]

theorem crc16Ccitt_toBitVec (data : List UInt8) :
    (crc16Ccitt data).toBitVec = ccitt.run 0xffff (data.map UInt8.toBitVec) := by
  have from_any (crc : UInt16) :
      (data.foldl (fun (crc : UInt16) (b : UInt8) => crc16CcittBit^[8] (crc ^^^ (b.toUInt16 <<< 8))) crc).toBitVec =
        ccitt.run crc.toBitVec (data.map UInt8.toBitVec) := by
    induction data generalizing crc
    case nil => rfl
    case cons b data ih =>
      rw [List.foldl_cons, ih, crc16CcittBits_toBitVec]
      rfl
  exact from_any 0xffff

namespace MarlinPacket

-- The order in which the bits of a byte are counted.
inductive BitOrder
  | mostSignificantFirst
  | leastSignificantFirst

def BitOrder.place : BitOrder → Nat → Nat
  | mostSignificantFirst, i  => 7 - i
  | leastSignificantFirst, i => i

def bitAt (order : BitOrder) (s : List UInt8) (i : Nat) : Bool :=
  (s.getD (i / 8) 0).toBitVec.getLsbD (order.place (i % 8))

-- All bits that are set lie among 16 that follow one another.
def Burst (order : BitOrder) (s : List UInt8) : Prop :=
  ∃ start, ∀ i, bitAt order s i → start ≤ i ∧ i < start + 16

section

variable {order : BitOrder} {data error : List UInt8} {sequence a b c : UInt8} {command : CString}
variable {outSize : Nat} {packet : List UInt8}

theorem exists_bitAt (j : Nat) (h : error.getD j 0 ≠ 0) : ∃ i < 8, bitAt order error (8 * j + i) := by
  have ⟨k, hk, hb⟩ : ∃ k < 8, (error.getD j 0).toBitVec.getLsbD k := by
    by_contra hc
    push Not at hc
    refine h (UInt8.toBitVec_inj.mp (BitVec.eq_of_getLsbD_eq fun k hk => ?_))
    rw [Bool.eq_false_iff.mpr (hc k hk)]
    exact BitVec.getLsbD_zero.symm
  have bit {i : Nat} (hi : i < 8) (hp : order.place i = k) : bitAt order error (8 * j + i) := by
    rw [bitAt, show (8 * j + i) / 8 = j by omega, show (8 * j + i) % 8 = i by omega, hp]
    exact hb
  cases order
  case mostSignificantFirst  => exact ⟨7 - k, by omega, bit (by omega) (by simp only [BitOrder.place]; omega)⟩
  case leastSignificantFirst => exact ⟨k, hk, bit hk rfl⟩

-- A burst touches three bytes at most.
theorem Burst.window (hb : Burst order error) (hl : 3 ≤ error.length) :
    ∃ k, k + 3 ≤ error.length ∧ ∀ j, error.getD j 0 ≠ 0 → k ≤ j ∧ j < k + 3 := by
  obtain ⟨start, hb⟩ := hb
  refine ⟨min (start / 8) (error.length - 3), by omega, fun j hj => ?_⟩
  have ⟨i, hi, bit⟩ := @exists_bitAt order _ j hj
  have := hb _ bit
  have : j < error.length := by
    by_contra h
    exact hj (List.getD_eq_default _ _ (by omega))
  omega

theorem eq_window {k : Nat} (hk : k + 3 ≤ error.length)
    (hz : ∀ j, error.getD j 0 ≠ 0 → k ≤ j ∧ j < k + 3) :
    error = .replicate k 0 ++ ([error.getD k 0, error.getD (k + 1) 0, error.getD (k + 2) 0] ++
      .replicate (error.length - (k + 3)) 0) := by
  refine List.ext_getElem (by simp; omega) fun j hj hj' => ?_
  have outside (h : j < k ∨ k + 3 ≤ j) : error[j] = 0 := by
    by_contra hc
    rw [← List.getD_eq_getElem _ 0 hj] at hc
    have := hz j hc
    omega
  rw [List.getElem_append]
  split
  case isTrue h =>
    rw [List.getElem_replicate, outside (.inl (by simpa using h))]
  case isFalse h =>
    rw [List.length_replicate] at h
    rw [List.getElem_append]
    split
    case isTrue h' =>
      simp only [List.length_replicate]
      obtain h | h | h : j = k ∨ j = k + 1 ∨ j = k + 2 := by simp at h'; omega
      all_goals subst h; simp [List.getElem?_eq_getElem hj]
    case isFalse h' => rw [List.getElem_replicate, outside (.inr (by simp at h'; omega))]

-- The remainder that a byte leaves reaches sixteen bits or more from one of the byte's own.
theorem remainder_far : ∀ n < 256, n ≠ 0 → ∃ i < 8, ∃ j < 8, i ≤ j ∧
    (BitVec.ofNat 8 n).getLsbD (order.place i) ∧
    (ccitt.feed 0#16 (BitVec.ofNat 8 n)).getLsbD (order.place j) := by
  cases order <;> decide +kernel

theorem window_eq_zero {k l : Nat} (he : error = .replicate k 0 ++ ([a, b, c] ++ .replicate l 0))
    (hb : Burst order error) (hr : ccitt.run 0#16 [a.toBitVec, b.toBitVec, c.toBitVec] = 0#16) :
    a = 0 ∧ b = 0 ∧ c = 0 := by
  rw [ShiftRegister.run_cons] at hr
  have hr : ccitt.feed 0#16 a.toBitVec = b.toBitVec ++ c.toBitVec :=
    (@ShiftRegister.run_pair_eq_zero 8 ccitt _ _ _).mp hr
  have hc {j : Nat} (hj : j < 8) :
      (ccitt.feed 0#16 a.toBitVec).getLsbD (order.place j) = c.toBitVec.getLsbD (order.place j) := by
    rw [hr, BitVec.getLsbD_append, if_pos]
    cases order <;> simp only [BitOrder.place] <;> omega
  have ha : a = 0 := by
    by_contra hz
    have ⟨i, hi, j, hj, hij, first, last⟩ := @remainder_far order a.toNat a.toNat_lt fun h =>
      hz (UInt8.toNat_inj.mp h)
    obtain ⟨start, hb⟩ := hb
    have hn : BitVec.ofNat 8 a.toNat = a.toBitVec := BitVec.eq_of_toNat_eq (by simp)
    rw [hn] at first last
    rw [hc hj] at last
    have first := hb (8 * k + i) (by
      rw [bitAt, show (8 * k + i) / 8 = k by omega, show (8 * k + i) % 8 = i by omega]
      simpa [he] using first)
    have last := hb (8 * (k + 2) + j) (by
      rw [bitAt, show (8 * (k + 2) + j) / 8 = k + 2 by omega, show (8 * (k + 2) + j) % 8 = j by omega]
      simpa [he] using last)
    omega
  rw [ha] at hr
  have ⟨zb, zc⟩ := (@ShiftRegister.eq_append_iff 8 _ _ _).mp hr
  exact ⟨ha, UInt8.toBitVec_inj.mp zb.symm, UInt8.toBitVec_inj.mp zc.symm⟩

theorem length_crcBytes : (crcBytes data).length = 2 :=
  rfl

-- The checksum is right for what leaves nothing in the register.
theorem crcBytes_eq_iff {n : Nat} (h : data.length = n + 2) :
    crcBytes (data.take n) = data.drop n ↔ ccitt.run 0xffff (data.map UInt8.toBitVec) = 0#16 := by
  obtain ⟨b, c, hd⟩ := List.length_eq_two.mp (show (data.drop n).length = 2 by simp [h])
  have pair :=
    @ShiftRegister.run_pair_eq_zero 8 ccitt (crc16Ccitt (data.take n)).toBitVec b.toBitVec c.toBitVec
  have split : data.map UInt8.toBitVec =
      (data.take n).map UInt8.toBitVec ++ [b.toBitVec, c.toBitVec] := by
    conv => lhs; rw [← List.take_append_drop n data, hd, List.map_append]
    rfl
  rw [split, ShiftRegister.run_append, ← crc16Ccitt_toBitVec, hd]
  refine Iff.trans ?_ (pair.trans (@ShiftRegister.eq_append_iff 8 _ _ _)).symm
  have low : (crc16Ccitt (data.take n) &&& 0xff).toUInt8 = (crc16Ccitt (data.take n)).toUInt8 := by
    rw [UInt16.toUInt8_and]
    exact UInt8.and_neg_one
  rw [crcBytes, low, List.cons.injEq, List.cons.injEq, ← UInt8.toBitVec_inj, ← UInt8.toBitVec_inj]
  simp

theorem map_zipWith_xor : (List.zipWith (· ^^^ ·) data error).map UInt8.toBitVec =
    List.zipWith (· ^^^ ·) (data.map UInt8.toBitVec) (error.map UInt8.toBitVec) := by
  rw [List.map_zipWith, List.zipWith_map]
  rfl

-- No burst of sixteen bits goes unseen.
theorem burst_detected (h : encode sequence command outSize = some packet)
    (hl : error.length = command.length + 4) (hb : Burst order error) (hn : ∃ b ∈ error, b ≠ 0) :
    let damaged := List.zipWith (· ^^^ ·) (packet.drop 2) error
    crcBytes (damaged.take (command.length + 2)) ≠ damaged.drop (command.length + 2) := by
  have sent : packet.drop 2 = body sequence command ++ crcBytes (body sequence command) := by
    rw [packet_eq_of_encode h]
    rfl
  have size : (packet.drop 2).length = command.length + 4 := by
    rw [sent, List.length_append, length_crcBytes]
    rfl
  have sound : ccitt.run 0xffff ((packet.drop 2).map UInt8.toBitVec) = 0#16 := by
    refine (crcBytes_eq_iff size).mp ?_
    have hb : command.length + 2 = (body sequence command).length := rfl
    rw [sent, hb, List.take_left, List.drop_left]
  intro damaged hc
  have unseen := (crcBytes_eq_iff (by simp [damaged, size, hl] : damaged.length = _)).mp hc
  rw [map_zipWith_xor, ShiftRegister.run_damaged (by rw [List.length_map, List.length_map, size, hl]) sound]
    at unseen
  have ⟨k, hk, hz⟩ := hb.window (by omega)
  have window := eq_window hk hz
  rw [window] at unseen
  simp only [List.map_append, List.map_replicate, List.map_cons, List.map_nil] at unseen
  have ⟨ha, hb, hc⟩ := window_eq_zero window hb (ShiftRegister.run_burst.mp unseen)
  rw [ha, hb, hc] at window
  obtain ⟨b, hm, hnz⟩ := hn
  rw [window] at hm
  simp only [List.mem_append, List.mem_replicate, List.mem_cons, List.not_mem_nil] at hm
  tauto

-- A burst over the end of the payload and the checksum.
theorem straddling_detected : crcBytes [7, 2, 71, 51] ≠ [0xc6, 0x47] := by
  have sent : encode 7 [71, 50] 8 = some [255, 255, 7, 2, 71, 50, 57, 199] := by
    decide +kernel
  have burst : Burst .mostSignificantFirst [0, 0, 0, 1, 255, 128] := by
    refine ⟨31, fun i hi => ?_⟩
    by_cases h : i < 48
    case pos =>
      have : ∀ i < 48, bitAt .mostSignificantFirst [0, 0, 0, 1, 255, 128] i → 31 ≤ i ∧ i < 31 + 16 := by
        decide
      exact this i h hi
    case neg =>
      rw [bitAt, List.getD_eq_default _ _ (show 6 ≤ i / 8 by omega)] at hi
      simp at hi
  have damaged : List.zipWith (· ^^^ ·) (List.drop 2 [255, 255, 7, 2, 71, 50, 57, 199])
      [0, 0, 0, 1, 255, 128] = ([7, 2, 71, 51, 198, 71] : List UInt8) := by decide
  have detected := burst_detected sent rfl burst ⟨1, by decide, by decide⟩
  simp only [damaged] at detected
  exact detected

end
end MarlinPacket
end Deneb
