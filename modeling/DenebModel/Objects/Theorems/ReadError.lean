import DenebModel.Objects.ReadBuffer
import DenebModel.Objects.Theorems.GcodeStream

namespace Deneb.GcodeStream

open CString

-- The stream in front of a call, and what the call returns.
def callAt (buffers : Nat → LineBuffer) (stream : GcodeStream) : Nat → GcodeStream
  | 0     => stream
  | k + 1 => ((callAt buffers stream k).next (buffers k)).2.2

def codeAt (buffers : Nat → LineBuffer) (stream : GcodeStream) (k : Nat) : Int :=
  ((callAt buffers stream k).next (buffers k)).1

section

variable {stream : GcodeStream} {front : List UInt8} {back : List (Option UInt8)}

theorem readLoop_failed {len : Nat} {buffer : LineBuffer} :
    ∃ buffer', readLoop (front.map some ++ none :: back) len buffer = (-1, buffer', back) ∨
      ∃ front' : List UInt8, front'.length < front.length ∧
        readLoop (front.map some ++ none :: back) len buffer =
          (1, buffer', front'.map some ++ none :: back) := by
  induction front generalizing len buffer
  case nil => exact ⟨buffer, .inl rfl⟩
  case cons c front hi =>
    have hrest : ∀ {len buffer}, ∃ buffer',
        readLoop (front.map some ++ none :: back) len buffer = (-1, buffer', back) ∨
        ∃ front' : List UInt8, front'.length < (c :: front).length ∧
          readLoop (front.map some ++ none :: back) len buffer =
            (1, buffer', front'.map some ++ none :: back) := by
      intro len buffer
      obtain ⟨buffer', h | ⟨front', hlt, h⟩⟩ := @hi len buffer
      · exact ⟨buffer', .inl h⟩
      · exact ⟨buffer', .inr ⟨front', Nat.lt_succ_of_lt hlt, h⟩⟩
    rw [List.map_cons, List.cons_append, readLoop]
    split_ifs
    · exact hrest
    · exact ⟨_, .inr ⟨front, Nat.lt_succ_self _, rfl⟩⟩
    · exact hrest
    · exact hrest

-- The failure ends the call that meets it with 0.
theorem nextLoop_failed {rounds : Nat} {buffer : LineBuffer} (ho : stream.isOpen)
    (hr : stream.reads = front.map some ++ none :: back) (hlt : front.length < rounds) :
    ∃ stream', (nextLoop rounds stream buffer = (0, [], stream') ∧ stream'.At back stream.pending) ∨
      ∃ line, ∃ front' : List UInt8, ∃ pending, front'.length < front.length ∧
        nextLoop rounds stream buffer = (1, line, stream') ∧
        stream'.At (front'.map some ++ none :: back) pending := by
  induction rounds generalizing stream buffer front
  case zero => omega
  case succ rounds hi =>
    obtain ⟨buffer', h | ⟨front', hf, h⟩⟩ := @readLoop_failed front back 0 (buffer.write 0 [0])
    · have hline : readLine stream.reads buffer = (-1, buffer', back) := by
        rw [hr, readLine, h]
      obtain ⟨s, hs, hat⟩ := @nextLoop_end stream buffer rounds (by rw [hline]; exact Int.negSucc_le_zero 0) ho
      rw [hline] at hat
      exact ⟨s, .inl ⟨hs, hat⟩⟩
    · have hline : readLine stream.reads buffer = (1, buffer', front'.map some ++ none :: back) := by
        rw [hr, readLine, h]
      rcases he : expand buffer'.text with _ | ⟨command, rest⟩
      · obtain ⟨s, hs, hos, hrs, hps⟩ := @nextLoop_skip _ _ _ _ rounds hline he ho
        obtain ⟨s', h' | ⟨line, front'', pending, hlt', h', hat⟩⟩ :=
          @hi s front' (skip buffer') hos hrs (by omega)
        · exact ⟨s', .inl ⟨hs.trans h'.left, hps ▸ h'.right⟩⟩
        · exact ⟨s', .inr ⟨line, front'', pending, by omega, hs.trans h', hat⟩⟩
      · obtain ⟨s, hs, hat, -⟩ := @nextLoop_emit _ _ _ _ rounds hline _ _ he ho
        exact ⟨s, .inr ⟨command, front', rest, hf, hs, hat⟩⟩

variable {buffers : Nat → LineBuffer} {pending : List CString}

theorem callAt_succ {k : Nat} :
    callAt buffers stream (k + 1) =
      callAt (fun i => buffers (i + 1)) (stream.next (buffers 0)).2.2 k := by
  induction k
  case zero => rfl
  case succ k hi => rw [callAt, hi, callAt]

theorem codeAt_succ {k : Nat} :
    codeAt buffers stream (k + 1) =
      codeAt (fun i => buffers (i + 1)) (stream.next (buffers 0)).2.2 k := by
  rw [codeAt, callAt_succ, codeAt]

-- Some call takes the failed read and returns 0, and none before it fails.
theorem exists_call_failed (h : stream.At (front.map some ++ none :: back) pending) :
    ∃ k, codeAt buffers stream k = 0 ∧ (callAt buffers stream (k + 1)).At back [] ∧
      ∀ j < k, codeAt buffers stream j = 1 := by
  induction hn : front.length using Nat.strongRecOn generalizing stream front pending buffers
  case ind n hi =>
    induction pending generalizing stream buffers
    case nil =>
      obtain ⟨ho, hr, hp⟩ := h
      have hnext : stream.next (buffers 0) =
          nextLoop (stream.reads.length + 1) stream.clearLast (buffers 0) := by
        simp [next, ho, clearLast, hp]
      have hlen : front.length < stream.reads.length + 1 := by
        rw [hr, List.length_append, List.length_map]
        omega
      obtain ⟨s, ⟨hs, hat⟩ | ⟨line, front', pending, hlt, hs, hat⟩⟩ :=
        @nextLoop_failed stream.clearLast front back _ (buffers 0) ho hr hlen
      · have hp' : stream.clearLast.pending = [] := hp
        rw [hp'] at hat
        refine ⟨0, ?_, ?_, by omega⟩
        · rw [codeAt, callAt, hnext, hs]
        · rw [callAt, callAt, hnext, hs]
          exact hat
      · obtain ⟨k, hc, hk, hj⟩ :=
          @hi front'.length (hn ▸ hlt) s front' (fun i => buffers (i + 1)) pending hat rfl
        refine ⟨k + 1, ?_, ?_, ?_⟩
        · rw [codeAt_succ, hnext, hs]
          exact hc
        · rw [callAt_succ, hnext, hs]
          exact hk
        · rintro (_ | j) hlt
          · rw [codeAt, callAt, hnext, hs]
          · rw [codeAt_succ, hnext, hs]
            exact hj j (by omega)
    case cons p pending hip =>
      obtain ⟨ho, hr, hp⟩ := h
      have hnext : stream.next (buffers 0) =
          (1, fit maxGcodeLine p, { stream.clearLast with pending := pending }) := by
        simp [next, ho, clearLast, hp]
      obtain ⟨k, hc, hk, hj⟩ := @hip { stream.clearLast with pending := pending }
        (fun i => buffers (i + 1)) ⟨ho, hr, rfl⟩
      refine ⟨k + 1, ?_, ?_, ?_⟩
      · rw [codeAt_succ, hnext]
        exact hc
      · rw [callAt_succ, hnext]
        exact hk
      · rintro (_ | j) hlt
        · rw [codeAt, callAt, hnext]
        · rw [codeAt_succ, hnext]
          exact hj j (by omega)

-- A failed read is reported: some call returns -1, and from the call that meets it on none returns 0.
-- The read has failed once no more reads are left than those behind it.
def Reported (buffers : Nat → LineBuffer) (stream : GcodeStream) (back : List (Option UInt8)) : Prop :=
  (∃ k, codeAt buffers stream k = -1) ∧
    ∀ k, (callAt buffers stream (k + 1)).reads.length ≤ back.length → codeAt buffers stream k ≠ 0

theorem not_reported {results : List ReadResult} {text : List UInt8}
    (hr : ReadResult.bytes results = front.map some ++ none :: back) :
    ¬ Reported buffers (.open { reads := ReadResult.bytes results, text := text }) back := by
  rintro ⟨-, hno⟩
  obtain ⟨k, hc, hk, -⟩ := @exists_call_failed
    (.open { reads := ReadResult.bytes results, text := text }) front back buffers [] ⟨rfl, hr, rfl⟩
  exact hno k (Nat.le_of_eq (congrArg List.length hk.right.left)) hc

-- The read fails behind the first of two lines.
theorem not_reported_home :
    ReadResult.bytes [.data (ofString "G28\n"), .failed] = (ofString "G28\n").map some ++ [none] ∧
      ¬ Reported (fun _ => .blank)
        (.open { reads := ReadResult.bytes [.data (ofString "G28\n"), .failed]
                 text  := ofString "G28\nM84\n" }) [] :=
  ⟨by decide, @not_reported (ofString "G28\n") [] _ _ _ (by decide)⟩

-- The first read of a file fails, and the file ends at once.
theorem failed_open_reads :
    codeAt (fun _ => .blank) (.open { reads := ReadResult.bytes [.failed], text := ofString "G28\n" }) 0 =
        0 ∧
      ¬ Reported (fun _ => .blank)
        (.open { reads := ReadResult.bytes [.failed], text := ofString "G28\n" }) [] := by
  have hc : codeAt (fun _ => .blank)
      (.open { reads := ReadResult.bytes [.failed], text := ofString "G28\n" }) 0 = 0 := by
    decide +kernel
  have hr : (callAt (fun _ => .blank)
      (.open { reads := ReadResult.bytes [.failed], text := ofString "G28\n" }) 1).reads.length = 0 := by
    decide +kernel
  exact ⟨hc, fun h => h.right 0 (Nat.le_of_eq hr) hc⟩

end

end Deneb.GcodeStream
