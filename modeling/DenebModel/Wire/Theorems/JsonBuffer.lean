import DenebModel.Wire.JsonBuffer
import DenebModel.Wire.Theorems.JsonField

namespace Deneb.Json

open CString

-- The text between the quotes of a string, and the text without one level of its backslashes.
inductive Unescapes : CString → CString → Prop
  | nil : Unescapes [] []
  | plain (c : UInt8) : c ≠ 34 → c ≠ 92 → Unescapes s v → Unescapes (c :: s) (c :: v)
  | escaped (c : UInt8) : Unescapes s v → Unescapes (92 :: c :: s) (c :: v)

variable {json key s v p out rest : CString} {buffer : List UInt8} {c : UInt8} {i room size : Nat}

-- The buffer with other bytes from an index on.
def overwrite (buffer : List UInt8) (i : Nat) (out : CString) : List UInt8 :=
  buffer.take i ++ out ++ buffer.drop (i + out.length)

theorem overwrite_nil : overwrite buffer i [] = buffer := by
  simp [overwrite]

theorem overwrite_set (h : i < buffer.length) :
    overwrite (buffer.set i c) (i + 1) out = overwrite buffer i (c :: out) := by
  have front : (buffer.set i c).take (i + 1) = buffer.take i ++ [c] := by
    rw [List.take_add_one, List.take_set_of_le (Nat.le_refl i), List.getElem?_set_self h]
    rfl
  have back : (buffer.set i c).drop (i + 1 + out.length) = buffer.drop (i + (c :: out).length) := by
    rw [List.drop_set_of_lt (by omega), List.length_cons, Nat.add_assoc, Nat.add_comm 1]
  rw [overwrite, overwrite, front, back]
  simp

theorem length_overwrite (h : i + out.length ≤ buffer.length) :
    (overwrite buffer i out).length = buffer.length := by
  simp only [overwrite, List.length_append, List.length_take, List.length_drop]
  omega

-- The loop over the buffer is the one of the text, with the buffer's room.
theorem copyQuoted_eq (h : i + room + 1 = buffer.length) :
    copyQuoted p i buffer =
      ((stringLoop room p).2, i + (stringLoop room p).1.length, overwrite buffer i (stringLoop room p).1) := by
  induction room, p using stringLoop.induct generalizing i buffer
  case case1 p =>
    have full : ¬i < buffer.length - 1 := by omega
    unfold copyQuoted
    split <;> simp [stringLoop, full, overwrite_nil]
  case case2 => simp [copyQuoted, stringLoop, overwrite_nil]
  case case3 => simp [copyQuoted, stringLoop, overwrite_nil]
  case case4 room c p out rest hs ih =>
    have free : i < buffer.length - 1 := by omega
    have next := @ih (buffer.set i c) (i + 1) (by rw [List.length_set]; omega)
    rw [copyQuoted, if_pos free, next, stringLoop, overwrite_set (by omega)]
    simp [Nat.add_assoc, Nat.add_comm 1]
  case case5 room c p hq hb out rest hs ih =>
    have free : i < buffer.length - 1 := by omega
    have next := @ih (buffer.set i c) (i + 1) (by rw [List.length_set]; omega)
    rw [copyQuoted, if_pos free, next, stringLoop, overwrite_set (by omega)]
    · simp [Nat.add_assoc, Nat.add_comm 1]
    all_goals assumption

theorem stringLoop_plain (hq : c ≠ 34) (hb : ∀ d t, c = 92 → p ≠ d :: t) :
    stringLoop (room + 1) (c :: p) = (c :: (stringLoop room p).1, (stringLoop room p).2) := by
  rw [stringLoop]
  · exact hq
  · exact hb

theorem stringLoop_length : (stringLoop room p).1.length ≤ room := by
  induction room, p using stringLoop.induct
  case case1 => exact Nat.le_refl 0
  case case2 => exact Nat.zero_le _
  case case3 => exact Nat.zero_le _
  case case4 ih => exact Nat.succ_le_succ ih
  case case5 hq hb _ _ _ ih =>
    rw [stringLoop_plain hq hb]
    exact Nat.succ_le_succ ih

theorem copyBare_eq (h : i + room + 1 = buffer.length) :
    copyBare p i buffer =
      (i + ((p.takeWhile isBare).take room).length, overwrite buffer i ((p.takeWhile isBare).take room)) := by
  induction p generalizing i room buffer
  case nil => simp [copyBare, overwrite_nil]
  case cons c p ih =>
    by_cases hc : isBare c
    case neg => simp [copyBare, hc, overwrite_nil]
    case pos =>
      obtain _ | room := room
      case zero =>
        have full : ¬i < buffer.length - 1 := by omega
        simp [copyBare, full, overwrite_nil]
      case succ =>
        have free : i < buffer.length - 1 := by omega
        have next := @ih (buffer.set i c) (i + 1) room (by rw [List.length_set]; omega)
        rw [copyBare, hc, Bool.true_and, if_pos (decide_eq_true free), next,
          List.takeWhile_cons_of_pos hc, List.take_succ_cons, overwrite_set (by omega)]
        simp [Nat.add_assoc, Nat.add_comm 1]

-- The terminator behind the bytes that were written.
theorem set_overwrite (h : i + out.length < buffer.length) :
    (overwrite buffer i out).set (i + out.length) c = overwrite buffer i (out ++ [c]) := by
  have front : (buffer.take i ++ out).length = i + out.length := by
    rw [List.length_append, List.length_take]
    omega
  have rest : buffer.drop (i + out.length) = buffer[i + out.length] :: buffer.drop (i + out.length + 1) :=
    List.drop_eq_getElem_cons h
  rw [overwrite, List.set_append_right _ _ (by omega), front, Nat.sub_self, rest]
  simp [overwrite, Nat.add_assoc]

theorem overwrite_start (h : out ≠ []) : overwrite (buffer.set 0 c) 0 out = overwrite buffer 0 out := by
  have hl := List.length_pos_iff.mpr h
  rw [overwrite, overwrite, List.drop_set_of_lt (by omega)]
  simp

theorem set_written (hl : out.length < buffer.length) :
    (overwrite (buffer.set 0 0) 0 out).set out.length 0 = overwrite buffer 0 (out ++ [0]) := by
  have written := @set_overwrite out (buffer.set 0 0) 0 0 (by rw [List.length_set]; omega)
  rw [Nat.zero_add] at written
  rw [written, overwrite_start (by simp)]

theorem getValueInto_none (h : 0 < buffer.length) (hp : valuePlace json key = none) :
    getValueInto json key buffer = (-1, buffer.set 0 0) := by
  obtain _ | ⟨b, bs⟩ := buffer
  case nil => contradiction
  case cons => simp [getValueInto, hp]

theorem getValueInto_quoted (h : 0 < buffer.length) (hp : valuePlace json key = some (34 :: p)) :
    getValueInto json key buffer =
      if (stringLoop (buffer.length - 1) p).2.head? = some 34
      then (0, overwrite buffer 0 ((stringLoop (buffer.length - 1) p).1 ++ [0]))
      else (-1, overwrite (buffer.set 0 0) 0 (stringLoop (buffer.length - 1) p).1) := by
  have nonempty : buffer.isEmpty = false := by cases buffer; contradiction; rfl
  have hl := @stringLoop_length p (buffer.length - 1)
  have copied := @copyQuoted_eq p (buffer.set 0 0) 0 (buffer.length - 1) (by rw [List.length_set]; omega)
  have written := set_written (show (stringLoop (buffer.length - 1) p).1.length < buffer.length by omega)
  simp only [getValueInto, nonempty, hp, copied, Nat.zero_add, written, Bool.false_eq_true, if_false]

theorem getValueInto_bare (h : 0 < buffer.length) (hp : valuePlace json key = some p)
    (hq : p.head? ≠ some 34) :
    getValueInto json key buffer =
      (0, overwrite buffer 0 ((p.takeWhile isBare).take (buffer.length - 1) ++ [0])) := by
  have nonempty : buffer.isEmpty = false := by cases buffer; contradiction; rfl
  have hl := List.length_take_le (buffer.length - 1) (p.takeWhile isBare)
  have copied := @copyBare_eq p (buffer.set 0 0) 0 (buffer.length - 1) (by rw [List.length_set]; omega)
  have written := set_written
    (show ((p.takeWhile isBare).take (buffer.length - 1)).length < buffer.length by omega)
  simp only [getValueInto, nonempty, hp, Bool.false_eq_true, if_false]
  split
  case h_1 => exact absurd rfl hq
  case h_2 => rw [copied, Nat.zero_add, written]

theorem readValue_eq {q : CString} (hq : (p.dropWhile fun c => isSpace c || c == 58) = q) :
    readValue p size =
      if q.head? = some 34
      then (if (stringLoop (size - 1) q.tail).2.head? = some 34 then 0 else -1,
        (stringLoop (size - 1) q.tail).1)
      else (0, (q.takeWhile isBare).take (size - 1)) := by
  unfold readValue
  dsimp only
  rw [hq]
  split
  case h_1 => rfl
  case h_2 hn =>
    rw [if_neg fun hh => ?_]
    obtain ⟨t, ht⟩ := List.head?_eq_some_iff.mp hh
    exact hn t ht

-- The buffer after a call with this return code and text, which has a terminator on success.
def filled (buffer : List UInt8) (r : Int × CString) : Int × List UInt8 :=
  (r.1, if r.1 = 0 then overwrite buffer 0 (r.2 ++ [0]) else overwrite (buffer.set 0 0) 0 r.2)

theorem getValueInto_eq (h : 0 < buffer.length) :
    getValueInto json key buffer = filled buffer (getValue json key buffer.length) := by
  unfold getValue
  cases hs : strstr json (quoted key)
  case none =>
    rw [getValueInto_none h (by rw [valuePlace, hs]; rfl)]
    simp [filled, overwrite_nil]
  case some p =>
    have place : valuePlace json key =
        some ((p.drop (quoted key).length).dropWhile fun c => isSpace c || c == 58) := by
      rw [valuePlace, hs]
      rfl
    dsimp only
    rw [readValue_eq rfl]
    generalize (p.drop (quoted key).length).dropWhile (fun c => isSpace c || c == 58) = q at place ⊢
    by_cases hq : q.head? = some 34
    case pos =>
      obtain ⟨t, rfl⟩ := List.head?_eq_some_iff.mp hq
      rw [getValueInto_quoted h place, if_pos hq, List.tail_cons]
      split_ifs <;> rfl
    case neg =>
      rw [getValueInto_bare h place hq, if_neg hq]
      rfl

-- In front of a closing quote the loop has taken off a text with escapes.
theorem stringLoop_taken (h : (stringLoop room p).2.head? = some 34) :
    ∃ s, p = s ++ (stringLoop room p).2 ∧ Unescapes s (stringLoop room p).1 := by
  induction room, p using stringLoop.induct
  case case1 => exact ⟨[], rfl, .nil⟩
  case case2 => exact ⟨[], rfl, .nil⟩
  case case3 => exact ⟨[], rfl, .nil⟩
  case case4 room c p out rest hs ih =>
    obtain ⟨s, hp, hu⟩ := ih h
    refine ⟨92 :: c :: s, ?_, .escaped c hu⟩
    rw [stringLoop, List.cons_append, List.cons_append, ← hp]
  case case5 room c p hq hb out rest hs ih =>
    rw [stringLoop_plain hq hb] at h ⊢
    obtain ⟨s, hp, hu⟩ := ih h
    have plain : c ≠ 92 := by
      rintro rfl
      obtain _ | ⟨d, p⟩ := p
      case nil => cases room <;> cases h
      case cons => exact hb d p rfl rfl
    refine ⟨c :: s, ?_, .plain c hq plain hu⟩
    rw [List.cons_append, ← hp]

theorem stringLoop_of_unescapes (h : Unescapes s v) (hl : v.length ≤ room) :
    stringLoop room (s ++ 34 :: rest) = (v, 34 :: rest) := by
  induction h generalizing room
  case nil => cases room <;> rfl
  case plain c hq hb _ ih =>
    obtain _ | room := room
    case zero => contradiction
    case succ =>
      rw [List.cons_append, stringLoop, ih (Nat.le_of_succ_le_succ hl)]
      · exact hq
      · intro d t hc
        exact absurd hc hb
  case escaped c _ ih =>
    obtain _ | room := room
    case zero => contradiction
    case succ =>
      rw [List.cons_append, List.cons_append, stringLoop, ih (Nat.le_of_succ_le_succ hl)]

-- A failed call leaves an empty string, and a string value is complete: the text up to its closing
-- quote without one level of its backslashes, and a terminator behind it.
def AllOrNothing (json key : CString) (buffer : List UInt8) : Prop :=
  let (rc, out) := getValueInto json key buffer
  (rc ≠ 0 → out.head? = some 0) ∧
  (rc = 0 → ∀ p, valuePlace json key = some (34 :: p) →
    ∃ s v rest, p = s ++ 34 :: rest ∧ Unescapes s v ∧ v ++ [0] <+: out)

-- A string value is empty text, or it is closed and fits, or the buffer has room for a terminator only.
def FitsValue (json key : CString) (size : Nat) : Prop :=
  ∀ p, valuePlace json key = some (34 :: p) →
    p = [] ∨ size = 1 ∨ ∃ s v rest, p = s ++ 34 :: rest ∧ Unescapes s v ∧ v.length < size

theorem strstr_suffix {t : CString} (h : strstr s p = some t) : t <:+ s := by
  induction s
  case nil =>
    rw [strstr] at h
    split at h
    case isTrue  => exact Option.some.inj h ▸ List.suffix_rfl
    case isFalse => contradiction
  case cons c s ih =>
    rw [strstr_cons] at h
    split at h
    case isTrue  => exact Option.some.inj h ▸ List.suffix_rfl
    case isFalse => exact (ih h).trans (List.suffix_cons c s)

theorem place_suffix (hp : valuePlace json key = some p) : p <:+ json := by
  obtain ⟨q, hq, rfl⟩ := Option.map_eq_some_iff.mp hp
  exact (List.dropWhile_suffix _).trans ((List.drop_suffix _ _).trans (strstr_suffix hq))

-- The first byte that the loop takes off is a byte of the text.
theorem stringLoop_head (hr : 0 < room) (hn : p ≠ []) (hq : p.head? ≠ some 34) :
    ∃ c ∈ p, (stringLoop room p).1.head? = some c := by
  obtain _ | room := room
  case zero => contradiction
  case succ =>
    obtain _ | ⟨c, p⟩ := p
    case nil => contradiction
    case cons =>
      by_cases hb : ∃ d t, c = 92 ∧ p = d :: t
      case pos =>
        obtain ⟨d, t, rfl, rfl⟩ := hb
        exact ⟨d, by simp, rfl⟩
      case neg =>
        rw [stringLoop_plain (fun h => hq (h ▸ rfl)) fun d t hc hp => hb ⟨d, t, hc, hp⟩]
        exact ⟨c, by simp, rfl⟩

theorem head_overwrite {d : UInt8} (h : out.head? = some d) : (overwrite buffer 0 out).head? = some d := by
  obtain ⟨t, rfl⟩ := List.head?_eq_some_iff.mp h
  rfl

-- By the reasons for which the loop stops: the closing quote, the end of the text, the full buffer.
theorem all_or_nothing_iff (hz : 0 ∉ json) (hb : 0 < buffer.length) :
    AllOrNothing json key buffer ↔ FitsValue json key buffer.length := by
  have cleared : (buffer.set 0 0).head? = some 0 := by
    obtain _ | ⟨b, bs⟩ := buffer
    case nil  => contradiction
    case cons => rfl
  unfold AllOrNothing FitsValue
  cases hp : valuePlace json key
  case none =>
    rw [getValueInto_none hb hp]
    exact iff_of_true ⟨fun _ => cleared, nofun⟩ nofun
  case some q =>
    by_cases hq : q.head? = some 34
    case neg =>
      have bare {p : CString} (h : some q = some (34 :: p)) : False :=
        hq (by rw [Option.some.inj h]; rfl)
      rw [getValueInto_bare hb hp hq]
      exact iff_of_true ⟨fun h => absurd rfl h, fun _ _ h => (bare h).elim⟩ fun _ h => (bare h).elim
    case pos =>
      obtain ⟨p, rfl⟩ := List.head?_eq_some_iff.mp hq
      have text : 0 ∉ p := fun hm => hz ((place_suffix hp).subset (.tail _ hm))
      rw [getValueInto_quoted hb hp]
      by_cases closed : (stringLoop (buffer.length - 1) p).2.head? = some 34
      case pos =>
        obtain ⟨s, he, hu⟩ := stringLoop_taken closed
        obtain ⟨rest, hr⟩ := List.head?_eq_some_iff.mp closed
        rw [hr] at he
        have hl := @stringLoop_length p (buffer.length - 1)
        rw [if_pos closed]
        refine iff_of_true ⟨fun h => absurd rfl h, fun _ p' h => ?_⟩ fun p' h => ?_
        case refine_1 => cases h; exact ⟨s, _, rest, he, hu, List.prefix_append _ _⟩
        case refine_2 => cases h; exact .inr (.inr ⟨s, _, rest, he, hu, by omega⟩)
      case neg =>
        rw [if_neg closed]
        by_cases small : p = [] ∨ buffer.length = 1
        case pos =>
          have nothing : (stringLoop (buffer.length - 1) p).1 = [] := by
            rcases small with rfl | hl
            case inl => simp
            case inr => rw [hl]; rfl
          rw [nothing, overwrite_nil]
          refine iff_of_true ⟨fun _ => cleared, nofun⟩ fun p' h => ?_
          cases h
          exact small.imp_right .inl
        case neg =>
          obtain ⟨hn, h1⟩ := not_or.mp small
          have unquoted : p.head? ≠ some 34 := by
            intro hq
            obtain ⟨t, rfl⟩ := List.head?_eq_some_iff.mp hq
            exact closed (by rw [← List.nil_append (34 :: t), stringLoop_of_unescapes .nil (Nat.zero_le _)]; rfl)
          obtain ⟨c, hc, hh⟩ := @stringLoop_head p (buffer.length - 1) (by omega) hn unquoted
          refine iff_of_false (fun h => ?_) fun h => ?_
          case refine_1 =>
            have zero := h.left (show (-1 : Int) ≠ 0 by decide)
            rw [head_overwrite hh] at zero
            exact text (Option.some.inj zero ▸ hc)
          case refine_2 =>
            rcases h p rfl with h | h | ⟨s, v, rest, rfl, hu, hl⟩
            case inl        => exact hn h
            case inr.inl    => exact h1 h
            case inr.inr    => exact closed (by rw [stringLoop_of_unescapes hu (by omega)]; rfl)

def sample : CString := "\x7b\"name\": \"a\\\"bc\"\x7d"

theorem sample_fits : AllOrNothing sample "name" [1, 1, 1, 1, 1] := by
  refine (all_or_nothing_iff (by decide) (by decide)).mpr fun p hp => .inr (.inr ?_)
  have place : valuePlace sample "name" = some (34 :: CString.ofString "a\\\"bc\"\x7d") := by decide
  rw [place] at hp
  cases hp
  refine ⟨CString.ofString "a\\\"bc", CString.ofString "a\"bc", [125], by decide, ?_, by decide⟩
  exact .plain 97 (by decide) (by decide) (.escaped 34 (.plain 98 (by decide) (by decide)
    (.plain 99 (by decide) (by decide) .nil)))

-- The first bytes of a value that does not fit stay in the buffer, without a terminator.
theorem sample_cut :
    getValueInto sample "name" [1, 1, 1] = (-1, [97, 34, 1]) ∧ ¬AllOrNothing sample "name" [1, 1, 1] := by
  have cut : getValueInto sample "name" [1, 1, 1] = (-1, [97, 34, 1]) := by decide
  refine ⟨cut, fun h => ?_⟩
  unfold AllOrNothing at h
  rw [cut] at h
  exact absurd (h.left (show (-1 : Int) ≠ 0 by decide)) (by decide)

end Deneb.Json
