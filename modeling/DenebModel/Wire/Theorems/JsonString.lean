import DenebModel.Primitives.Theorems.JsonNumber
import DenebModel.Wire.Theorems.JsonField

namespace Deneb.Json

open CString JsonText BinaryFloat

variable {s front back out : CString} {c : UInt8} {size room : Nat}

-- The output is terminated within the buffer, it is the text of a JSON string, and it stands for a
-- prefix of the source without its control bytes.
def IsEscaped (s : CString) (size : Nat) (out : CString) : Prop :=
  out.length < size ∧ ∃ value, Characters out value ∧ value <+: visible s

-- A quote or a backslash of the source meets a buffer with room for a single byte.
def CutAtSpecial (s : CString) (size : Nat) : Prop :=
  ∃ front c back, s = front ++ c :: back ∧ (c = 34 ∨ c = 92) ∧ (escape front).length + 2 = size

theorem cutAtSpecial_iff : CutAtSpecial s size ↔ ∃ i, ∃ h : i < s.length,
    (s[i] = 34 ∨ s[i] = 92) ∧ (escape (s.take i)).length + 2 = size := by
  constructor
  case mp =>
    rintro ⟨front, c, back, rfl, hc, hl⟩
    refine ⟨front.length, by simp, ?_, ?_⟩
    case refine_1 => simpa using hc
    case refine_2 => simpa using hl
  case mpr =>
    rintro ⟨i, hi, hc, hl⟩
    refine ⟨s.take i, s[i], s.drop (i + 1), ?_, hc, hl⟩
    rw [← List.drop_eq_getElem_cons hi, List.take_append_drop]

instance : Decidable (CutAtSpecial s size) :=
  decidable_of_iff _ cutAtSpecial_iff.symm

theorem characters_escape : Characters (escape s) (visible s) := by
  induction s
  case nil => exact .nil
  case cons c s ih =>
    rw [escape_cons]
    by_cases hs : c = 34 ∨ c = 92
    case pos =>
      have hv : visible (c :: s) = c :: visible s := by
        refine List.filter_cons_of_pos ?_
        obtain rfl | rfl := hs <;> decide
      rw [escapeByte_special hs, hv]
      refine .escaped c c ?_ ih
      obtain rfl | rfl := hs <;> decide
    case neg =>
      obtain ⟨hq, hb⟩ := not_or.mp hs
      by_cases hc : 32 ≤ c
      case pos =>
        have hv : visible (c :: s) = c :: visible s := List.filter_cons_of_pos (by simpa using hc)
        rw [escapeByte_plain hq hb hc, hv]
        exact .plain c hc hq hb ih
      case neg =>
        have hv : visible (c :: s) = visible s := List.filter_cons_of_neg (by simpa using hc)
        have he : escapeByte c = [] := by simp [escapeByte, hq, hb, hc]
        rwa [he, hv]

-- The rest of a text behind escaped bytes is a text of its own.
theorem characters_of_escape {t value : CString} (h : Characters (escape s ++ t) value) :
    ∃ value', Characters t value' := by
  induction s generalizing value
  case nil => exact ⟨value, h⟩
  case cons c s ih =>
    rw [escape_cons, List.append_assoc] at h
    by_cases hs : c = 34 ∨ c = 92
    case pos =>
      rw [escapeByte_special hs] at h
      have ⟨_, h⟩ := h.of_escaped (by obtain rfl | rfl := hs <;> decide)
      exact ih h
    case neg =>
      obtain ⟨hq, hb⟩ := not_or.mp hs
      by_cases hc : 32 ≤ c
      case pos =>
        rw [escapeByte_plain hq hb hc] at h
        have ⟨_, h⟩ := h.of_plain hb
        exact ih h
      case neg =>
        have he : escapeByte c = [] := by simp [escapeByte, hq, hb, hc]
        rw [he] at h
        exact ih h

-- What is written when a quote or a backslash finds room for one byte only.
theorem escapeLoop_cut (hc : c = 34 ∨ c = 92) :
    escapeLoop ((escape front).length + 1) (front ++ c :: back) = escape front ++ [c] := by
  induction front
  case nil =>
    have h32 : 32 ≤ c := by obtain rfl | rfl := hc <;> decide
    have full : escapeLoop 0 back = [] := by cases back <;> rfl
    simp [escapeLoop, h32, full]
  case cons d front ih =>
    rw [escape_cons, List.cons_append]
    by_cases hs : d = 34 ∨ d = 92
    case pos =>
      simp [escapeByte_special hs, escapeLoop, hs, ih]
    case neg =>
      obtain ⟨hq, hb⟩ := not_or.mp hs
      by_cases h32 : 32 ≤ d
      case pos => simp [escapeByte_plain hq hb h32, escapeLoop, hs, h32, ih]
      case neg =>
        have he : escapeByte d = [] := by simp [escapeByte, hq, hb, h32]
        rw [he, List.nil_append]
        cases hl : (escape front).length
        case zero => rw [hl] at ih; simp [escapeLoop, h32, ih]
        case succ => rw [hl] at ih; simp [escapeLoop, hs, h32, ih]

-- Otherwise the bytes of a part of the source are written as they are escaped.
theorem escapeLoop_whole (h : ∀ front c back, s = front ++ c :: back → (c = 34 ∨ c = 92) →
    (escape front).length + 1 ≠ room) :
    ∃ front, front <+: s ∧ escapeLoop room s = escape front ∧ (escape front).length ≤ room := by
  induction s generalizing room
  case nil => exact ⟨[], List.nil_prefix, by cases room <;> rfl, Nat.zero_le _⟩
  case cons c s ih =>
    have later {room' : Nat} (he : (escapeByte c).length + room' = room) : ∃ front, front <+: s ∧
        escapeLoop room' s = escape front ∧ (escape front).length ≤ room' := by
      refine ih fun front d back hs hd hl => h (c :: front) d back (by rw [hs]; rfl) hd ?_
      rw [escape_cons, List.length_append]
      omega
    have next {room' : Nat} (he : (escapeByte c).length + room' = room)
        (hw : escapeLoop room (c :: s) = escapeByte c ++ escapeLoop room' s) :
        ∃ front, front <+: c :: s ∧ escapeLoop room (c :: s) = escape front ∧
          (escape front).length ≤ room := by
      have ⟨front, hp, hf, hl⟩ := later he
      refine ⟨c :: front, List.cons_prefix_cons.mpr ⟨rfl, hp⟩, by rw [hw, hf]; rfl, ?_⟩
      rw [escape_cons, List.length_append]
      omega
    by_cases hs : c = 34 ∨ c = 92
    case pos =>
      have hb := escapeByte_special hs
      match room with
      | 0        => exact ⟨[], List.nil_prefix, rfl, Nat.zero_le _⟩
      | 1        => exact absurd rfl (h [] c s rfl hs)
      | room + 2 => exact next (by rw [hb]; exact Nat.add_comm ..) (by simp [escapeLoop, hs, hb])
    case neg =>
      obtain ⟨hq, hb⟩ := not_or.mp hs
      by_cases h32 : 32 ≤ c
      case pos =>
        have hb := escapeByte_plain hq hb h32
        match room with
        | 0        => exact ⟨[], List.nil_prefix, rfl, Nat.zero_le _⟩
        | 1        => exact @next 0 (by rw [hb]; rfl) (by simp [escapeLoop, h32, hb])
        | room + 2 =>
          exact next (by rw [hb]; exact Nat.add_comm ..) (by simp [escapeLoop, hs, h32, hb])
      case neg =>
        have hb : escapeByte c = [] := by simp [escapeByte, hq, hb, h32]
        match room with
        | 0        => exact ⟨[], List.nil_prefix, rfl, Nat.zero_le _⟩
        | 1        => exact @next 1 (by rw [hb]; rfl) (by simp [escapeLoop, h32, hb])
        | room + 2 =>
          exact @next (room + 2) (by rw [hb]; exact Nat.zero_add _)
            (by simp [escapeLoop, hs, h32, hb])

theorem visible_prefix (h : front <+: s) : visible front <+: visible s :=
  h.filter _

-- Both copies of the function write a JSON string exactly when no special byte is cut in two.
theorem escape_wellFormed_iff (h : 0 < size) :
    IsEscaped s size (escapeString s size) ∧ IsEscaped s size (dfsvcEscapeString (some s) size) ↔
      ¬CutAtSpecial s size := by
  have same : dfsvcEscapeString (some s) size = escapeString s size := rfl
  rw [same, and_self]
  constructor
  case mp =>
    rintro ⟨_, value, hc, _⟩ ⟨front, c, back, rfl, hs, rfl⟩
    have cut : escapeString (front ++ c :: back) ((escape front).length + 2) = escape front ++ [c] :=
      escapeLoop_cut hs
    rw [cut] at hc
    have ⟨_, hc⟩ := characters_of_escape hc
    cases hs
    case inl hq => exact not_characters_quote (hq ▸ hc)
    case inr hb => exact not_characters_backslash (hb ▸ hc)
  case mpr =>
    intro hn
    have ⟨front, hp, hf, hl⟩ := @escapeLoop_whole s (size - 1) fun front c back hs hc hl =>
      hn ⟨front, c, back, hs, hc, by omega⟩
    rw [IsEscaped, escapeString, hf]
    exact ⟨by omega, _, characters_escape, visible_prefix hp⟩

theorem escape_wellFormed_short :
    IsEscaped "a\"b" 5 (escapeString "a\"b" 5) ∧
      IsEscaped "a\"b" 5 (dfsvcEscapeString (some "a\"b") 5) :=
  (escape_wellFormed_iff (by decide)).mpr (by decide)

-- A quote that finds room for one byte is written without its backslash.
theorem escape_not_wellFormed : ¬∀ (s : CString) (size : Nat), 0 < size →
    IsEscaped s size (escapeString s size) := by
  intro h
  have ⟨_, _, hc, _⟩ := h "\"" 2 (by decide)
  exact not_characters_quote hc

end Deneb.Json
