import DenebModel.Wire.CommandFormat

namespace Deneb

open CString Json

namespace Json

@[simp] theorem escape_nil : escape [] = [] := rfl

theorem escape_cons {c : UInt8} {s : CString} : escape (c :: s) = escapeByte c ++ escape s := rfl

theorem escape_append {s t : CString} : escape (s ++ t) = escape s ++ escape t :=
  List.flatMap_append

theorem escapeByte_special {c : UInt8} (h : c = 34 ∨ c = 92) : escapeByte c = [92, c] := by
  simp [escapeByte, h]

theorem escapeByte_plain {c : UInt8} (hq : c ≠ 34) (hb : c ≠ 92) (hc : 32 ≤ c) :
    escapeByte c = [c] := by
  simp [escapeByte, hq, hb, hc]

-- A text of bytes that are not dropped when it is escaped.
def Visible (s : CString) : Prop :=
  ∀ c ∈ s, 32 ≤ c

instance (s : CString) : Decidable (Visible s) :=
  inferInstanceAs (Decidable (∀ c ∈ s, 32 ≤ c))

theorem Visible.head {c : UInt8} {s : CString} (h : Visible (c :: s)) : 32 ≤ c :=
  h c List.mem_cons_self

theorem Visible.tail {c : UInt8} {s : CString} (h : Visible (c :: s)) : Visible s :=
  fun d hd => h d (List.mem_cons_of_mem _ hd)

theorem Visible.suffix {s t : CString} (h : Visible (s ++ t)) : Visible t :=
  fun d hd => h d (List.mem_append_right _ hd)

-- A text of printable bytes.
def Printable (s : CString) : Prop :=
  ∀ c ∈ s, 32 ≤ c ∧ c ≤ 126

instance (s : CString) : Decidable (Printable s) :=
  inferInstanceAs (Decidable (∀ c ∈ s, 32 ≤ c ∧ c ≤ 126))

theorem Printable.visible {s : CString} (h : Printable s) : Visible s :=
  fun c hc => (h c hc).left

theorem quote_mem_escape {s : CString} : 34 ∈ escape s ↔ 34 ∈ s := by
  induction s
  case nil => simp
  case cons c s hi =>
    rw [escape_cons, List.mem_append, List.mem_cons, hi]
    by_cases hc : c = 34
    · simp [hc, escapeByte]
    · have hb : 34 ∉ escapeByte c := by
        unfold escapeByte
        split_ifs <;> simp [Ne.symm hc]
      simp [hb, Ne.symm hc]

theorem escape_split {u v : CString} : escape (u ++ 34 :: v) = escape u ++ [92] ++ 34 :: escape v := by
  rw [escape_append, escape_cons, escapeByte_special (.inl rfl)]
  simp

theorem quote_notMem_escape_snoc {u : CString} (h : 34 ∉ u) : 34 ∉ escape u ++ [92] := by
  simp [quote_mem_escape, h]

theorem takeWhile_quote {s text : CString} (h : 34 ∉ s) :
    (s ++ text).takeWhile (· != 34) = s ++ text.takeWhile (· != 34) := by
  refine List.takeWhile_append_of_pos fun c hc => ?_
  simp only [bne_iff_ne]
  rintro rfl
  exact h hc

-- The text in front of the first quote is determined.
theorem first_quote {s t a b : CString} (hs : 34 ∉ s) (ht : 34 ∉ t)
    (h : s ++ 34 :: a = t ++ 34 :: b) : s = t ∧ a = b := by
  have hst : s = t := by
    have hw := congrArg (List.takeWhile (· != 34)) h
    rw [takeWhile_quote hs, takeWhile_quote ht] at hw
    simpa using hw
  subst hst
  simpa using h

-- A text that needs no backslashes.
def Plain (s : CString) : Prop :=
  ∀ c ∈ s, c ≠ 34 ∧ c ≠ 92

instance (s : CString) : Decidable (Plain s) :=
  inferInstanceAs (Decidable (∀ c ∈ s, c ≠ 34 ∧ c ≠ 92))

theorem Plain.escape_eq {s : CString} (h : Plain s) (hp : Visible s) : escape s = s := by
  induction s
  case nil => rfl
  case cons c s hi =>
    have hc := h c List.mem_cons_self
    rw [escape_cons, escapeByte_plain hc.left hc.right hp.head,
      hi (fun d hd => h d (List.mem_cons_of_mem _ hd)) hp.tail]
    rfl

theorem length_le_length_escape {s : CString} (hp : Visible s) :
    s.length ≤ (escape s).length := by
  induction s
  case nil => simp
  case cons c s hi =>
    have h := hi hp.tail
    have hb : 1 ≤ (escapeByte c).length := by
      unfold escapeByte
      split_ifs <;> simp_all [hp.head]
    simp only [escape_cons, List.length_append, List.length_cons]
    omega

end Json

namespace Command

theorem append_eq_some {size : Nat} {text out frame : CString}
    (h : append size text out = some frame) : frame = out ++ text ∧ frame.length < size := by
  unfold append at h
  split at h
  case isTrue hl =>
    injection h with h
    subst h
    refine ⟨rfl, ?_⟩
    rw [List.length_append]
    omega
  case isFalse => contradiction

theorem appendEscaped_eq_some {size : Nat} {text out frame : CString}
    (h : appendEscaped size text out = some frame) : frame = out ++ escape text := by
  induction text generalizing out
  case nil => simp_all [appendEscaped]
  case cons c text hi =>
    simp only [appendEscaped, Option.bind_eq_bind] at h
    split_ifs at h with hs hc
    · obtain ⟨mid, hm, h⟩ := Option.bind_eq_some_iff.mp h
      rw [hi h, (append_eq_some hm).left, escape_cons, escapeByte_special hs, List.append_assoc]
    · obtain ⟨mid, hm, h⟩ := Option.bind_eq_some_iff.mp h
      simp only [not_or] at hs
      rw [hi h, (append_eq_some hm).left, escape_cons, escapeByte_plain hs.left hs.right hc,
        List.append_assoc]
    · rw [hi h, escape_cons]
      simp [escapeByte, hs, hc]

end Command

end Deneb
