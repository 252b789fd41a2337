import DenebModel.Primitives.JsonText
import Mathlib.Data.List.TakeWhile

namespace JsonText

variable {e s t t₁ t₂ t₃ u v w : Bytes} {es es' : List Bytes} {c : UInt8} {k : Kind}

section Skip

theorem skip_eq : ∃ sp, t = sp ++ skip t ∧ ∀ c ∈ sp, isSpace c :=
  ⟨t.takeWhile isSpace, List.takeWhile_append_dropWhile.symm, fun _ => List.mem_takeWhile_imp⟩

theorem skip_cons (h : isSpace c = false) : skip (c :: t) = c :: t :=
  List.dropWhile_cons_of_neg (by simp [h])

theorem skip_append_of_space (h : ∀ c ∈ s, isSpace c) : skip (s ++ t) = skip t := by
  induction s
  case nil => rfl
  case cons c s ih =>
    rw [List.cons_append, skip, List.dropWhile_cons_of_pos (h c (.head _))]
    exact ih fun c hc => h c (.tail _ hc)

theorem isSpace_of_skip (h : skip t = c :: t₁) : isSpace c = false := by
  have := List.head?_dropWhile_not isSpace t
  rw [← skip, h] at this
  exact this

theorem not_zero_of_isSpace (h : isSpace c) : c ≠ 0 := by
  rintro rfl
  contradiction

-- A text is the rest of another one, and what is in front of it has no NUL.
def Rest (t t₁ : Bytes) : Prop :=
  ∃ front, t = front ++ t₁ ∧ 0 ∉ front

theorem Rest.refl : Rest t t :=
  ⟨[], rfl, List.not_mem_nil⟩

theorem Rest.trans (h : Rest t t₁) (h' : Rest t₁ t₂) : Rest t t₂ := by
  obtain ⟨front, rfl, hz⟩ := h
  obtain ⟨front', rfl, hz'⟩ := h'
  exact ⟨front ++ front', (List.append_assoc ..).symm, by simp [hz, hz']⟩

theorem Rest.of_append (h : 0 ∉ s) : Rest (s ++ t) t :=
  ⟨s, rfl, h⟩

theorem Rest.of_cons (h : c ≠ 0) : Rest (c :: t) t :=
  ⟨[c], rfl, by simpa using h.symm⟩

theorem rest_skip : Rest t (skip t) :=
  have ⟨sp, he, hs⟩ := @skip_eq t
  ⟨sp, he, fun hz => not_zero_of_isSpace (hs 0 hz) rfl⟩

theorem Rest.of_skip (h : skip t = c :: t₁) (hc : c ≠ 0) : Rest t t₁ :=
  rest_skip.trans (by rw [h]; exact .of_cons hc)

end Skip

section Text

theorem hexDigit_zero : hexDigit 0 = none := rfl

theorem characters_of_plain (h : ∀ c ∈ s, c ≠ 34 ∧ c ≠ 92 ∧ 32 ≤ c) : Characters s s := by
  induction s
  case nil => exact .nil
  case cons c s ih =>
    have ⟨hq, hb, hc⟩ := h c (.head _)
    exact .plain c hc hq hb (ih fun c hc => h c (.tail _ hc))

theorem Characters.no_zero (h : Characters s v) : 0 ∉ s := by
  induction h
  case nil => exact List.not_mem_nil
  case plain c hc _ _ _ ih =>
    simp only [List.mem_cons, not_or]
    exact ⟨fun hz => absurd (hz ▸ hc) (by decide), ih⟩
  case escaped c d hm _ ih =>
    simp only [List.mem_cons, not_or]
    exact ⟨by decide, fun hz => absurd (hz ▸ hm) (by simp [escapes]), ih⟩
  case unicode a b c d ha hb hc hd _ ih =>
    have digit {x : UInt8} {n : Nat} (h : hexDigit x = some n) : ¬0 = x := by
      rintro rfl
      rw [hexDigit_zero] at h
      contradiction
    simp only [List.mem_cons, not_or]
    exact ⟨by decide, by decide, digit ha, digit hb, digit hc, digit hd, ih⟩

theorem IsDigits.no_zero (h : IsDigits s) : 0 ∉ s :=
  fun hz => absurd (h.digits 0 hz).1 (by decide)

theorem Number.no_zero (h : Number s) : 0 ∉ s := by
  obtain ⟨sign, hs, hw, hf, hx⟩ := h
  have sign : 0 ∉ sign := by
    simp only [List.mem_cons, List.not_mem_nil, or_false] at hs
    obtain rfl | rfl := hs <;> decide
  simp only [List.mem_append, not_or]
  refine ⟨⟨⟨sign, hw.no_zero⟩, ?_⟩, ?_⟩
  case refine_1 =>
    cases hf
    case none   => exact List.not_mem_nil
    case some h => exact List.not_mem_cons_of_ne_of_not_mem (by decide) h.no_zero
  case refine_2 =>
    cases hx
    case none => exact List.not_mem_nil
    case some c sign hc hs h =>
      simp only [List.mem_cons, List.not_mem_nil, or_false] at hc hs
      simp only [List.mem_cons, List.mem_append, not_or]
      refine ⟨by obtain rfl | rfl := hc <;> decide, ?_, h.no_zero⟩
      obtain rfl | rfl | rfl := hs <;> decide

theorem Text.rest (h : Text k t t₁) : Rest t t₁ := by
  induction h
  case string h =>
    exact .trans (.of_cons (by decide)) (.trans (.of_append h.no_zero) (.of_cons (by decide)))
  case number h => exact .of_append h.no_zero
  case literal h =>
    refine .of_append ?_
    simp only [literals, List.mem_cons, List.not_mem_nil, or_false] at h
    obtain rfl | rfl | rfl := h <;> decide
  case emptyArray h  => exact .trans (.of_cons (by decide)) (.of_skip h (by decide))
  case array h ih    => exact .trans (.of_cons (by decide)) (ih.trans (.of_skip h (by decide)))
  case emptyObject h => exact .trans (.of_cons (by decide)) (.of_skip h (by decide))
  case object h ih   => exact .trans (.of_cons (by decide)) (ih.trans (.of_skip h (by decide)))
  case element ih             => exact rest_skip.trans ih
  case elements hc _ ih ih'   => exact rest_skip.trans (ih.trans (.trans (.of_skip hc (by decide)) ih'))
  case member hs hk hc _ ih   =>
    refine .trans (.of_skip hs (by decide)) ?_
    exact .trans (.of_append hk.no_zero) (.trans (.of_cons (by decide))
      (.trans (.of_skip hc (by decide)) (rest_skip.trans ih)))
  case single ih              => exact ih
  case members hc _ ih ih'    => exact ih.trans (.trans (.of_skip hc (by decide)) ih')

theorem Number.ne_nil (h : Number s) : s ≠ [] := by
  obtain ⟨_, _, whole, _, _⟩ := h
  simp [whole.nonempty]

theorem Number.head (h : Number s) : ∀ c ∈ s.head?, c = 45 ∨ 48 ≤ c ∧ c ≤ 57 := by
  obtain ⟨sign, hs, hw, hf, hx⟩ := h
  obtain ⟨d, whole, rfl⟩ := List.exists_cons_of_ne_nil hw.nonempty
  have digit := hw.digits d (.head _)
  simp only [List.mem_cons, List.not_mem_nil, or_false] at hs
  obtain rfl | rfl := hs
  case inl => simpa using Or.inr digit
  case inr => simp

-- What the first byte of a value says about the value.
theorem Text.of_brace (h : Text .value (123 :: t) t₁) :
    skip t = 125 :: t₁ ∨ ∃ t₂, Text .members t t₂ ∧ skip t₂ = 125 :: t₁ := by
  generalize he : 123 :: t = text at h
  cases h
  case emptyObject hs => cases he; exact .inl hs
  case object hm hs   => cases he; exact .inr ⟨_, hm, hs⟩
  case number h =>
    obtain ⟨c, s, rfl⟩ := List.exists_cons_of_ne_nil h.ne_nil
    cases he
    exact absurd (h.head 123 rfl) (by decide)
  case literal h =>
    simp only [literals, List.mem_cons, List.not_mem_nil, or_false] at h
    obtain rfl | rfl | rfl := h <;> cases he
  all_goals cases he

theorem IsObject.braces (h : IsObject e) : ∃ m, e = 123 :: (m ++ [125]) := by
  have ⟨brace, text⟩ := h
  obtain ⟨t, rfl⟩ : ∃ t, e = 123 :: t := List.head?_eq_some_iff.mp brace
  have closed {t₁ : Bytes} (hr : Rest t t₁) (hs : skip t₁ = [125]) : ∃ m, t = m ++ [125] := by
    obtain ⟨front, he, _⟩ := hr.trans (hs ▸ rest_skip)
    exact ⟨front, he⟩
  rcases text.of_brace with hs | ⟨t₂, hm, hs⟩
  case inl =>
    obtain ⟨m, rfl⟩ := closed .refl hs
    exact ⟨m, rfl⟩
  case inr =>
    obtain ⟨m, rfl⟩ := closed hm.rest hs
    exact ⟨m, rfl⟩

theorem IsObject.no_zero (h : IsObject e) : 0 ∉ e := by
  have ⟨front, he, hz⟩ := h.text.rest
  rwa [he, List.append_nil]

end Text

section Inversion

-- The closing quote of a string is determined by its text.
theorem Characters.unique {s' v' t' : Bytes} (h : Characters s v) (h' : Characters s' v')
    (he : s ++ 34 :: t = s' ++ 34 :: t') : s = s' ∧ t = t' := by
  induction h generalizing s' v'
  case nil =>
    cases s'
    case nil      => exact ⟨rfl, by simpa using he⟩
    case cons d _ =>
      obtain rfl : 34 = d := (List.cons.inj he).1
      exact absurd h' not_characters_quote
  case plain s _ c _ hq hb _ ih =>
    cases s'
    case nil       => exact absurd (List.cons.inj he).1 hq
    case cons d s' =>
      simp only [List.cons_append, List.cons.injEq] at he
      obtain ⟨rfl, he⟩ := he
      have ⟨_, h'⟩ := h'.of_plain hb
      have ⟨hs, ht⟩ := ih h' he
      exact ⟨by rw [hs], ht⟩
  case escaped s _ c d hm _ ih =>
    have hu : c ≠ 117 := by
      rintro rfl
      simp [escapes] at hm
    rcases s' with _ | ⟨b, _ | ⟨x, s'⟩⟩
    case nil         => exact absurd (List.cons.inj he).1 (by decide)
    case cons.nil =>
      obtain rfl : 92 = b := (List.cons.inj he).1
      exact absurd h' not_characters_backslash
    case cons.cons =>
      simp only [List.cons_append, List.cons.injEq] at he
      obtain ⟨rfl, rfl, he⟩ := he
      have ⟨_, h'⟩ := h'.of_escaped hu
      have ⟨hs, ht⟩ := ih h' he
      exact ⟨by rw [hs], ht⟩
  case unicode a b c d _ _ _ _ _ ih =>
    generalize hg : s' = g at h'
    cases h'
    case nil         => subst hg; exact absurd (List.cons.inj he).1 (by decide)
    case plain hb _  =>
      subst hg
      exact absurd (List.cons.inj he).1.symm hb
    case escaped hm _ =>
      subst hg
      obtain ⟨rfl, _⟩ := List.cons.inj (List.cons.inj he).2
      simp [escapes] at hm
    case unicode h' =>
      subst hg
      simp only [List.cons_append, List.cons.injEq, true_and] at he
      obtain ⟨rfl, rfl, rfl, rfl, he⟩ := he
      have ⟨hs, ht⟩ := ih h' he
      exact ⟨by rw [hs], ht⟩

-- The bytes of numbers.
def isNumeric (c : UInt8) : Bool :=
  c == 43 || c == 45 || c == 46 || (48 ≤ c && c ≤ 57) || c == 69 || c == 101

theorem not_space_of_isNumeric (h : isNumeric c) : isSpace c = false := by
  by_contra hs
  simp only [isSpace, Bool.not_eq_false, Bool.or_eq_true, beq_iff_eq] at hs
  obtain ((rfl | rfl) | rfl) | rfl := hs <;> contradiction

theorem IsDigits.isNumeric (h : IsDigits s) : ∀ c ∈ s, isNumeric c := by
  intro c hc
  have ⟨h₁, h₂⟩ := h.digits c hc
  simp [JsonText.isNumeric, h₁, h₂]

theorem Number.isNumeric (h : Number s) : ∀ c ∈ s, isNumeric c := by
  obtain ⟨sign, hs, hw, hf, hx⟩ := h
  simp only [List.mem_cons, List.not_mem_nil, or_false] at hs
  intro c hc
  simp only [List.mem_append] at hc
  rcases hc with ((hc | hc) | hc) | hc
  case inl.inl.inl =>
    obtain rfl | rfl := hs
    case inl => contradiction
    case inr => obtain rfl := List.mem_singleton.mp hc; rfl
  case inl.inl.inr => exact hw.isNumeric c hc
  case inl.inr =>
    cases hf
    case none   => contradiction
    case some h =>
      rcases List.mem_cons.mp hc with rfl | hc
      case inl => rfl
      case inr => exact h.isNumeric c hc
  case inr =>
    cases hx
    case none => contradiction
    case some x sign hx hs h =>
      simp only [List.mem_cons, List.not_mem_nil, or_false] at hx hs
      simp only [List.mem_cons, List.mem_append] at hc
      rcases hc with rfl | hc | hc
      case inl     => obtain rfl | rfl := hx <;> rfl
      case inr.inl =>
        obtain rfl | rfl | rfl := hs
        case inl     => contradiction
        case inr.inl => obtain rfl := List.mem_singleton.mp hc; rfl
        case inr.inr => obtain rfl := List.mem_singleton.mp hc; rfl
      case inr.inr => exact h.isNumeric c hc

theorem Text.of_quote (h : Text .value (34 :: t) t₁) : ∃ s v, t = s ++ 34 :: t₁ ∧ Characters s v := by
  generalize he : 34 :: t = text at h
  cases h
  case string h => cases he; exact ⟨_, _, rfl, h⟩
  case number h =>
    obtain ⟨c, s, rfl⟩ := List.exists_cons_of_ne_nil h.ne_nil
    cases he
    exact absurd (h.head 34 rfl) (by decide)
  case literal h =>
    simp only [literals, List.mem_cons, List.not_mem_nil, or_false] at h
    obtain rfl | rfl | rfl := h <;> cases he
  all_goals cases he

theorem Text.of_numeric (h : Text .value t t₁) (hc : ∀ c ∈ t.head?, isNumeric c) :
    ∃ s, Number s ∧ t = s ++ t₁ := by
  cases h
  case number h => exact ⟨_, h, rfl⟩
  case literal h =>
    simp only [literals, List.mem_cons, List.not_mem_nil, or_false] at h
    obtain rfl | rfl | rfl := h <;> exact absurd (hc _ rfl) (by decide)
  all_goals exact absurd (hc _ rfl) (by decide)

theorem Number.digit_of_minus (h : Number (45 :: s)) : ∃ c t, s = c :: t ∧ 48 ≤ c ∧ c ≤ 57 := by
  generalize he : 45 :: s = n at h
  obtain ⟨sign, hs, hw, _, _⟩ := h
  obtain ⟨d, whole, rfl⟩ := List.exists_cons_of_ne_nil hw.nonempty
  have digit := hw.digits d (.head _)
  simp only [List.mem_cons, List.not_mem_nil, or_false] at hs
  obtain rfl | rfl := hs
  case inl => cases he; exact absurd digit (by decide)
  case inr => cases he; exact ⟨d, _, rfl, digit⟩

-- No value starts like the names of the numbers that are not finite.
theorem not_text_nan : ¬Text .value (110 :: 97 :: t) t₁ := by
  intro h
  generalize he : 110 :: 97 :: t = text at h
  cases h
  case number h =>
    obtain ⟨c, s, rfl⟩ := List.exists_cons_of_ne_nil h.ne_nil
    obtain rfl : 110 = c := (List.cons.inj he).1
    exact absurd (h.head 110 rfl) (by decide)
  case literal h =>
    simp only [literals, List.mem_cons, List.not_mem_nil, or_false] at h
    obtain rfl | rfl | rfl := h <;> cases he
  all_goals cases he

theorem not_text_inf : ¬Text .value (105 :: t) t₁ := by
  intro h
  generalize he : 105 :: t = text at h
  cases h
  case number h =>
    obtain ⟨c, s, rfl⟩ := List.exists_cons_of_ne_nil h.ne_nil
    obtain rfl : 105 = c := (List.cons.inj he).1
    exact absurd (h.head 105 rfl) (by decide)
  case literal h =>
    simp only [literals, List.mem_cons, List.not_mem_nil, or_false] at h
    obtain rfl | rfl | rfl := h <;> cases he
  all_goals cases he

theorem not_text_minus_inf : ¬Text .value (45 :: 105 :: t) t₁ := by
  intro h
  obtain ⟨s, hs, he⟩ := h.of_numeric (by rintro _ ⟨⟩; rfl)
  obtain ⟨c, s, rfl⟩ := List.exists_cons_of_ne_nil hs.ne_nil
  obtain rfl : 45 = c := (List.cons.inj he).1
  obtain ⟨d, _, rfl, hd⟩ := hs.digit_of_minus
  cases he
  exact absurd hd (by decide)

theorem Text.skip_eq (h : Text .value t t₁) : skip t = t := by
  cases h
  case number h =>
    obtain ⟨c, s, rfl⟩ := List.exists_cons_of_ne_nil h.ne_nil
    exact skip_cons (not_space_of_isNumeric (h.isNumeric c (.head _)))
  case literal h =>
    simp only [literals, List.mem_cons, List.not_mem_nil, or_false] at h
    obtain rfl | rfl | rfl := h <;> rfl
  all_goals exact skip_cons rfl

theorem Text.of_string (h : Text .value (34 :: (s ++ 34 :: t)) t₁) (hs : Characters s v) : t₁ = t :=
  have ⟨_, _, he, hs'⟩ := h.of_quote
  (hs.unique hs' he).2.symm

-- A number ends where something else follows.
theorem Text.of_number (h : Text .value (s ++ c :: t) t₁) (hs : Number s) (hc : isNumeric c = false)
    (ht : ∀ d ∈ (skip t₁).head?, isNumeric d = false) : t₁ = c :: t := by
  obtain ⟨d, _, he⟩ := List.exists_cons_of_ne_nil hs.ne_nil
  obtain ⟨s', hs', he'⟩ := h.of_numeric (by
    rw [he]
    rintro _ ⟨⟩
    exact hs.isNumeric d (he ▸ .head _))
  rcases List.append_eq_append_iff.mp he' with ⟨front, rfl, hf⟩ | ⟨front, rfl, hf⟩
  case inl =>
    cases front
    case nil      => exact hf.symm
    case cons x _ =>
      obtain ⟨rfl, _⟩ := List.cons.inj hf
      exact absurd (hs'.isNumeric c (by simp)) (by simp [hc])
  case inr =>
    cases front
    case nil      => exact hf
    case cons x front =>
      have hx := hs.isNumeric x (by simp)
      rw [hf, List.cons_append, skip_cons (not_space_of_isNumeric hx)] at ht
      exact absurd (ht x rfl) (by simp [hx])

theorem Text.of_member (h : Text .member (34 :: (s ++ 34 :: 58 :: t)) t₁) (hs : Characters s v) :
    Text .value (skip t) t₁ := by
  generalize he : 34 :: (s ++ 34 :: 58 :: t) = text at h
  cases h
  case member hs' hc hk ht =>
    rw [← he, skip_cons rfl] at hk
    obtain ⟨rfl, rfl⟩ := hs.unique hs' (List.cons.inj hk).2
    rw [skip_cons rfl] at hc
    obtain rfl := (List.cons.inj hc).2
    exact ht

-- The first member of an object, and what comes after it.
theorem Text.of_members (h : Text .members (34 :: (s ++ 34 :: 58 :: t)) t₁) (hs : Characters s v) :
    ∃ t₂, Text .value (skip t) t₂ ∧ (t₂ = t₁ ∨ ∃ t₃, skip t₂ = 44 :: t₃ ∧ Text .members t₃ t₁) := by
  cases h
  case single h        => exact ⟨_, h.of_member hs, .inl rfl⟩
  case members hc h ht => exact ⟨_, h.of_member hs, .inr ⟨_, hc, ht⟩⟩

theorem Text.to_member (h : Text .value t t₁) (hs : Characters s v) :
    Text .member (34 :: (s ++ 34 :: 58 :: t)) t₁ :=
  .member (skip_cons rfl) hs (skip_cons rfl) (by rwa [h.skip_eq])

theorem Text.to_members (h : Text .value t (44 :: t₁)) (hs : Characters s v)
    (h' : Text .members t₁ t₂) : Text .members (34 :: (s ++ 34 :: 58 :: t)) t₂ :=
  .members (h.to_member hs) (skip_cons rfl) h'

theorem Text.to_object (h : Text .members t (125 :: t₁)) : Text .value (123 :: t) t₁ :=
  .object h (skip_cons rfl)

theorem Text.to_array (h : Text .elements t (93 :: t₁)) : Text .value (91 :: t) t₁ :=
  .array h (skip_cons rfl)

theorem Text.to_element (h : Text .value t t₁) : Text .elements t t₁ :=
  .element (by rwa [h.skip_eq])

theorem Text.to_elements (h : Text .value t (44 :: t₁)) (h' : Text .elements t₁ t₂) :
    Text .elements t t₂ :=
  .elements (by rwa [h.skip_eq]) (skip_cons rfl) h'

-- The text behind a member: the end of the members, or a comma and more of them.
def Continues (t t₁ : Bytes) : Prop :=
  t = t₁ ∨ ∃ t₂, t = 44 :: t₂ ∧ Text .members t₂ t₁

theorem Continues.members (h : Continues t₁ t₂) (hs : Characters s v) (ht : Text .value t t₁) :
    Text .members (34 :: (s ++ 34 :: 58 :: t)) t₂ := by
  rcases h with rfl | ⟨t₃, rfl, h⟩
  case inl => exact .single (ht.to_member hs)
  case inr => exact ht.to_members hs h

theorem Continues.comma (h : Continues t₁ t₂) (hs : Characters s v) (ht : Text .value t t₁) :
    Continues (44 :: 34 :: (s ++ 34 :: 58 :: t)) t₂ :=
  .inr ⟨_, rfl, h.members hs ht⟩

end Inversion

section Objects

def Blank (t : Bytes) : Prop :=
  ∀ c ∈ t, isSpace c

-- The bytes of a text besides white space.
def solid (t : Bytes) : Nat :=
  t.countP (!isSpace ·)

theorem solid_append : solid (s ++ t) = solid s + solid t :=
  List.countP_append

theorem solid_cons (h : isSpace c = false) : solid (c :: t) = solid t + 1 :=
  List.countP_cons_of_pos (by simp [h])

theorem solid_eq_zero : solid t = 0 ↔ Blank t := by
  simp [solid, Blank, List.countP_eq_zero]

theorem Blank.of_skip (h : skip t = []) : Blank t :=
  List.dropWhile_eq_nil_iff.mp h

theorem solid_skip : solid (skip t) = solid t := by
  obtain ⟨sp, he, hs⟩ := @skip_eq t
  conv_rhs => rw [he, solid_append, solid_eq_zero.mpr hs, Nat.zero_add]

theorem solid_of_skip (h : skip t = c :: t₁) : solid t = solid t₁ + 1 := by
  rw [← solid_skip, h, solid_cons (isSpace_of_skip h)]

-- How many bytes besides white space objects take, with a comma for each.
def weight (es : List Bytes) : Nat :=
  (es.map (solid · + 1)).sum

theorem weight_append : weight (es ++ es') = weight es + weight es' := by
  simp [weight]

theorem weight_eq_zero : weight es = 0 ↔ es = [] := by
  cases es <;> simp [weight]

theorem Objects.ne_nil (h : Objects es t t₁) : es ≠ [] := by
  cases h <;> exact List.cons_ne_nil _ _

theorem Objects.solid_eq (h : Objects es t t₁) : solid t + 1 = weight es + solid t₁ := by
  induction h
  case single hs _ =>
    rw [← solid_skip, hs, solid_append]
    simp [weight]
    omega
  case cons hs _ hc _ ih =>
    rw [← solid_skip, hs, solid_append, solid_of_skip hc, ih]
    simp [weight]
    omega

theorem ObjectArray.solid_eq (h : ObjectArray es t) :
    es = [] ∧ solid t = 2 ∨ es ≠ [] ∧ solid t = weight es + 1 := by
  rcases h with ⟨h, h', hb⟩ | ⟨h, objects, h', hb⟩
  case empty =>
    refine .inl ⟨rfl, ?_⟩
    rw [solid_of_skip h, solid_of_skip h', solid_eq_zero.mpr (.of_skip hb)]
  case objects =>
    refine .inr ⟨objects.ne_nil, ?_⟩
    rw [solid_of_skip h, objects.solid_eq, solid_of_skip h', solid_eq_zero.mpr (.of_skip hb)]

theorem Objects.no_zero (h : Objects es t t₁) : Rest t t₁ := by
  induction h
  case single hs ho        => exact rest_skip.trans (by rw [hs]; exact .of_append ho.no_zero)
  case cons hs ho hc _ ih =>
    have first : Rest _ _ := rest_skip.trans (by rw [hs]; exact .of_append ho.no_zero)
    exact first.trans (.trans (.of_skip hc (by decide)) ih)

theorem ObjectArray.no_zero (h : ObjectArray es t) : 0 ∉ t := by
  suffices Rest t [] by
    obtain ⟨front, rfl, hz⟩ := this
    simpa using hz
  rcases h with ⟨h, h', hb⟩ | ⟨h, objects, h', hb⟩
  case empty =>
    exact .trans (.of_skip h (by decide)) (.trans (.of_skip h' (by decide)) (hb ▸ rest_skip))
  case objects =>
    exact .trans (.of_skip h (by decide))
      (objects.no_zero.trans (.trans (.of_skip h' (by decide)) (hb ▸ rest_skip)))

theorem IsObject.skip_append (h : IsObject e) : skip (e ++ t) = e ++ t := by
  obtain ⟨m, rfl⟩ := h.braces
  exact skip_cons rfl

-- Objects end with a brace, and whatever follows them may be replaced.
theorem Objects.split (h : Objects es t t₁) :
    ∃ body, t = body ++ [125] ++ t₁ ∧ ∀ u, Objects es (body ++ [125] ++ u) u := by
  induction h
  case single t e t₁ hs ho =>
    obtain ⟨m, hm⟩ := ho.braces
    obtain ⟨sp, he, hb⟩ := @skip_eq t
    refine ⟨sp ++ 123 :: m, by rw [he, hs, hm]; simp, fun u => .single ?_ ho⟩
    have hu : sp ++ 123 :: m ++ [125] ++ u = sp ++ (e ++ u) := by simp [hm]
    rw [hu, skip_append_of_space hb, ho.skip_append]
  case cons t e t₁ t₂ es t₃ hs ho hc _ ih =>
    obtain ⟨body, ht, objects⟩ := ih
    obtain ⟨sp, he, hb⟩ := @skip_eq t
    obtain ⟨sp', he', hb'⟩ := @skip_eq t₁
    refine ⟨sp ++ e ++ sp' ++ 44 :: body, ?_, fun u => ?_⟩
    case refine_1 =>
      rw [he, hs, he', hc, ht]
      simp
    case refine_2 =>
      have hu : sp ++ e ++ sp' ++ 44 :: body ++ [125] ++ u =
          sp ++ (e ++ (sp' ++ 44 :: (body ++ [125] ++ u))) := by simp
      refine @Objects.cons _ e (sp' ++ 44 :: (body ++ [125] ++ u)) _ es u ?_ ho ?_ (objects u)
      case refine_1 => rw [hu, skip_append_of_space hb, ho.skip_append]
      case refine_2 => rw [skip_append_of_space hb', skip_cons rfl]

theorem Objects.append (h : Objects es t t₁) (hc : skip t₁ = 44 :: t₂) (h' : Objects es' t₂ t₃) :
    Objects (es ++ es') t t₃ := by
  induction h
  case single hs ho        => exact .cons hs ho hc h'
  case cons hs ho hc' _ ih => exact .cons hs ho hc' (ih hc)

-- An array without white space in front of it, taken apart at its closing bracket.
theorem ObjectArray.split (h : ObjectArray es t) (hh : t.head? = some 91) :
    (es = [] ∧ ∃ sp tail, t = 91 :: (sp ++ 93 :: tail) ∧ Blank sp ∧ Blank tail) ∨
    ∃ body sp tail, t = 91 :: (body ++ [125] ++ sp ++ 93 :: tail) ∧ Blank sp ∧ Blank tail ∧
      ∀ u, Objects es (body ++ [125] ++ u) u := by
  obtain ⟨t, rfl⟩ := List.head?_eq_some_iff.mp hh
  rcases h with ⟨h, h', hb⟩ | ⟨h, objects, h', hb⟩
  case empty t₁ t₂ =>
    obtain rfl : t = t₁ := by simpa [skip_cons] using (skip_cons rfl).symm.trans h
    obtain ⟨sp, he, hs⟩ := @skip_eq t
    exact .inl ⟨rfl, sp, t₂, by rw [he, h'], hs, .of_skip hb⟩
  case objects t₁ t₂ t₃ =>
    obtain rfl : t = t₁ := by simpa using (skip_cons rfl).symm.trans h
    obtain ⟨body, ht, front⟩ := objects.split
    obtain ⟨sp, he, hs⟩ := @skip_eq t₂
    refine .inr ⟨body, sp, t₃, ?_, hs, .of_skip hb, front⟩
    rw [ht, he, h']
    simp

-- A text without the white space at its end.
def strip (t : Bytes) : Bytes :=
  (t.reverse.dropWhile isSpace).reverse

theorem strip_append (h : isSpace c = false) (hs : Blank s) : strip (t ++ c :: s) = t ++ [c] := by
  have hr : ∀ d ∈ s.reverse, isSpace d := fun d hd => hs d (List.mem_reverse.mp hd)
  have := skip_append_of_space (t := c :: t.reverse) hr
  rw [skip_cons h] at this
  simp only [strip, List.reverse_append, List.reverse_cons, List.append_assoc, List.singleton_append]
  rw [← skip, this]
  simp

theorem solid_strip : solid (strip t) = solid t := by
  have : solid (strip t) = solid (skip t.reverse) := by
    simp [strip, solid, skip]
  rw [this, solid_skip]
  simp [solid]

theorem Objects.isObject (h : Objects es t t₁) : ∀ e ∈ es, IsObject e := by
  induction h
  case single ho      => exact List.forall_mem_singleton.mpr ho
  case cons ho _ _ ih => exact List.forall_mem_cons.mpr ⟨ho, ih⟩

theorem ObjectArray.isObject (h : ObjectArray es t) : ∀ e ∈ es, IsObject e := by
  rcases h with _ | ⟨_, objects, _, _⟩
  case empty   => exact List.forall_mem_nil _
  case objects => exact objects.isObject

end Objects

end JsonText
