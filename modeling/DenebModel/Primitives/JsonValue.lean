import DenebModel.Primitives.JsonSpelling
import DenebModel.Primitives.Theorems.Numeral
import Mathlib.Data.List.Nodup

-- The values that JSON texts denote, and that a text denotes one value at most.
namespace JsonText

inductive Value : Kind → Type
  | null : Value .value
  | bool (b : Bool) : Value .value
  | number (q : ℚ) : Value .value
  | string (s : Bytes) : Value .value
  | array (es : Value .elements) : Value .value
  | object (ms : Value .members) : Value .value
  | noElements : Value .elements
  | element (v : Value .value) (es : Value .elements) : Value .elements
  | noMembers : Value .members
  | member (name : Bytes) (v : Value .value) (ms : Value .members) : Value .members

inductive Denotes : {k : Kind} → Tree k → Value k → Prop
  | null : Denotes (.scalar [110, 117, 108, 108]) .null
  | yes : Denotes (.scalar [116, 114, 117, 101]) (.bool true)
  | no : Denotes (.scalar [102, 97, 108, 115, 101]) (.bool false)
  | number : Number s → BinaryFloat.numeral s = some q → Denotes (.scalar s) (.number q)
  | string : Characters s v → Denotes (.string s) (.string v)
  | array : Denotes es vs → Denotes (.array es) (.array vs)
  | object : Denotes ms vs → Denotes (.object ms) (.object vs)
  | noElements : Denotes .noElements .noElements
  | element : Denotes e v → Denotes es vs → Denotes (.element e es) (.element v vs)
  | noMembers : Denotes .noMembers .noMembers
  | member :
    Characters s n → Denotes e v → Denotes ms vs → Denotes (.member s e ms) (.member n v vs)

-- A text that is a single value and denotes this one.
def Stands (v : Value .value) (t : Bytes) : Prop :=
  ∃ e t₁, Spells e (skip t) t₁ ∧ skip t₁ = [] ∧ Denotes e v

-- What may follow the text: nothing that continues a number, or the end of the array or object.
def Closes : Kind → Bytes → Prop
  | .value, t    => ∀ c ∈ (skip t).head?, isNumeric c = false
  | .elements, t => (skip t).head? = some 93
  | .members, t  => (skip t).head? = some 125
  | .member, _   => True

section

variable {s t t₁ t₂ u v : Bytes} {c : UInt8} {k : Kind}

theorem skip_append_of_ne_nil (h : skip t ≠ []) : skip (t ++ u) = skip t ++ u := by
  rw [skip, List.dropWhile_append, if_neg]
  · rfl
  · simpa [skip] using h

theorem skip_append_of_skip (h : skip t = c :: t₁) : skip (t ++ u) = c :: (t₁ ++ u) := by
  rw [skip_append_of_ne_nil (by rw [h]; exact List.cons_ne_nil _ _), h]
  rfl

theorem Spells.ne_nil {e : Tree .value} (h : Spells e t t₁) : t ≠ [] := by
  cases h
  case number h => exact List.append_ne_nil_of_left_ne_nil h.ne_nil _
  case literal h =>
    simp only [literals, List.mem_cons, List.not_mem_nil, or_false] at h
    obtain rfl | rfl | rfl := h <;> exact List.cons_ne_nil _ _
  all_goals exact List.cons_ne_nil _ _

-- Other text behind the text changes nothing.
theorem Spells.append {e : Tree k} (h : Spells e t t₁) (u : Bytes) : Spells e (t ++ u) (t₁ ++ u) := by
  have value {e : Tree .value} {t t₁ : Bytes} (h : Spells e (skip t) t₁)
      (hu : Spells e (skip t ++ u) (t₁ ++ u)) : Spells e (skip (t ++ u)) (t₁ ++ u) := by
    rwa [skip_append_of_ne_nil h.ne_nil]
  induction h
  case number h        => rw [List.append_assoc]; exact .number _ h
  case literal h       => rw [List.append_assoc]; exact .literal _ h
  case string h        =>
    rw [List.cons_append, List.append_assoc]
    exact .string _ h
  case array hs ih     => exact .array ih (skip_append_of_skip hs)
  case object hs ih    => exact .object ih (skip_append_of_skip hs)
  case noElements      => exact .noElements _
  case element h ih    => exact .element (value h ih)
  case elements h hs _ ih ih' => exact .elements (value h ih) (skip_append_of_skip hs) ih'
  case noMembers       => exact .noMembers _
  case member hn hk hc h ih =>
    refine .member ?_ hk (skip_append_of_skip hc) (value h ih)
    rw [skip_append_of_skip hn, List.append_assoc]
    rfl
  case members hn hk hc h hs _ ih ih' =>
    refine .members ?_ hk (skip_append_of_skip hc) (value h ih) (skip_append_of_skip hs) ih'
    rw [skip_append_of_skip hn, List.append_assoc]
    rfl

-- A number or one of the three names.
def Scalar (s : Bytes) : Prop :=
  Number s ∨ s ∈ literals

-- What a value looks like.
theorem Spells.form {e : Tree .value} (h : Spells e t t₁) :
    (∃ s, e = .scalar s ∧ Scalar s ∧ t = s ++ t₁) ∨
    (∃ s v, e = .string s ∧ Characters s v ∧ t = 34 :: (s ++ 34 :: t₁)) ∨
    (∃ es t₀ t₂, e = .array es ∧ t = 91 :: t₀ ∧ Spells es t₀ t₂ ∧ skip t₂ = 93 :: t₁) ∨
    ∃ ms t₀ t₂, e = .object ms ∧ t = 123 :: t₀ ∧ Spells ms t₀ t₂ ∧ skip t₂ = 125 :: t₁ := by
  cases h
  case number h    => exact .inl ⟨_, rfl, .inl h, rfl⟩
  case literal h   => exact .inl ⟨_, rfl, .inr h, rfl⟩
  case string h    => exact .inr (.inl ⟨_, _, rfl, h, rfl⟩)
  case array h hs  => exact .inr (.inr (.inl ⟨_, _, _, rfl, rfl, h, hs⟩))
  case object h hs => exact .inr (.inr (.inr ⟨_, _, _, rfl, rfl, h, hs⟩))

theorem Scalar.head (h : Scalar s) :
    ∃ c s', s = c :: s' ∧ (isNumeric c ∨ c = 116 ∨ c = 102 ∨ c = 110) := by
  rcases h with h | h
  case inl =>
    obtain ⟨c, s', rfl⟩ := List.exists_cons_of_ne_nil h.ne_nil
    exact ⟨c, s', rfl, .inl (h.isNumeric c (.head _))⟩
  case inr =>
    simp only [literals, List.mem_cons, List.not_mem_nil, or_false] at h
    obtain rfl | rfl | rfl := h
    · exact ⟨_, _, rfl, .inr (.inl rfl)⟩
    · exact ⟨_, _, rfl, .inr (.inr (.inl rfl))⟩
    · exact ⟨_, _, rfl, .inr (.inr (.inr rfl))⟩

theorem Scalar.not_mark (h : Scalar s) (he : s ++ t = c :: u) : c ∉ [34, 91, 93, 123, 125] := by
  obtain ⟨d, s', rfl, hd⟩ := h.head
  obtain rfl := (List.cons.inj he).1
  intro hm
  simp only [List.mem_cons, List.not_mem_nil, or_false] at hm
  rcases hm with rfl | rfl | rfl | rfl | rfl <;> exact absurd hd (by decide)

theorem Spells.skip_eq {e : Tree .value} (h : Spells e t t₁) : skip t = t := by
  rcases h.form with ⟨s, _, hs, rfl⟩ | ⟨_, _, _, _, rfl⟩ | ⟨_, _, _, _, rfl, _⟩ | ⟨_, _, _, _, rfl, _⟩
  · obtain ⟨c, s', rfl, hc⟩ := hs.head
    refine skip_cons ?_
    rcases hc with hc | rfl | rfl | rfl
    · exact not_space_of_isNumeric hc
    all_goals rfl
  all_goals exact skip_cons rfl

theorem Spells.of_quote {e : Tree .value} (h : Spells e (34 :: t) t₁) :
    ∃ s v, e = .string s ∧ Characters s v ∧ t = s ++ 34 :: t₁ := by
  rcases h.form with ⟨s, _, hs, he⟩ | ⟨s, v, rfl, hs, he⟩ | ⟨_, _, _, _, he, _⟩ | ⟨_, _, _, _, he, _⟩
  · exact absurd (.head _) (hs.not_mark he.symm)
  · exact ⟨s, v, rfl, hs, (List.cons.inj he).2⟩
  · cases he
  · cases he

theorem Spells.of_bracket {e : Tree .value} (h : Spells e (91 :: t) t₁) :
    ∃ es t₂, e = .array es ∧ Spells es t t₂ ∧ skip t₂ = 93 :: t₁ := by
  rcases h.form with ⟨s, _, hs, he⟩ | ⟨_, _, _, _, he⟩ | ⟨es, _, t₂, rfl, he, h, hc⟩ | ⟨_, _, _, _, he, _⟩
  · exact absurd (.tail _ (.head _)) (hs.not_mark he.symm)
  · cases he
  · cases he; exact ⟨es, t₂, rfl, h, hc⟩
  · cases he

theorem Spells.of_curly {e : Tree .value} (h : Spells e (123 :: t) t₁) :
    ∃ ms t₂, e = .object ms ∧ Spells ms t t₂ ∧ skip t₂ = 125 :: t₁ := by
  rcases h.form with ⟨s, _, hs, he⟩ | ⟨_, _, _, _, he⟩ | ⟨_, _, _, _, he, _⟩ | ⟨ms, _, t₂, rfl, he, h, hc⟩
  · exact absurd (by decide) (hs.not_mark he.symm)
  · cases he
  · cases he
  · cases he; exact ⟨ms, t₂, rfl, h, hc⟩

theorem Spells.of_scalar {e : Tree .value} (h : Spells e (s ++ t) t₁) (hs : Scalar s) :
    ∃ s', e = .scalar s' ∧ Scalar s' ∧ s ++ t = s' ++ t₁ := by
  rcases h.form with ⟨s', rfl, hs', he⟩ | ⟨_, _, _, _, he⟩ | ⟨_, _, _, _, he, _⟩ | ⟨_, _, _, _, he, _⟩
  · exact ⟨s', rfl, hs', he⟩
  all_goals exact absurd (by decide) (hs.not_mark he)

-- No value starts with a closing bracket or brace.
theorem Spells.not_close {e : Tree .value} (h : Spells e (c :: t) t₁) : c ∉ [93, 125] := by
  rcases h.form with ⟨s', rfl, hs', he⟩ | ⟨_, _, _, _, he⟩ | ⟨_, _, _, _, he, _⟩ | ⟨_, _, _, _, he, _⟩
  · intro hm
    refine hs'.not_mark he.symm ?_
    simp only [List.mem_cons, List.not_mem_nil, or_false] at hm
    rcases hm with rfl | rfl <;> decide
  all_goals cases he; decide

theorem Number.literal_ne {s' t' : Bytes} (h : Number s) (h' : s' ∈ literals) : s ++ t ≠ s' ++ t' := by
  intro he
  obtain ⟨c, s, rfl⟩ := List.exists_cons_of_ne_nil h.ne_nil
  have hc := h.isNumeric c (.head _)
  simp only [literals, List.mem_cons, List.not_mem_nil, or_false] at h'
  rcases h' with rfl | rfl | rfl
  all_goals
    obtain rfl := (List.cons.inj he).1
    exact absurd hc (by decide)

theorem Closes.head (h : Closes .value t) : ∀ c ∈ t.head?, isNumeric c = false := by
  intro c hc
  obtain ⟨u, rfl⟩ := List.head?_eq_some_iff.mp hc
  by_contra hn
  have numeric := Bool.not_eq_false _ ▸ hn
  exact hn (h c (by rw [skip_cons (not_space_of_isNumeric numeric)]; rfl))

-- Where both end, two runs of the bytes of numbers are the same.
theorem numeric_unique {s' t' : Bytes} (h : ∀ c ∈ s, isNumeric c) (h' : ∀ c ∈ s', isNumeric c)
    (he : s ++ t = s' ++ t') (c : Closes .value t) (c' : Closes .value t') : s = s' ∧ t = t' := by
  have ended {a u v : Bytes} (ha : ∀ c ∈ u ++ a, isNumeric c) (c : Closes .value (a ++ v)) : a = [] := by
    obtain _ | ⟨x, a⟩ := a
    case nil  => rfl
    case cons => exact absurd (ha x (by simp)) (by simp [c.head x rfl])
  rcases List.append_eq_append_iff.mp he with ⟨a, rfl, rfl⟩ | ⟨a, rfl, rfl⟩
  case inl => obtain rfl := ended h' c; simp
  case inr => obtain rfl := ended h c'; simp

theorem Scalar.unique {s' t' : Bytes} (h : Scalar s) (h' : Scalar s') (he : s ++ t = s' ++ t')
    (c : Closes .value t) (c' : Closes .value t') : s = s' ∧ t = t' := by
  rcases h with h | h <;> rcases h' with h' | h'
  case inl.inl => exact numeric_unique h.isNumeric h'.isNumeric he c c'
  case inl.inr => exact absurd he (h.literal_ne h')
  case inr.inl => exact absurd he.symm (h'.literal_ne h)
  case inr.inr =>
    simp only [literals, List.mem_cons, List.not_mem_nil, or_false] at h h'
    rcases h with rfl | rfl | rfl <;> rcases h' with rfl | rfl | rfl
    all_goals cases he <;> exact ⟨rfl, rfl⟩

theorem closes_value_of_head (h : (skip t).head? = some c) (hc : isNumeric c = false) : Closes .value t := by
  intro d hd
  rwa [← Option.some.inj (h.symm.trans hd)]

theorem closes_value_of_skip (h : skip t = c :: u) (hc : isNumeric c = false) : Closes .value t :=
  closes_value_of_head (by rw [h]; rfl) hc

theorem Spells.not_head {e : Tree .value} (h : Spells e t t₁) (hh : t.head? = some c) (hc : c ∈ [93, 125]) :
    False := by
  obtain ⟨u, rfl⟩ := List.head?_eq_some_iff.mp hh
  exact h.not_close hc

theorem name_unique {s' v' t₁' t₂' : Bytes} (hn : skip t = 34 :: (s ++ 34 :: t₁)) (hk : Characters s v)
    (hc : skip t₁ = 58 :: t₂) (hn' : skip t = 34 :: (s' ++ 34 :: t₁')) (hk' : Characters s' v')
    (hc' : skip t₁' = 58 :: t₂') : s = s' ∧ t₂ = t₂' := by
  obtain ⟨rfl, rfl⟩ := hk.unique hk' (List.cons.inj (hn.symm.trans hn')).2
  exact ⟨rfl, (List.cons.inj (hc.symm.trans hc')).2⟩

-- By induction on the text of the first tree; the first byte decides about the second one.
theorem Spells.unique {e e' : Tree k} (h : Spells e t t₁) (h' : Spells e' t t₂) (c : Closes k t₁)
    (c' : Closes k t₂) : e = e' ∧ t₁ = t₂ := by
  induction h generalizing t₂
  case number hs =>
    obtain ⟨s', rfl, hs', he⟩ := h'.of_scalar (.inl hs)
    obtain ⟨rfl, rfl⟩ := Scalar.unique (.inl hs) hs' he c c'
    exact ⟨rfl, rfl⟩
  case literal hs =>
    obtain ⟨s', rfl, hs', he⟩ := h'.of_scalar (.inr hs)
    obtain ⟨rfl, rfl⟩ := Scalar.unique (.inr hs) hs' he c c'
    exact ⟨rfl, rfl⟩
  case string hs =>
    obtain ⟨s', v', rfl, hs', he⟩ := h'.of_quote
    obtain ⟨rfl, rfl⟩ := hs.unique hs' he
    exact ⟨rfl, rfl⟩
  case array hs ih =>
    obtain ⟨es, t₃, rfl, h', hs'⟩ := h'.of_bracket
    obtain ⟨rfl, rfl⟩ := ih h' (by rw [Closes, hs]; rfl) (by rw [Closes, hs']; rfl)
    exact ⟨rfl, (List.cons.inj (hs.symm.trans hs')).2⟩
  case object hs ih =>
    obtain ⟨ms, t₃, rfl, h', hs'⟩ := h'.of_curly
    obtain ⟨rfl, rfl⟩ := ih h' (by rw [Closes, hs]; rfl) (by rw [Closes, hs']; rfl)
    exact ⟨rfl, (List.cons.inj (hs.symm.trans hs')).2⟩
  case noElements =>
    cases h'
    case noElements => exact ⟨rfl, rfl⟩
    case element h  => exact (h.not_head c (by decide)).elim
    case elements h _ => exact (h.not_head c (by decide)).elim
  case element hv ih =>
    cases h'
    case noElements => exact (hv.not_head c' (by decide)).elim
    case element h =>
      obtain ⟨rfl, rfl⟩ := ih h (closes_value_of_head c rfl) (closes_value_of_head c' rfl)
      exact ⟨rfl, rfl⟩
    case elements hs h _ =>
      obtain ⟨rfl, rfl⟩ := ih h (closes_value_of_head c rfl) (closes_value_of_skip hs rfl)
      rw [Closes, hs] at c
      cases c
  case elements hv hs _ ih ih' =>
    cases h'
    case noElements => exact (hv.not_head c' (by decide)).elim
    case element h =>
      obtain ⟨rfl, rfl⟩ := ih h (closes_value_of_skip hs rfl) (closes_value_of_head c' rfl)
      rw [Closes, hs] at c'
      cases c'
    case elements hs' h h' =>
      obtain ⟨rfl, rfl⟩ := ih h (closes_value_of_skip hs rfl) (closes_value_of_skip hs' rfl)
      obtain rfl := (List.cons.inj (hs.symm.trans hs')).2
      obtain ⟨he, rfl⟩ := ih' h' c c'
      rw [he]
      exact ⟨rfl, rfl⟩
  case noMembers =>
    cases h'
    case noMembers => exact ⟨rfl, rfl⟩
    case member hn _          => rw [Closes, hn] at c; cases c
    case members hn _         => rw [Closes, hn] at c; cases c
  case member hn hk hc hv ih =>
    cases h'
    case noMembers => rw [Closes, hn] at c'; cases c'
    case member hk' hc' hn' h =>
      obtain ⟨rfl, rfl⟩ := name_unique hn hk hc hn' hk' hc'
      obtain ⟨rfl, rfl⟩ := ih h (closes_value_of_head c rfl) (closes_value_of_head c' rfl)
      exact ⟨rfl, rfl⟩
    case members hk' hc' h hs hn' _ =>
      obtain ⟨rfl, rfl⟩ := name_unique hn hk hc hn' hk' hc'
      obtain ⟨rfl, rfl⟩ := ih h (closes_value_of_head c rfl) (closes_value_of_skip hs rfl)
      rw [Closes, hs] at c
      cases c
  case members hn hk hc hv hs _ ih ih' =>
    cases h'
    case noMembers => rw [Closes, hn] at c'; cases c'
    case member hk' hc' hn' h =>
      obtain ⟨rfl, rfl⟩ := name_unique hn hk hc hn' hk' hc'
      obtain ⟨rfl, rfl⟩ := ih h (closes_value_of_skip hs rfl) (closes_value_of_head c' rfl)
      rw [Closes, hs] at c'
      cases c'
    case members hk' hc' h hs' hn' h' =>
      obtain ⟨rfl, rfl⟩ := name_unique hn hk hc hn' hk' hc'
      obtain ⟨rfl, rfl⟩ := ih h (closes_value_of_skip hs rfl) (closes_value_of_skip hs' rfl)
      obtain rfl := (List.cons.inj (hs.symm.trans hs')).2
      obtain ⟨he, rfl⟩ := ih' h' c c'
      rw [he]
      exact ⟨rfl, rfl⟩

theorem Characters.value_unique {w : Bytes} (h : Characters s v) (h' : Characters s w) : v = w := by
  induction h generalizing w
  case nil => cases h'; rfl
  case plain hb _ ih =>
    cases h'
    case plain h   => rw [ih h]
    case escaped   => exact absurd rfl hb
    case unicode   => exact absurd rfl hb
  case escaped hm _ ih =>
    cases h'
    case plain hb _ => exact absurd rfl hb
    case escaped hm' h =>
      have single : (escapes.map Prod.fst).Nodup := by decide
      have same := List.inj_on_of_nodup_map single hm hm' rfl
      rw [ih h, (Prod.mk.inj same).2]
    case unicode    => simp [escapes] at hm
  case unicode ha hb hc hd _ ih =>
    cases h'
    case plain hb _   => exact absurd rfl hb
    case escaped hm _ => simp [escapes] at hm
    case unicode ha' hb' hc' hd' h =>
      obtain rfl := Option.some.inj (ha.symm.trans ha')
      obtain rfl := Option.some.inj (hb.symm.trans hb')
      obtain rfl := Option.some.inj (hc.symm.trans hc')
      obtain rfl := Option.some.inj (hd.symm.trans hd')
      rw [ih h]

theorem Number.ne_literal (h : Number s) : s ∉ literals :=
  fun hm => (h.literal_ne hm : s ++ [] ≠ s ++ []) rfl

theorem Denotes.unique {e : Tree k} {x y : Value k} (h : Denotes e x) (h' : Denotes e y) : x = y := by
  induction h
  case null =>
    cases h'
    case null => rfl
    case number hs _ => exact (hs.ne_literal (by decide)).elim
  case yes =>
    cases h'
    case yes => rfl
    case number hs _ => exact (hs.ne_literal (by decide)).elim
  case no =>
    cases h'
    case no => rfl
    case number hs _ => exact (hs.ne_literal (by decide)).elim
  case number hs hq =>
    cases h'
    case number hq' => rw [Option.some.inj (hq.symm.trans hq')]
    all_goals exact (hs.ne_literal (by decide)).elim
  case string hs =>
    cases h'
    case string hs' => rw [hs.value_unique hs']
  case array ih  => cases h'; case array h => rw [ih h]
  case object ih => cases h'; case object h => rw [ih h]
  case noElements => cases h'; rfl
  case element ih ih' => cases h'; case element h h' => rw [ih h, ih' h']
  case noMembers => cases h'; rfl
  case member hs _ _ ih ih' => cases h'; case member hs' h h' => rw [hs.value_unique hs', ih h, ih' h']

theorem closes_value_of_blank (h : skip t = []) : Closes .value t := by
  rw [Closes, h]
  nofun

theorem Closes.of_skip (h : Closes k t) (he : skip u = skip t) : Closes k u := by
  cases k
  case member => trivial
  all_goals rw [Closes, he]; exact h

-- A text denotes one value at most.
theorem Stands.unique {x y : Value .value} (h : Stands x t) (h' : Stands y t) : x = y := by
  obtain ⟨e, t₁, hs, hb, hd⟩ := h
  obtain ⟨e', t₂, hs', hb', hd'⟩ := h'
  obtain ⟨rfl, -⟩ := hs.unique hs' (closes_value_of_blank hb) (closes_value_of_blank hb')
  exact hd.unique hd'

end
end JsonText
