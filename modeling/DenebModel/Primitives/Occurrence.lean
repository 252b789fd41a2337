import Mathlib.Data.List.Infix

-- The first occurrence of a list in another one.
namespace Occurrence

variable {α : Type*} [DecidableEq α]

def index (p : List α) : List α → Option Nat
  | []     => if p = [] then some 0 else none
  | c :: s => if p <+: c :: s then some 0 else (index p s).map (· + 1)

variable {p s front back : List α} {c : α} {i : Nat}

theorem index_of_prefix (h : p <+: s) : index p s = some 0 := by
  cases s
  case nil  => exact if_pos (List.prefix_nil.mp h)
  case cons => exact if_pos h

theorem index_self : index p (p ++ back) = some 0 :=
  index_of_prefix (List.prefix_append p back)

theorem index_cons (h : ¬p <+: c :: s) : index p (c :: s) = (index p s).map (· + 1) :=
  if_neg h

-- Nothing in front of the rest is the beginning of an occurrence.
theorem index_append (h : ∀ k < front.length, ¬p <+: (front ++ s).drop k) :
    index p (front ++ s) = (index p s).map (front.length + ·) := by
  induction front
  case nil => simp
  case cons c front ih =>
    have first : ¬p <+: c :: (front ++ s) := h 0 (Nat.succ_pos _)
    have rest : ∀ k < front.length, ¬p <+: (front ++ s).drop k := fun k hk =>
      h (k + 1) (Nat.succ_lt_succ hk)
    rw [List.cons_append, index_cons first, ih rest, Option.map_map]
    congr 1
    funext k
    simp only [Function.comp_apply, List.length_cons]
    omega

-- The first element of what is searched for does not occur in front of the rest.
theorem index_append_of_notMem (h : c ∉ front) :
    index (c :: p) (front ++ s) = (index (c :: p) s).map (front.length + ·) := by
  refine index_append fun k hk hp => ?_
  rw [List.drop_append_of_le_length (Nat.le_of_lt hk), List.drop_eq_getElem_cons hk,
    List.cons_append, List.cons_prefix_cons] at hp
  exact h (hp.left ▸ List.getElem_mem hk)

theorem index_found (h : c ∉ front) : index (c :: p) (front ++ (c :: p ++ back)) = some front.length := by
  rw [index_append_of_notMem h, index_self]
  simp

omit [DecidableEq α] in
-- An element that is not searched for separates the occurrences.
theorem prefix_of_mark {t : List α} (hc : c ∉ p) (h : p <+: t ++ c :: s) : p <+: t := by
  have mark : t ++ [c] <+: t ++ c :: s := by simp
  rcases List.prefix_or_prefix_of_prefix h mark with hp | ht
  case inl =>
    rcases List.prefix_concat_iff.mp hp with rfl | hp
    case inl => exact absurd (List.mem_append_right t (List.mem_singleton_self c)) hc
    case inr => exact hp
  case inr => exact absurd (ht.subset (List.mem_append_right t (List.mem_singleton_self c))) hc

omit [DecidableEq α] in
theorem infix_of_mark {t : List α} (hc : c ∉ p) (h : p <:+: t ++ c :: s) : p <:+: t ∨ p <:+: s := by
  induction t
  case nil =>
    rcases List.infix_cons_iff.mp h with hp | hs
    case inl => exact .inl (prefix_of_mark (t := []) hc hp).isInfix
    case inr => exact .inr hs
  case cons x t ih =>
    rcases List.infix_cons_iff.mp h with hp | hs
    case inl => exact .inl (prefix_of_mark (t := x :: t) hc hp).isInfix
    case inr => exact (ih hs).imp_left List.infix_cons

omit [DecidableEq α] in
-- An element that is searched for stands at its first place, or further on.
theorem prefix_mark {q t : List α} (hp : c ∉ p) (ht : c ∉ t) (h : p ++ c :: q <+: t ++ c :: s) :
    p = t ∧ q <+: s := by
  induction p generalizing t
  case nil =>
    cases t
    case nil => exact ⟨rfl, (List.cons_prefix_cons.mp h).right⟩
    case cons => exact absurd ((List.cons_prefix_cons.mp h).left ▸ List.mem_cons_self) ht
  case cons x p ih =>
    cases t
    case nil => exact absurd ((List.cons_prefix_cons.mp h).left ▸ List.mem_cons_self) hp
    case cons y t =>
      have ⟨hx, hr⟩ := List.cons_prefix_cons.mp h
      have ⟨ht', hq⟩ := ih (List.not_mem_of_not_mem_cons hp) (List.not_mem_of_not_mem_cons ht) hr
      exact ⟨by rw [hx, ht'], hq⟩

omit [DecidableEq α] in
theorem infix_mark {q t : List α} (hp : c ∉ p) (ht : c ∉ t) (h : p ++ c :: q <:+: t ++ c :: s) :
    p <:+ t ∧ q <+: s ∨ p ++ c :: q <:+: s := by
  induction t
  case nil =>
    rcases List.infix_cons_iff.mp h with hh | hs
    case inl =>
      have ⟨he, hq⟩ := prefix_mark (t := []) hp ht hh
      exact .inl ⟨he ▸ List.suffix_rfl, hq⟩
    case inr => exact .inr hs
  case cons x t ih =>
    rcases List.infix_cons_iff.mp h with hh | hs
    case inl =>
      have ⟨he, hq⟩ := prefix_mark (t := x :: t) hp ht hh
      exact .inl ⟨he ▸ List.suffix_rfl, hq⟩
    case inr => exact (ih (List.not_mem_of_not_mem_cons ht) hs).imp_left fun ⟨he, hq⟩ =>
      ⟨he.trans (List.suffix_cons x t), hq⟩

theorem index_append_mark {t : List α} (hc : c ∉ p) (ht : ¬p <:+: t) :
    index p (t ++ c :: s) = (index p (c :: s)).map (t.length + ·) := by
  refine index_append fun k hk hp => ?_
  rw [List.drop_append_of_le_length (Nat.le_of_lt hk)] at hp
  exact ht ((prefix_of_mark hc hp).isInfix.trans (List.drop_suffix k t).isInfix)

theorem index_mark {q t : List α} (hp : c ∉ p) (ht : c ∉ t) (h : ¬(p <:+ t ∧ q <+: s)) :
    index (p ++ c :: q) (t ++ c :: s) = (index (p ++ c :: q) s).map ((t ++ [c]).length + ·) := by
  have split : t ++ c :: s = (t ++ [c]) ++ s := by simp
  rw [split]
  refine index_append fun k hk hf => ?_
  rw [← split] at hf
  by_cases early : k ≤ t.length
  case pos =>
    rw [List.drop_append_of_le_length early] at hf
    have ⟨he, hq⟩ := prefix_mark hp (fun hm => ht (List.mem_of_mem_drop hm)) hf
    exact h ⟨he ▸ List.drop_suffix k t, hq⟩
  case neg =>
    rw [List.length_append, List.length_singleton] at hk
    omega

theorem index_eq_none : index p s = none ↔ ¬p <:+: s := by
  induction s
  case nil =>
    rw [index, List.infix_nil]
    split <;> simp_all
  case cons c s ih =>
    rw [index, List.infix_cons_iff]
    split
    case isTrue h  => simp [h]
    case isFalse h => simp [h, ih]

theorem index_eq_some (h : index p s = some i) :
    ∃ front back, s = front ++ (p ++ back) ∧ front.length = i := by
  induction s generalizing i
  case nil =>
    rw [index] at h
    split at h
    case isTrue hp  => exact ⟨[], [], by simp [hp], by simpa using h⟩
    case isFalse    => contradiction
  case cons c s ih =>
    rw [index] at h
    split at h
    case isTrue hp =>
      obtain ⟨back, hb⟩ := hp
      exact ⟨[], back, hb.symm, by simpa using h⟩
    case isFalse =>
      obtain ⟨j, hj, rfl⟩ := Option.map_eq_some_iff.mp h
      obtain ⟨front, back, rfl, hl⟩ := ih hj
      exact ⟨c :: front, back, rfl, by simp [hl]⟩

end Occurrence
