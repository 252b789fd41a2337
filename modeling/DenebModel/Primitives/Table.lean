import DenebModel.Primitives.History
import DenebModel.Primitives.Ranking

-- Tables with a bound, which a machine fills in the course of a run and which drop their oldest entry
-- to make room for a new one.
namespace Table

open History Ranking

variable {α κ σ ε : Type*}

def push (cap : Nat) (table : List α) (x : α) : List α :=
  (if cap ≤ table.length then table.drop 1 else table) ++ [x]

variable {cap n : Nat} {table : List α} {x y : α}

theorem mem_push (h : y ∈ push cap table x) : y ∈ table ∨ y = x := by
  rw [push, List.mem_append, List.mem_singleton] at h
  refine h.imp_left fun kept => ?_
  split at kept
  case isTrue  => exact List.mem_of_mem_drop kept
  case isFalse => exact kept

theorem length_push (hc : 0 < cap) (h : table.length ≤ cap) : (push cap table x).length ≤ cap := by
  rw [push, List.length_append, List.length_singleton]
  split
  case isTrue  => rw [List.length_drop]; omega
  case isFalse => omega

-- The entry was made that many entries ago: it is there while these leave room for it, and no other
-- entry has its key.
structure Traced (cap : Nat) (key : α → κ) (x : α) (n : Nat) (table : List α) : Prop where
  short : table.length ≤ cap
  there : n < cap → ∃ front back, table = front ++ x :: back ∧ back.length = n ∧
    ∀ y ∈ front ++ back, key y ≠ key x
  gone  : cap ≤ n → ∀ y ∈ table, key y ≠ key x

variable {key : α → κ}

theorem traced_push (hc : 0 < cap) (short : table.length ≤ cap) (fresh : ∀ y ∈ table, key y ≠ key x) :
    Traced cap key x 0 (push cap table x) where
  short := length_push hc short
  there _ := by
    refine ⟨_, [], rfl, rfl, fun y hy => fresh y ?_⟩
    rw [List.append_nil] at hy
    split at hy
    case isTrue  => exact List.mem_of_mem_drop hy
    case isFalse => exact hy
  gone h := absurd hc (Nat.not_lt.mpr h)

theorem Traced.push (traced : Traced cap key x n table) (hc : 0 < cap) (other : key y ≠ key x) :
    Traced cap key x (n + 1) (push cap table y) where
  short := length_push hc traced.short
  there hn := by
    obtain ⟨front, back, rfl, hb, alone⟩ := traced.there (Nat.lt_of_succ_lt hn)
    simp only [List.forall_mem_append] at alone
    rw [Table.push]
    split
    case isFalse =>
      refine ⟨front, back ++ [y], by simp, by simp [hb], ?_⟩
      simp only [List.forall_mem_append, List.forall_mem_singleton]
      exact ⟨alone.left, alone.right, other⟩
    case isTrue full =>
      cases front
      case nil =>
        rw [List.nil_append, List.length_cons] at full
        omega
      case cons _ front =>
        refine ⟨front, back ++ [y], by simp, by simp [hb], ?_⟩
        simp only [List.forall_mem_append, List.forall_mem_cons] at alone ⊢
        exact ⟨alone.left.right, alone.right, other, List.forall_mem_nil _⟩
  gone hn z hz := by
    obtain old | rfl := mem_push hz
    case inr => exact other
    case inl =>
      by_cases lost : cap ≤ n
      case pos => exact traced.gone lost z old
      case neg =>
        obtain ⟨front, back, rfl, hb, alone⟩ := traced.there (Nat.lt_of_not_le lost)
        have length := traced.short
        rw [List.length_append, List.length_cons] at length
        -- The entry is the oldest one, which makes room.
        obtain rfl : front = [] := List.length_eq_zero_iff.mp (by omega)
        rw [Table.push, if_pos (by rw [List.nil_append, List.length_cons]; omega)] at hz
        obtain later | h := List.mem_append.mp hz
        case inl => exact alone z later
        case inr => exact List.mem_singleton.mp h ▸ other

theorem Traced.any (traced : Traced cap key x n table) {p : α → Bool} (hp : ∀ y ∈ table, p y → key y = key x) :
    table.any p ↔ p x ∧ n < cap := by
  by_cases hn : n < cap
  case pos =>
    obtain ⟨front, back, rfl, -, alone⟩ := traced.there hn
    have others : ∀ y ∈ front ++ back, p y = false := fun y hy =>
      Bool.eq_false_iff.mpr fun h => alone y hy (hp y (by simp at hy ⊢; tauto) h)
    simp only [List.forall_mem_append] at others
    rw [List.any_append, List.any_cons, List.any_eq_false.mpr (by simpa using others.left),
      List.any_eq_false.mpr (by simpa using others.right)]
    simp [hn]
  case neg =>
    have none : ∀ y ∈ table, p y = false := fun y hy =>
      Bool.eq_false_iff.mpr fun h => traced.gone (Nat.not_lt.mp hn) y hy (hp y hy h)
    rw [List.any_eq_false.mpr (by simpa using none)]
    simp [hn]

section

variable {step : σ → ε → σ} {items : σ → List α} {s : σ} {events : List ε}

-- How the table grows in a run in which every event that counts makes one entry.
theorem Traced.run {counts : σ → ε → Bool} {made : σ → ε → α} (hc : 0 < cap)
    (grows : ∀ s, ∀ e ∈ events, items (step s e) =
      if counts s e then Table.push cap (items s) (made s e) else items s)
    (others : Preceded (fun before e => counts (before.foldl step s) e →
      key (made (before.foldl step s) e) ≠ key x) events)
    (traced : Traced cap key x n (items s)) :
    Traced cap key x (n + counted step counts s events) (items (events.foldl step s)) := by
  induction events generalizing s n
  case nil => exact traced
  case cons e events ih =>
    rw [preceded_cons] at others
    obtain ⟨first, rest⟩ := others
    have one := grows s e List.mem_cons_self
    rw [counted, ← Nat.add_assoc]
    refine ih (fun s e he => grows s e (List.mem_cons_of_mem _ he)) rest ?_
    rw [one]
    split
    case isTrue counts => exact traced.push hc (first counts)
    case isFalse => exact traced

-- Where an entry comes from: an event made it, and none that empties the table came later.
theorem origin {made : σ → ε → α → Prop} {clears : ε → Prop}
    (grows : ∀ s e y, y ∈ items (step s e) → ¬clears e ∧ y ∈ items s ∨ made s e y)
    (empty : items s = []) (hx : x ∈ items (events.foldl step s)) :
    ∃ before e after, events = before ++ e :: after ∧ made (before.foldl step s) e x ∧
      ∀ e ∈ after, ¬clears e := by
  induction events using List.reverseRecOn
  case nil =>
    rw [List.foldl_nil, empty] at hx
    cases hx
  case append_singleton events e ih =>
    rw [List.foldl_append, List.foldl_cons, List.foldl_nil] at hx
    obtain ⟨keeps, old⟩ | new := grows _ _ _ hx
    case inr => exact ⟨events, e, [], rfl, new, fun _ he => by cases he⟩
    case inl =>
      obtain ⟨before, e', after, rfl, new, none⟩ := ih old
      refine ⟨before, e', after ++ [e], by simp, new, ?_⟩
      simp only [List.forall_mem_append, List.mem_singleton, forall_eq]
      exact ⟨none, keeps⟩

end

end Table
