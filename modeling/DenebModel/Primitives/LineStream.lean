import Mathlib.Data.List.Basic

-- Streams that a separator cuts into lines.
namespace LineStream

variable {α : Type} [DecidableEq α] {sep : α} {s front back : List α} {size : Nat}

-- The complete lines that are not empty, and the unfinished one at the end.
def lines (sep : α) (s : List α) : List (List α) :=
  (s.splitOn sep).dropLast.filter (· ≠ [])

def unfinished (sep : α) (s : List α) : List α :=
  (s.splitOn sep).getLastD []

-- No line, complete or not, reaches this length.
def Short (sep : α) (size : Nat) (s : List α) : Prop :=
  ∀ l ∈ s.splitOn sep, l.length < size

theorem splitOn_front (h : sep ∉ front) :
    (front ++ sep :: back).splitOn sep = front :: back.splitOn sep := by
  rw [List.splitOn_append_cons_self, List.splitOn_eq_singleton h, List.singleton_append]

theorem lines_front (h : sep ∉ front) :
    lines sep (front ++ sep :: back) = [front].filter (· ≠ []) ++ lines sep back := by
  rw [lines, splitOn_front h, List.dropLast_cons_of_ne_nil (List.splitOn_ne_nil _ _), lines,
    ← List.filter_append, List.singleton_append]

theorem unfinished_front (h : sep ∉ front) :
    unfinished sep (front ++ sep :: back) = unfinished sep back := by
  obtain ⟨l, ls, he⟩ := List.exists_cons_of_ne_nil (List.splitOn_ne_nil sep back)
  rw [unfinished, unfinished, splitOn_front h, he]
  rfl

theorem lines_of_notMem (h : sep ∉ s) : lines sep s = [] := by
  rw [lines, List.splitOn_eq_singleton h]
  rfl

theorem unfinished_of_notMem (h : sep ∉ s) : unfinished sep s = s := by
  rw [unfinished, List.splitOn_eq_singleton h]
  rfl

theorem Short.behind (h : Short sep size (front ++ sep :: back)) (hf : sep ∉ front) : Short sep size back := by
  intro l hl
  exact h l (by rw [splitOn_front hf]; exact .tail _ hl)

-- What stands in front of the first separator is short.
theorem Short.front_short (h : Short sep size (front ++ back)) (hf : sep ∉ front) : front.length < size := by
  by_cases hb : sep ∈ back
  case pos =>
    obtain ⟨l, r, rfl, hl⟩ := List.eq_append_cons_of_mem hb
    have line : front ++ l ∈ (front ++ (l ++ sep :: r)).splitOn sep := by
      rw [← List.append_assoc, splitOn_front (by simp [hf, hl])]
      exact .head _
    have := h _ line
    rw [List.length_append] at this
    omega
  case neg =>
    have line : front ++ back ∈ (front ++ back).splitOn sep := by
      rw [List.splitOn_eq_singleton (by simp [hf, hb])]
      exact .head _
    have := h _ line
    rw [List.length_append] at this
    omega

end LineStream
