import Mathlib.Data.List.Basic

-- Termination of runs by a rank in the natural numbers: the rank never grows while a run is under
-- way, and falls at the steps that count.
namespace Ranking

variable {σ ω : Type*} (step : σ → ω → σ) (counts : σ → ω → Bool)

-- The number of steps of a run that count, each judged in the state in which it is made.
def counted : σ → List ω → Nat
  | _, []           => 0
  | s, move :: rest => (if counts s move then 1 else 0) + counted (step s move) rest

-- What the steps do to the rank while a run is under way, in the states of an invariant.
structure Ranked (inv : σ → Prop) (live : σ → Prop) (rank : σ → Nat) : Prop where
  keeps : inv s → inv (step s move)
  le    : inv s → live s → live (step s move) → rank (step s move) ≤ rank s
  lt    : inv s → live s → live (step s move) → counts s move → rank (step s move) < rank s

variable {step counts} {inv live : σ → Prop} {rank : σ → Nat} {s : σ} {moves : List ω}

theorem Ranked.step_le {move : ω} (ranked : Ranked step counts inv live rank) (hi : inv s) (hl : live s)
    (hs : live (step s move)) :
    rank (step s move) + (if counts s move then 1 else 0) ≤ rank s := by
  split
  case isTrue hc => exact ranked.lt hi hl hs hc
  case isFalse   => exact ranked.le hi hl hs

-- A run with more steps that count than its rank at the beginning has an end.
theorem Ranked.ends (ranked : Ranked step counts inv live rank) (hi : inv s) (hl : live s)
    (hc : rank s < counted step counts s moves) :
    ∃ before move after, moves = before ++ move :: after ∧ live (before.foldl step s) ∧
      ¬live (step (before.foldl step s) move) := by
  induction moves generalizing s
  case nil => exact absurd hc (Nat.not_lt_zero _)
  case cons move rest ih =>
    by_cases hs : live (step s move)
    case neg => exact ⟨[], move, rest, rfl, hl, hs⟩
    case pos =>
      have fallen := ranked.step_le hi hl hs
      rw [counted] at hc
      obtain ⟨before, last, after, hm, lives, ends⟩ := ih (ranked.keeps hi) hs (by omega)
      exact ⟨move :: before, last, after, by rw [hm, List.cons_append], lives, ends⟩

end Ranking
