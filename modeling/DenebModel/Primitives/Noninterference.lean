import DenebModel.Primitives.History

-- Noninterference of runs by unwinding: what is seen of a machine is the same when the hidden events
-- of a run are left out, if no single event shows a difference.
namespace Noninterference

open History

variable {σ ε ο : Type*} (step : σ → ε → σ) (view : σ → ο) (hidden : ε → Bool)

-- Each event of the run may come in the state in which it comes.
def Along (allowed : σ → ε → Prop) (s : σ) (events : List ε) : Prop :=
  Preceded (fun before e => allowed (before.foldl step s) e) events

-- What one event does, in the states of an invariant.
structure Unwinds (inv : σ → Prop) (allowed : σ → ε → Prop) : Prop where
  keeps    : inv s → allowed s e → inv (step s e)
  respects : inv s → allowed s e → hidden e → view (step s e) = view s
  agrees   : inv s → allowed s e → hidden e = false → view s = view t → view (step s e) = view (step t e)

variable {step view hidden} {inv : σ → Prop} {allowed : σ → ε → Prop} {s t : σ} {events : List ε}

theorem along_cons {e : ε} :
    Along step allowed s (e :: events) ↔ allowed s e ∧ Along step allowed (step s e) events :=
  preceded_cons

theorem Unwinds.inv_run (unwinds : Unwinds step view hidden inv allowed) (hi : inv s)
    (along : Along step allowed s events) : inv (events.foldl step s) := by
  induction events generalizing s
  case nil => exact hi
  case cons e events ih =>
    obtain ⟨first, rest⟩ := along_cons.mp along
    exact ih (unwinds.keeps hi first) rest

theorem Unwinds.inv_at {before after : List ε} {e : ε} (unwinds : Unwinds step view hidden inv allowed)
    (hi : inv s) (along : Along step allowed s (before ++ e :: after)) :
    inv (before.foldl step s) ∧ allowed (before.foldl step s) e :=
  ⟨unwinds.inv_run hi (preceded_append.mp along).left, along before e after rfl⟩

-- A run looks like the one without its hidden events.
theorem Unwinds.view_purge (unwinds : Unwinds step view hidden inv allowed) (hi : inv s) (same : view s = view t)
    (along : Along step allowed s events) :
    view (events.foldl step s) = view ((events.filter (!hidden ·)).foldl step t) := by
  induction events generalizing s t
  case nil => exact same
  case cons e events ih =>
    obtain ⟨first, rest⟩ := along_cons.mp along
    have hi' := unwinds.keeps hi first
    cases hh : hidden e
    case true =>
      rw [List.filter_cons_of_neg (by simp [hh])]
      exact ih hi' ((unwinds.respects hi first hh).trans same) rest
    case false =>
      rw [List.filter_cons_of_pos (by simp [hh])]
      exact ih hi' (unwinds.agrees hi first hh same) rest

end Noninterference
