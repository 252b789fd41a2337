import Mathlib.Data.List.TakeWhile

-- Transition systems whose steps record lists of events, and properties that hold until an event of
-- some kind is recorded.
namespace Labelled

variable {σ ε : Type*}

inductive Steps (step : σ → List ε → σ → Prop) : σ → List ε → σ → Prop
  | refl : Steps step s [] s
  | tail : Steps step s events s' → step s' events' s'' → Steps step s (events ++ events') s''

-- The events before the first one that stops.
def upTo (stop : ε → Bool) (events : List ε) : List ε :=
  events.takeWhile (!stop ·)

-- The events are good up to the first one that stops, and the invariant holds if none has stopped.
structure Until (stop : ε → Bool) (good : List ε → Prop) (inv : List ε → σ → Prop)
    (events : List ε) (s : σ) : Prop where
  good : good (upTo stop events)
  inv  : (∀ e ∈ events, ¬stop e) → inv events s

variable {step : σ → List ε → σ → Prop} {stop : ε → Bool} {good : List ε → Prop}
variable {inv : List ε → σ → Prop} {s s' : σ} {events events' : List ε}

theorem upTo_of_none (h : ∀ e ∈ events, ¬stop e) : upTo stop events = events := by
  simpa [upTo, List.takeWhile_eq_self_iff] using h

theorem upTo_append_of_none (h : ∀ e ∈ events, ¬stop e) :
    upTo stop (events ++ events') = events ++ upTo stop events' :=
  List.takeWhile_append_of_pos (by simpa using h)

theorem upTo_append_of_some (h : ¬∀ e ∈ events, ¬stop e) :
    upTo stop (events ++ events') = upTo stop events := by
  have hl : (events.takeWhile (!stop ·)).length ≠ events.length := by
    intro hl
    have := (List.takeWhile_prefix (!stop ·)).eq_of_length hl
    exact h (by simpa [List.takeWhile_eq_self_iff] using this)
  rw [upTo, List.takeWhile_append, if_neg hl, upTo]

theorem Until.nil (hg : good []) (hi : inv [] s) : Until stop good inv [] s :=
  ⟨hg, fun _ => hi⟩

-- What follows matters only if nothing has stopped yet.
theorem Until.append (h : Until stop good inv events s)
    (h' : inv events s → Until stop (good <| events ++ ·) (inv <| events ++ ·) events' s') :
    Until stop good inv (events ++ events') s' := by
  by_cases hs : ∀ e ∈ events, ¬stop e
  case pos =>
    have ⟨hg, hi⟩ := h' (h.inv hs)
    refine ⟨?_, fun hn => hi fun e he => hn e (List.mem_append_right _ he)⟩
    rw [upTo_append_of_none hs]
    exact hg
  case neg =>
    refine ⟨?_, fun hn => absurd (fun e he => hn e (List.mem_append_left _ he)) hs⟩
    rw [upTo_append_of_some hs]
    exact h.good

theorem Until.steps
    (hstep : ∀ {events s events' s'}, inv events s → step s events' s' →
      Until stop (good <| events ++ ·) (inv <| events ++ ·) events' s')
    (hg : ∀ {events s}, inv events s → good events) (hi : inv events s)
    (h : Steps step s events' s') :
    Until stop (good <| events ++ ·) (inv <| events ++ ·) events' s' := by
  induction h
  case refl => exact .nil (by rw [List.append_nil]; exact hg hi) (by rwa [List.append_nil])
  case tail step ih =>
    refine ih.append fun hi => ?_
    have := hstep hi step
    simpa only [List.append_assoc] using this

-- A step that stops nothing.
theorem Until.of_none (hn : ∀ e ∈ events, ¬stop e) (hg : good events) (hi : inv events s) :
    Until stop good inv events s :=
  ⟨by rwa [upTo_of_none hn], fun _ => hi⟩

-- The record is good event by event, and the invariant says nothing about it.
theorem Until.each {q : ε → Prop} {p : σ → Prop} {past : List ε} (hpast : ∀ e ∈ past, q e)
    (hq : ∀ e ∈ events, q e) (hp : (∀ e ∈ events, ¬stop e) → p s) :
    Until stop (fun es => ∀ e ∈ past ++ es, q e) (fun es s => (∀ e ∈ past ++ es, q e) ∧ p s)
      events s := by
  have all {es : List ε} (h : es ⊆ events) : ∀ e ∈ past ++ es, q e := by
    intro e he
    cases List.mem_append.mp he
    case inl he => exact hpast e he
    case inr he => exact hq e (h he)
  exact ⟨all (List.takeWhile_subset _), fun hn => ⟨all (List.Subset.refl _), hp hn⟩⟩

theorem Steps.keeps {p : σ → Prop} (hstep : ∀ {s events s'}, step s events s' → p s → p s')
    (h : Steps step s events s') (hp : p s) : p s' := by
  induction h
  case refl         => exact hp
  case tail step ih => exact hstep step ih

-- An invariant that nothing stops, and what holds of every event.
theorem Steps.invariant {p : σ → Prop} {q : ε → Prop}
    (hstep : ∀ {s events s'}, p s → step s events s' → p s' ∧ ∀ e ∈ events, q e)
    (hp : p s) (h : Steps step s events s') : p s' ∧ ∀ e ∈ events, q e := by
  induction h
  case refl => exact ⟨hp, nofun⟩
  case tail step ih =>
    have ⟨hp, hq⟩ := ih
    have ⟨hp', hq'⟩ := hstep hp step
    refine ⟨hp', fun e he => ?_⟩
    rcases List.mem_append.mp he with he | he
    case inl => exact hq e he
    case inr => exact hq' e he

end Labelled
