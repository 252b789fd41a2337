import Mathlib.Data.List.Infix

-- Properties of the events of a record, each together with the events before it or after it.
namespace History

variable {ε : Type*}

def Preceded (q : List ε → ε → Prop) (events : List ε) : Prop :=
  ∀ before e after, events = before ++ e :: after → q before e

def Followed (q : ε → List ε → Prop) (events : List ε) : Prop :=
  ∀ before e after, events = before ++ e :: after → q e after

variable {q q' : List ε → ε → Prop} {r r' : ε → List ε → Prop}
variable {xs ys before after events : List ε} {e : ε}

-- An element of the whole is in its first part or in its second part.
theorem append_eq_append_cons_iff :
    xs ++ ys = before ++ e :: after ↔
      (∃ rest, xs = before ++ e :: rest ∧ after = rest ++ ys) ∨
      (∃ rest, before = xs ++ rest ∧ ys = rest ++ e :: after) := by
  constructor
  case mp =>
    intro h
    obtain ⟨rest, hb, hs⟩ | ⟨rest, rfl, hs⟩ := List.append_eq_append_iff.mp h
    case inl => exact .inr ⟨rest, hb, hs⟩
    case inr =>
      cases rest
      case nil => exact .inr ⟨[], by simp, hs.symm⟩
      case cons first rest =>
        obtain ⟨rfl, rfl⟩ := List.cons_eq_cons.mp hs
        exact .inl ⟨rest, rfl, rfl⟩
  case mpr =>
    rintro (⟨rest, rfl, rfl⟩ | ⟨rest, rfl, rfl⟩)
    case inl => rw [List.append_assoc, List.cons_append]
    case inr => rw [List.append_assoc]

theorem preceded_nil : Preceded q [] :=
  fun _ _ _ h => absurd h.symm (List.append_ne_nil_of_right_ne_nil _ (List.cons_ne_nil _ _))

theorem preceded_append :
    Preceded q (xs ++ ys) ↔ Preceded q xs ∧ Preceded (fun before => q (xs ++ before)) ys := by
  constructor
  case mp =>
    refine fun h => ⟨fun before e after hs => ?_, fun before e after hs => ?_⟩
    case refine_1 => exact h before e (after ++ ys) (by rw [hs, List.append_assoc, List.cons_append])
    case refine_2 => exact h (xs ++ before) e after (by rw [hs, List.append_assoc])
  case mpr =>
    rintro ⟨first, second⟩ before e after hs
    obtain ⟨rest, hx, _⟩ | ⟨rest, rfl, hy⟩ := append_eq_append_cons_iff.mp hs
    case inl => exact first before e rest hx
    case inr => exact second rest e after hy

theorem preceded_cons :
    Preceded q (e :: events) ↔ q [] e ∧ Preceded (fun before => q (e :: before)) events := by
  constructor
  case mp =>
    refine fun h => ⟨h [] e events rfl, fun before e' after hs => ?_⟩
    exact h (e :: before) e' after (by rw [hs, List.cons_append])
  case mpr =>
    rintro ⟨first, rest⟩ before e' after hs
    cases before
    case nil =>
      obtain ⟨rfl, _⟩ := List.cons_eq_cons.mp hs
      exact first
    case cons e'' before =>
      obtain ⟨rfl, he⟩ := List.cons_eq_cons.mp hs
      exact rest before e' after he

-- A property of each event alone.
theorem Preceded.of_forall (h : ∀ e ∈ events, ∀ before, q before e) : Preceded q events := by
  intro before e after hs
  exact h e (hs ▸ List.mem_append_right _ List.mem_cons_self) before

theorem preceded_map {δ : Type*} {f : δ → ε} {ds : List δ} :
    Preceded q (ds.map f) ↔ Preceded (fun before d => q (before.map f) (f d)) ds := by
  induction ds generalizing q
  case nil => exact ⟨fun _ => preceded_nil, fun _ => preceded_nil⟩
  case cons d ds ih =>
    rw [List.map_cons, preceded_cons, preceded_cons, ih]
    rfl

theorem Preceded.mono (h : Preceded q events) (hq : ∀ {before e}, q before e → q' before e) :
    Preceded q' events :=
  fun before e after hs => hq (h before e after hs)

theorem followed_nil : Followed r [] :=
  fun _ _ _ h => absurd h.symm (List.append_ne_nil_of_right_ne_nil _ (List.cons_ne_nil _ _))

theorem followed_append :
    Followed r (xs ++ ys) ↔ Followed (fun e after => r e (after ++ ys)) xs ∧ Followed r ys := by
  constructor
  case mp =>
    refine fun h => ⟨fun before e after hs => ?_, fun before e after hs => ?_⟩
    case refine_1 => exact h before e (after ++ ys) (by rw [hs, List.append_assoc, List.cons_append])
    case refine_2 => exact h (xs ++ before) e after (by rw [hs, List.append_assoc])
  case mpr =>
    rintro ⟨first, second⟩ before e after hs
    obtain ⟨rest, hx, rfl⟩ | ⟨rest, _, hy⟩ := append_eq_append_cons_iff.mp hs
    case inl => exact first before e rest hx
    case inr => exact second rest e after hy

theorem followed_cons : Followed r (e :: events) ↔ r e events ∧ Followed r events := by
  constructor
  case mp =>
    refine fun h => ⟨h [] e events rfl, fun before e' after hs => ?_⟩
    exact h (e :: before) e' after (by rw [hs, List.cons_append])
  case mpr =>
    rintro ⟨first, rest⟩ before e' after hs
    cases before
    case nil =>
      obtain ⟨rfl, rfl⟩ := List.cons_eq_cons.mp hs
      exact first
    case cons e'' before =>
      obtain ⟨_, he⟩ := List.cons_eq_cons.mp hs
      exact rest before e' after he

theorem followed_map {δ : Type*} {f : δ → ε} {ds : List δ} :
    Followed r (ds.map f) ↔ Followed (fun d after => r (f d) (after.map f)) ds := by
  induction ds
  case nil => exact ⟨fun _ => followed_nil, fun _ => followed_nil⟩
  case cons d ds ih => rw [List.map_cons, followed_cons, followed_cons, ih]

theorem Followed.of_forall (h : ∀ e ∈ events, ∀ after, r e after) : Followed r events := by
  intro before e after hs
  exact h e (hs ▸ List.mem_append_right _ List.mem_cons_self) after

theorem Followed.mono (h : Followed r events) (hr : ∀ {e after}, r e after → r' e after) :
    Followed r' events :=
  fun before e after hs => hr (h before e after hs)

end History
