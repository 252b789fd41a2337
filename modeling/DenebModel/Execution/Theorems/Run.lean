import DenebModel.Execution.Theorems.Lifecycle

namespace Deneb.Service

open Labelled

-- A condition holds of every call of a run, in the state in which the call is made.
def Along (ok : Service → Op → Prop) : Service → List Op → Prop
  | _, []        => True
  | s, op :: ops => ok s op ∧ Along ok (s.exec op) ops

instance Along.decidable {ok : Service → Op → Prop} [∀ s op, Decidable (ok s op)] :
    (s : Service) → (ops : List Op) → Decidable (Along ok s ops)
  | _, []        => .isTrue trivial
  | s, op :: ops =>
    have := @Along.decidable ok _ (s.exec op) ops
    inferInstanceAs (Decidable (_ ∧ _))

-- What a run records.
def events (s : Service) (ops : List Op) : List Event :=
  (s.run ops).trace.drop s.trace.length

-- A device that delivers complete lines.
def SerialEnv.ofLines (lines : List CString) : SerialEnv where
  input := lines.flatMap fun line => (line ++ [10]).map .byte

variable {s : Service} {ops : List Op} {ok : Service → Op → Prop}

theorem run_trace : (s.run ops).trace = s.trace ++ s.events ops := by
  suffices ∃ events, (s.run ops).trace = s.trace ++ events by
    obtain ⟨events, h⟩ := this
    rw [Service.events, h, List.drop_left]
  induction ops generalizing s
  case nil => exact ⟨[], (List.append_nil _).symm⟩
  case cons op ops ih =>
    have ⟨events, ht, _⟩ := @exec_refines s op
    have ⟨events', ht'⟩ := @ih (s.exec op)
    exact ⟨events ++ events', by rw [← List.append_assoc, ← ht]; exact ht'⟩

theorem events_nil : s.events [] = [] :=
  List.drop_length

theorem events_cons {op : Op} {recorded : List Event}
    (h : (s.exec op).trace = s.trace ++ recorded) :
    s.events (op :: ops) = recorded ++ (s.exec op).events ops := by
  have hr : (s.run (op :: ops)).trace = s.trace ++ (recorded ++ (s.exec op).events ops) := by
    rw [← List.append_assoc, ← h]
    exact @run_trace (s.exec op) ops
  rw [events, hr, List.drop_left]

theorem events_single {op : Op} {recorded : List Event}
    (h : (s.exec op).trace = s.trace ++ recorded) : s.events [op] = recorded := by
  rw [events_cons h, events_nil, List.append_nil]

theorem along_true : Along (fun _ _ => True) s ops := by
  induction ops generalizing s
  case nil     => exact True.intro
  case cons ih => exact ⟨True.intro, ih⟩

theorem Along.append {ops' : List Op} (h : Along ok s (ops ++ ops')) :
    Along ok s ops ∧ Along ok (s.run ops) ops' := by
  induction ops generalizing s
  case nil => exact ⟨trivial, h⟩
  case cons op ops ih =>
    have ⟨before, after⟩ := ih h.2
    exact ⟨⟨h.1, before⟩, after⟩

-- A property of the lifecycle that every call keeps until an event of some kind is recorded.
theorem run_until {stop : Event → Bool} {good : List Event → Prop}
    {inv : List Event → Lifecycle → Prop}
    (hexec : ∀ {s op past recorded}, inv past s.lifecycle → ok s op →
      (s.exec op).trace = s.trace ++ recorded →
      Lifecycle.Exec op s.lifecycle recorded (s.exec op).lifecycle →
      Until stop (good <| past ++ ·) (inv <| past ++ ·) recorded (s.exec op).lifecycle)
    (hg : ∀ {past l}, inv past l → good past) {past : List Event} (hok : Along ok s ops)
    (hi : inv past s.lifecycle) :
    Until stop (good <| past ++ ·) (inv <| past ++ ·) (s.events ops) (s.run ops).lifecycle := by
  induction ops generalizing s past
  case nil =>
    rw [events_nil]
    exact .nil (by rw [List.append_nil]; exact hg hi) (by rwa [List.append_nil])
  case cons op ops ih =>
    have ⟨recorded, ht, exec⟩ := @exec_refines s op
    rw [events_cons ht]
    refine (hexec hi hok.1 ht exec).append fun hi => ?_
    have rest := ih hok.2 hi
    simp only [List.append_assoc] at rest
    exact rest

-- A property of the lifecycle that every call keeps, and what holds of all that is recorded.
theorem run_invariant {p : Lifecycle → Prop} {q : Event → Prop}
    (hexec : ∀ {s op recorded}, p s.lifecycle → ok s op →
      (s.exec op).trace = s.trace ++ recorded →
      Lifecycle.Exec op s.lifecycle recorded (s.exec op).lifecycle →
      p (s.exec op).lifecycle ∧ ∀ e ∈ recorded, q e)
    (hok : Along ok s ops) (hp : p s.lifecycle) :
    p (s.run ops).lifecycle ∧ ∀ e ∈ s.events ops, q e := by
  induction ops generalizing s
  case nil =>
    rw [events_nil]
    exact ⟨hp, fun _ h => absurd h List.not_mem_nil⟩
  case cons op ops ih =>
    have ⟨recorded, ht, exec⟩ := @exec_refines s op
    have ⟨hp, hq⟩ := hexec hp hok.1 ht exec
    have ⟨hp', hq'⟩ := ih hok.2 hp
    refine ⟨hp', fun e he => ?_⟩
    rw [events_cons ht] at he
    rcases List.mem_append.mp he with he | he
    case inl => exact hq e he
    case inr => exact hq' e he

end Deneb.Service
