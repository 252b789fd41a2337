import DenebModel.Objects.MaterialWorkflow
import Mathlib.Tactic.SplitIfs

namespace Deneb.MaterialWorkflow

variable {wf wf' : MaterialWorkflow} {call : Call} {op : Operation} {target : Int} {sent : Bool}

structure Consistent (wf : MaterialWorkflow) : Prop where
  moving  : wf.moving ↔ wf.state = .finalizing
  heating : wf.heating → wf.targetSent ∧ 0 < wf.acceptedTargetTempC
  sent    : wf.targetSent → 0 < wf.acceptedTargetTempC
  blocked : wf.printingBlocked ↔ wf.state ≠ .idle ∧ wf.state ≠ .final

-- Once it is final, only another `prepare` takes the workflow up again.
def Permits (wf : MaterialWorkflow) : Call → Prop
  | .setTarget target sent => wf.state = .final → target ≠ 0 ∧ (sent → target < 0)
  | .editTarget target     => wf.state = .final → target ≠ 0
  | .beginMove op          => wf.state = .final → op = .none
  | _                      => True

-- A final workflow has no operation and no target at the printer.
structure Inv (wf : MaterialWorkflow) : Prop extends Consistent wf where
  final : wf.state = .final → wf.operation = .none ∧ ¬wf.targetSent

theorem init_inv : Inv init where
  moving  := by decide
  heating := nofun
  sent    := nofun
  blocked := by decide
  final   := nofun

section

-- The workflow between `prepare` and `finalize`.
structure Started (wf : MaterialWorkflow) : Prop where
  moving  : wf.moving ↔ wf.state = .finalizing
  heating : wf.heating → wf.targetSent
  sent    : wf.targetSent → 0 < wf.acceptedTargetTempC
  blocked : wf.printingBlocked
  idle    : wf.state ≠ .idle
  final   : wf.state ≠ .final

theorem Started.inv (h : Started wf) : Inv wf where
  moving    := h.moving
  heating s := ⟨h.heating s, h.sent (h.heating s)⟩
  sent      := h.sent
  blocked   := iff_of_true h.blocked ⟨h.idle, h.final⟩
  final s   := absurd s h.final

theorem Inv.started (inv : Inv wf) (hi : wf.state ≠ .idle) (hf : wf.state ≠ .final) : Started wf where
  moving    := inv.moving
  heating h := (inv.heating h).left
  sent      := inv.sent
  blocked   := inv.blocked.mpr ⟨hi, hf⟩
  idle      := hi
  final     := hf

theorem Inv.not_moving (inv : Inv wf) (h : wf.state ≠ .finalizing) : wf.moving = false :=
  Bool.eq_false_iff.mpr fun hm => h (inv.moving.mp hm)

theorem inv_prepare (h : wf.prepare op = some wf') : Inv wf' := by
  unfold prepare at h
  split_ifs at h
  cases h
  exact Started.inv ⟨by simp, nofun, nofun, rfl, nofun, nofun⟩

theorem Inv.start (inv : Inv wf) (h : wf.start = some wf') : Inv wf' := by
  unfold MaterialWorkflow.start at h
  split_ifs at h with hs
  cases h
  have hp : wf.state = .prepared := Decidable.not_not.mp hs
  have hm : wf.moving = false := inv.not_moving (by simp [hp])
  have hw := inv.started (by simp [hp]) (by simp [hp])
  exact Started.inv ⟨by simp [hm], id, of_decide_eq_true, hw.blocked, nofun, nofun⟩

-- The state stays, or it is changed while nothing moves.
theorem Started.state (h : Started wf) (state : State)
    (hs : state = wf.state ∨ ¬wf.moving ∧ (state = .prepared ∨ state = .busy)) :
    (wf.moving ↔ state = .finalizing) ∧ state ≠ .idle ∧ state ≠ .final := by
  rcases hs with rfl | ⟨hm, rfl | rfl⟩
  case inl     => exact ⟨h.moving, h.idle, h.final⟩
  case inr.inl => exact ⟨iff_of_false hm nofun, nofun, nofun⟩
  case inr.inr => exact ⟨iff_of_false hm nofun, nofun, nofun⟩

theorem Inv.setTarget (inv : Inv wf) (ok : wf.Permits (.setTarget target sent))
    (h : wf.setTarget target sent = some wf') : Inv wf' := by
  unfold MaterialWorkflow.setTarget at h
  rw [Option.ite_none_left_eq_some, Option.ite_none_left_eq_some, Option.some_inj] at h
  obtain ⟨hn, hs, rfl⟩ := h
  have ⟨hi, hc⟩ := not_or.mp hs
  by_cases hf : wf.state = .final
  case pos =>
    have ⟨hz, hsent⟩ := ok hf
    have hns : sent = false := Bool.eq_false_iff.mpr fun h => hn (hsent h)
    have hm : wf.moving = false := inv.not_moving (by simp [hf])
    have hb : wf.printingBlocked = false :=
      Bool.eq_false_iff.mpr fun hb => (inv.blocked.mp hb).right hf
    constructor
    case toConsistent => constructor <;> simp [hz, hf, hm, hb, hns]
    case final => simp [(inv.final hf).left, hns]
  case neg =>
    have started := inv.started hi hf
    have ⟨hm, hi, hf⟩ := started.state (if target = 0 ∧ ¬wf.moving then .prepared else
        if (sent && decide (0 < target)) ∧ (wf.state = .prepared ∨ wf.state = .final) then .busy
        else wf.state) (by
      split_ifs with hz ht
      · exact .inr ⟨hz.right, .inl rfl⟩
      · exact .inr ⟨fun hm => by simp [inv.moving.mp hm] at ht, .inr rfl⟩
      · exact .inl rfl)
    refine Started.inv ⟨hm, id, fun ht => ?_, started.blocked, hi, hf⟩
    have ⟨hsent, ht⟩ := Bool.and_eq_true_iff.mp ht
    simpa [hsent] using ht

theorem Inv.editTarget (inv : Inv wf) (ok : wf.Permits (.editTarget target))
    (h : wf.editTarget target = some wf') : Inv wf' := by
  unfold MaterialWorkflow.editTarget at h
  rw [Option.ite_none_left_eq_some, Option.ite_none_left_eq_some] at h
  obtain ⟨hn, hs, h⟩ := h
  have ⟨hi, hc⟩ := not_or.mp hs
  split at h
  case isTrue  => cases h; exact ⟨⟨inv.moving, inv.heating, inv.sent, inv.blocked⟩, inv.final⟩
  case isFalse ht =>
    cases h
    by_cases hf : wf.state = .final
    case pos =>
      have hz := ok hf
      rw [if_neg fun h => hz h.left]
      exact ⟨⟨inv.moving, nofun, inv.sent, inv.blocked⟩, inv.final⟩
    case neg =>
      have started := inv.started hi hf
      have ⟨hm, hi, hf⟩ := started.state
          (if target = 0 ∧ ¬wf.moving then .prepared else wf.state) (by
        split_ifs with hz
        · exact .inr ⟨hz.right, .inl rfl⟩
        · exact .inl rfl)
      exact Started.inv ⟨hm, nofun, started.sent, started.blocked, hi, hf⟩

theorem Inv.beginMove (inv : Inv wf) (ok : wf.state = .final → op = .none)
    (h : wf.beginMove op = some wf') : Inv wf' := by
  unfold MaterialWorkflow.beginMove at h
  rw [Option.ite_none_left_eq_some, Option.ite_none_left_eq_some, Option.ite_none_left_eq_some,
    Option.some_inj] at h
  obtain ⟨ho, hs, hm, rfl⟩ := h
  have hf : wf.state ≠ .final := fun hf => ho (by simp [ok hf])
  have hi : wf.state ≠ .idle := fun hi => hs (by simp [hi])
  have started := inv.started hi hf
  exact Started.inv ⟨by simp, nofun, started.sent, started.blocked, nofun, nofun⟩

theorem Inv.completeMove (inv : Inv wf) (h : wf.completeMove = some wf') : Inv wf' := by
  unfold MaterialWorkflow.completeMove at h
  rw [Option.ite_none_left_eq_some, Option.some_inj] at h
  obtain ⟨hs, rfl⟩ := h
  have hs := Decidable.not_not.mp (not_or.mp hs).left
  have started := inv.started (by simp [hs]) (by simp [hs])
  refine Started.inv ⟨?_, id, started.sent, started.blocked, ?_, ?_⟩
  all_goals
    dsimp only
    split_ifs <;> simp

theorem Inv.cancel (inv : Inv wf) (h : wf.cancel = some wf') : Inv wf' := by
  unfold MaterialWorkflow.cancel at h
  rw [Option.ite_none_left_eq_some, Option.some_inj] at h
  obtain ⟨hs, rfl⟩ := h
  have started := inv.started (fun hi => hs (by simp [hi])) fun hf => hs (by simp [hf])
  exact Started.inv ⟨by simp, nofun, nofun, started.blocked, nofun, nofun⟩

theorem inv_finalize (h : wf.finalize = some wf') : Inv wf' := by
  unfold finalize at h
  rw [Option.ite_none_left_eq_some, Option.some_inj] at h
  obtain ⟨-, rfl⟩ := h
  exact ⟨⟨by simp, nofun, nofun, by simp⟩, fun _ => ⟨rfl, nofun⟩⟩

theorem Inv.run (inv : Inv wf) (ok : wf.Permits call) (h : wf.run call = some wf') : Inv wf' := by
  cases call
  case prepare      => exact inv_prepare h
  case start        => exact inv.start h
  case setTarget    => exact inv.setTarget ok h
  case editTarget   => exact inv.editTarget ok h
  case beginMove    => exact inv.beginMove ok h
  case completeMove => exact inv.completeMove h
  case advance      => exact inv.beginMove (fun hf => (inv.final hf).left) h
  case cancel       => exact inv.cancel h
  case finalize     => exact inv_finalize h

theorem Inv.exec (inv : Inv wf) (ok : wf.Permits call) : Inv (wf.exec call) := by
  unfold MaterialWorkflow.exec
  cases h : wf.run call
  case none => exact inv
  case some => exact inv.run ok h

theorem reached_inv (h : Reaches Permits wf) : Inv wf := by
  induction h
  case refl => exact init_inv
  case tail step inv =>
    obtain ⟨call, ok, rfl⟩ := step
    exact inv.exec ok

-- A call that takes up a final workflow leaves printing allowed.
theorem permits_of_consistent (inv : Inv wf) (h : Consistent (wf.exec call)) : wf.Permits call := by
  by_cases hf : wf.state = .final
  case neg =>
    cases call
    case setTarget | editTarget | beginMove => exact fun h => absurd h hf
    all_goals exact trivial
  case pos =>
    have hb : wf.printingBlocked = false :=
      Bool.eq_false_iff.mpr fun hb => (inv.blocked.mp hb).right hf
    have hm : wf.moving = false := inv.not_moving (by simp [hf])
    have ht : wf.targetSent = false := Bool.eq_false_iff.mpr (inv.final hf).right
    have blocked := h.blocked
    cases call
    case setTarget target sent =>
      by_cases hn : target < 0
      case pos => exact fun _ => ⟨by omega, fun _ => hn⟩
      case neg =>
        intro _
        simp only [MaterialWorkflow.exec, MaterialWorkflow.run, MaterialWorkflow.setTarget, hn, hf, hb, hm]
          at blocked
        by_cases hz : target = 0
        case pos => simp [hz] at blocked
        case neg =>
          refine ⟨hz, fun hs => ?_⟩
          have hpos : 0 < target := by omega
          simp [hz, hs, hpos] at blocked
    case editTarget target =>
      intro _ hz
      simp [MaterialWorkflow.exec, MaterialWorkflow.run, MaterialWorkflow.editTarget, hz, hf, hb, hm, ht]
        at blocked
    case beginMove op =>
      intro _
      cases op
      case none => rfl
      all_goals
        simp [MaterialWorkflow.exec, MaterialWorkflow.run, MaterialWorkflow.beginMove, hf, hb, hm]
          at blocked
    all_goals exact trivial

end

-- The relations hold in every state that is reached without taking up a final workflow, and the
-- first call that does so breaks them.
theorem workflow_consistent (h : Reaches Permits wf) :
    Consistent wf ∧ ∀ call, Consistent (wf.exec call) ↔ wf.Permits call := by
  have inv := reached_inv h
  exact ⟨inv.toConsistent, fun call => ⟨permits_of_consistent inv, fun ok => (inv.exec ok).toConsistent⟩⟩

-- The workflow is prepared, heats and moves.
theorem moving_consistent :
    Consistent (((init.exec (.prepare .load)).exec (.setTarget 205 true)).exec .advance) := by
  have first : Reaches Permits (init.exec (.prepare .load)) :=
    .single ⟨.prepare .load, trivial, rfl⟩
  have second : Reaches Permits ((init.exec (.prepare .load)).exec (.setTarget 205 true)) :=
    .tail first ⟨.setTarget 205 true, fun hf => absurd hf (by decide), rfl⟩
  exact (workflow_consistent (.tail second ⟨.advance, trivial, rfl⟩)).left

-- A target of zero takes up the final workflow, and printing stays allowed.
theorem final_taken_up : ¬∀ wf, Reaches (fun _ _ => True) wf → Consistent wf := by
  intro h
  have reached : Reaches (fun _ _ => True)
      ((((init.exec (.prepare .load)).exec .cancel).exec .finalize).exec (.setTarget 0 false)) :=
    .tail (.tail (.tail (.single ⟨.prepare .load, trivial, rfl⟩) ⟨.cancel, trivial, rfl⟩)
      ⟨.finalize, trivial, rfl⟩) ⟨.setTarget 0 false, trivial, rfl⟩
  exact absurd (h _ reached).blocked (by decide)

end Deneb.MaterialWorkflow
