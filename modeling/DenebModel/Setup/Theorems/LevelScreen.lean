import DenebModel.Primitives.History
import DenebModel.Setup.LevelScreen
import Mathlib.Tactic.SplitIfs

-- The levelling of the build plate: the order of its steps, and when a move can still end.
namespace Deneb.LevelScreen

open CString History BuildplateLevel

variable {s t : LevelScreen} {events : List Event} {cur prev : Step} {record : List Mark}

-- One file at a time is sent. It is that of the first step, or the step before it has just succeeded.
def Follows (before : List Mark) : Mark → Prop
  | .sent file =>
    (∀ file, before.getLast? ≠ some (.sent file)) ∧
    (file = planStep .step1 ∨ ∃ prev step, prev.next = some step ∧ file = planStep step ∧
      before.getLast? = some (.answered (planStep prev) 0))
  | .answered file _ => before.getLast? = some (.sent file)

-- Nothing is under way, and a step that is reached has just succeeded.
structure Still (s : LevelScreen) : Prop where
  state   : s.workflow.state ≠ .moving
  idle    : ∀ file, s.record.getLast? ≠ some (.sent file)
  reached : s.workflow.state = .atTarget ∨ s.workflow.state = .final →
    s.record.getLast? = some (.answered (planStep s.workflow.currentStep) 0)
  final   : s.workflow.state = .final → s.workflow.currentStep = .finish

-- No file is at the print service; a thread may still have to end.
structure Back (s : LevelScreen) : Prop where
  calls   : s.calls = []
  threads : s.ends = 0 ∧ s.macroRunning = false ∨ s.ends = 1 ∧ s.macroRunning

-- Between two moves, at the print service, or behind its answer. The timer, which takes the answer
-- up, may be gone with the screen once the thread has ended.
inductive At (s : LevelScreen) : Prop
  | still (back : Back s) (timer : s.macroTimer = false) (still : Still s)
  | calling (step : Step) (calls : s.calls = [step]) (ends : s.ends = 0) (running : s.macroRunning)
      (done : s.macroDone = false) (timer : s.macroTimer)
      (moving : s.workflow.state = .moving ∧ s.workflow.moving ∧ s.workflow.currentStep = step)
      (sent : s.record.getLast? = some (.sent (planStep step)))
  | answered (back : Back s) (done : s.macroDone) (timer : s.macroRunning → s.macroTimer)
      (moving : s.workflow.state = .moving ∧ s.workflow.moving)
      (result : s.record.getLast? = some (.answered (planStep s.workflow.currentStep) s.macroRc))

structure Inv (s : LevelScreen) : Prop where
  place  : At s
  record : Preceded Follows s.record

theorem preceded_concat {mark : Mark} (h : Preceded Follows record) (hm : Follows record mark) :
    Preceded Follows (record ++ [mark]) := by
  rw [preceded_append, preceded_cons]
  exact ⟨h, by rwa [List.append_nil], preceded_nil⟩

theorem start_inv : Inv {} where
  place := .still ⟨rfl, .inl ⟨rfl, rfl⟩⟩ rfl ⟨by decide, by simp, by simp, by simp⟩
  record := preceded_nil

theorem prepareIfNeeded_cases {wf : Workflow} : ∃ wf', wf.prepareIfNeeded = some wf' ∧
    (wf' = wf ∧ ¬(wf.state = .none ∨ wf.state = .final ∨ wf.state = .cancelled) ∨
      wf' = { state := .prepared } ∧ wf.state ≠ .moving) := by
  rw [Workflow.prepareIfNeeded]
  split
  case isFalse taken => exact ⟨wf, rfl, .inl ⟨rfl, taken⟩⟩
  case isTrue free =>
    refine ⟨{ state := .prepared }, ?_, .inr ⟨rfl, fun h => by simp [h] at free⟩⟩
    rw [Workflow.prepare, if_neg (by tauto)]

theorem begins_of_nextStep {wf : Workflow} (h : wf.nextStep = some cur) :
    (if wf.state = .prepared then wf.start else wf.advance cur) =
      some { wf with state := .moving, currentStep := cur, moving := true } ∧
    (wf.state = .prepared ∧ cur = .step1 ∨ wf.state = .atTarget ∧ wf.currentStep.next = some cur) := by
  rw [Workflow.nextStep] at h
  split_ifs at h with prepared reached
  case pos =>
    obtain rfl := Option.some.inj h
    rw [if_pos prepared, Workflow.start, if_neg (not_not.mpr prepared)]
    exact ⟨rfl, .inl ⟨prepared, rfl⟩⟩
  case pos =>
    have later : wf.currentStep ≠ .finish := by
      intro last
      rw [last] at h
      cases h
    rw [if_neg prepared, Workflow.advance, if_neg (not_not.mpr reached), if_neg later, if_neg (not_not.mpr h)]
    exact ⟨rfl, .inr ⟨reached, h⟩⟩

-- The workflow at the beginning of a move.
structure Begins (wf wf' : Workflow) (step : Step) : Prop where
  moving : wf'.state = .moving ∧ wf'.moving ∧ wf'.currentStep = step
  still  : wf.state ≠ .moving
  order  : step = .step1 ∨ wf.state = .atTarget ∧ wf.currentStep.next = some step

-- What the button does when it does anything: the next step is sent, or its thread could not be made.
theorem next_cases {ready created : Bool} : s.next ready created = s ∨
    s.macroRunning = false ∧ ∃ wf step, Begins s.workflow wf step ∧
      (s.next ready created = { s with
          workflow := wf, macroRc := 0, macroDone := false, macroCancelled := false, macroRunning := true,
          macroTimer := true, calls := s.calls ++ [step], record := s.record ++ [.sent (planStep step)] } ∨
        s.next ready created = { s with
          workflow := { wf with state := .cancelled, moving := false }, macroRc := -1, macroDone := false,
          macroCancelled := false, macroRunning := false }) := by
  by_cases busy : !ready || s.macroRunning
  case pos => exact .inl (by rw [next, if_pos busy])
  case neg =>
    have running : s.macroRunning = false := by
      rw [Bool.or_eq_true_iff, not_or] at busy
      exact Bool.eq_false_iff.mpr busy.right
    obtain ⟨wf, prepared, origin⟩ := @prepareIfNeeded_cases s.workflow
    rw [next, if_neg busy, prepared]
    dsimp only
    cases hn : wf.nextStep
    case none =>
      obtain ⟨rfl, _⟩ | ⟨rfl, _⟩ := origin
      case inl => exact .inl rfl
      case inr => cases hn
    case some step =>
      obtain ⟨begins, order⟩ := begins_of_nextStep hn
      dsimp only
      rw [begins]
      refine .inr ⟨running, { wf with state := .moving, currentStep := step, moving := true }, step, ?begins, ?_⟩
      case begins =>
        obtain ⟨rfl, _⟩ | ⟨rfl, still⟩ := origin
        case inl =>
          obtain ⟨hp, rfl⟩ | ⟨ha, later⟩ := order
          case inl => exact ⟨⟨rfl, rfl, rfl⟩, by simp [hp], .inl rfl⟩
          case inr => exact ⟨⟨rfl, rfl, rfl⟩, by simp [ha], .inr ⟨ha, later⟩⟩
        case inr =>
          obtain ⟨_, rfl⟩ | ⟨ha, _⟩ := order
          case inl => exact ⟨⟨rfl, rfl, rfl⟩, still, .inl rfl⟩
          case inr => cases ha
      cases created
      case true  => exact .inl rfl
      case false => exact .inr rfl

theorem Still.cancelled {wf : Workflow} (still : Still s) (h : wf.state = .cancelled) (record : t.record = s.record)
    (workflow : t.workflow = wf) : Still t where
  state   := by simp [workflow, h]
  idle    := record ▸ still.idle
  reached := by simp [workflow, h]
  final   := by simp [workflow, h]

theorem Inv.still (inv : Inv s) (h : s.workflow.state ≠ .moving) : Back s ∧ s.macroTimer = false ∧ Still s := by
  obtain ⟨back, timer, still⟩ | ⟨_, _, _, _, _, _, moving, _⟩ | ⟨_, _, _, moving, _⟩ := inv.place
  case still    => exact ⟨back, timer, still⟩
  case calling  => exact absurd moving.left h
  case answered => exact absurd moving.left h

theorem Inv.next {ready created : Bool} (inv : Inv s) : Inv (s.next ready created) := by
  obtain same | ⟨running, wf, step, begins, outcome⟩ := @next_cases s ready created
  case inl => rwa [same]
  case inr =>
    obtain ⟨back, timer, still⟩ := inv.still begins.still
    have ended : s.ends = 0 := by simpa [running] using back.threads
    obtain sent | failed := outcome
    case inl =>
      rw [sent]
      refine ⟨.calling step (by simp [back.calls]) ended rfl rfl rfl begins.moving (by simp), ?_⟩
      refine preceded_concat inv.record ⟨still.idle, ?_⟩
      obtain rfl | ⟨reached, next⟩ := begins.order
      case inl => exact .inl rfl
      case inr => exact .inr ⟨_, _, next, rfl, still.reached (.inl reached)⟩
    case inr =>
      rw [failed]
      exact ⟨.still ⟨back.calls, .inl ⟨ended, rfl⟩⟩ timer (still.cancelled rfl rfl rfl), inv.record⟩

theorem Inv.cancel (inv : Inv s) : Inv s.cancel := by
  rw [LevelScreen.cancel]
  split
  case isTrue moving =>
    obtain ⟨_, _, still⟩ | ⟨step, calls, ends, running, done, timer, moving, sent⟩ |
      ⟨back, done, timer, moving, result⟩ := inv.place
    case still    => exact absurd moving still.state
    case calling  => exact ⟨.calling step calls ends running done timer moving sent, inv.record⟩
    case answered => exact ⟨.answered ⟨back.calls, back.threads⟩ done timer moving result, inv.record⟩
  case isFalse idle =>
    obtain ⟨back, timer, still⟩ := inv.still idle
    refine ⟨.still ⟨back.calls, back.threads⟩ timer ?_, inv.record⟩
    rw [Workflow.cancel]
    split
    case isTrue  => exact ⟨still.state, still.idle, still.reached, still.final⟩
    case isFalse => exact still.cancelled rfl rfl rfl

theorem Inv.answer {i : Nat} {rc : Int} (inv : Inv s) : Inv (s.answer i rc) := by
  rw [LevelScreen.answer]
  split
  case h_1 => exact inv
  case h_2 step found =>
    obtain ⟨back, _, _⟩ | ⟨step', calls, ends, running, done, timer, moving, sent⟩ | ⟨back, _, _, _, _⟩ := inv.place
    case still    => simp [back.calls] at found
    case answered => simp [back.calls] at found
    case calling  =>
      rw [calls, List.getElem?_singleton, Option.ite_none_right_eq_some] at found
      obtain ⟨rfl, found⟩ := found
      obtain rfl := Option.some.inj found
      refine ⟨.answered ⟨by simp [calls], .inr ⟨by simp [ends], running⟩⟩ rfl (fun _ => timer)
        ⟨moving.left, moving.right.left⟩ (by simp [moving.right.right]), ?_⟩
      exact preceded_concat inv.record sent

theorem Inv.threadEnd (inv : Inv s) : Inv s.threadEnd := by
  rw [LevelScreen.threadEnd]
  split
  case isTrue => exact inv
  case isFalse some =>
    have ended (back : Back s) : s.ends - 1 = 0 := by
      obtain h | h := back.threads <;> omega
    obtain ⟨back, timer, still⟩ | ⟨_, _, ends, _⟩ | ⟨back, done, timer, moving, result⟩ := inv.place
    case calling  => exact absurd ends some
    case still    =>
      exact ⟨.still ⟨back.calls, .inl ⟨ended back, rfl⟩⟩ timer
        ⟨still.state, still.idle, still.reached, still.final⟩, inv.record⟩
    case answered =>
      exact ⟨.answered ⟨back.calls, .inl ⟨ended back, rfl⟩⟩ done (fun h => by cases h) moving result, inv.record⟩

theorem Inv.create (inv : Inv s) : Inv s.create := by
  rw [LevelScreen.create]
  split
  case isFalse => exact inv
  case isTrue none =>
    obtain ⟨back, timer, still⟩ := inv.still (by simp [none])
    exact ⟨.still ⟨back.calls, back.threads⟩ timer
      ⟨by simp [Workflow.prepare], still.idle, by simp [Workflow.prepare], by simp [Workflow.prepare]⟩, inv.record⟩

theorem Inv.destroy (inv : Inv s) : Inv s.destroy := by
  rw [LevelScreen.destroy]
  split
  case isFalse => exact inv
  case isTrue free =>
    rw [Bool.and_eq_true_iff, Bool.not_eq_true'] at free
    obtain ⟨back, timer, still⟩ | ⟨_, _, _, running, _⟩ | ⟨back, done, timer, moving, result⟩ := inv.place
    case still    => exact absurd (timer.symm.trans free.left) (by decide)
    case calling  => exact absurd (free.right.symm.trans running) (by decide)
    case answered =>
      refine ⟨.answered ⟨back.calls, back.threads⟩ done (fun running => ?_) moving result, inv.record⟩
      exact absurd (free.right.symm.trans running) (by decide)

theorem cancel_moving {wf : Workflow} (h : wf.state = .moving) :
    wf.cancel = some { wf with state := .cancelled, moving := false } := by
  rw [Workflow.cancel, if_neg (by simp [h])]

-- The timer ends a move, and the next step is only open if the file succeeded.
theorem tick_answered (back : Back s) (done : s.macroDone) (timer : s.macroTimer)
    (moving : s.workflow.state = .moving ∧ s.workflow.moving)
    (result : s.record.getLast? = some (.answered (planStep s.workflow.currentStep) s.macroRc)) :
    Still s.tick ∧ Back s.tick ∧ s.tick.macroTimer = false ∧ s.tick.record = s.record := by
  have idle : ∀ file, s.record.getLast? ≠ some (.sent file) := by simp [result]
  have cancels := cancel_moving moving.left
  rw [tick, if_neg (by simp [timer, done])]
  dsimp only
  split_ifs with cancelled success
  case pos =>
    refine ⟨?_, ⟨back.calls, back.threads⟩, rfl, rfl⟩
    rw [cancels]
    exact ⟨by simp, idle, by simp, by simp⟩
  case pos =>
    have completes : s.workflow.completeMove = some { s.workflow with
        moving := false, stepCount := s.workflow.stepCount + 1,
        state := if s.workflow.currentStep = .finish then .final else .atTarget } := by
      rw [Workflow.completeMove, if_neg (by simp [moving])]
    refine ⟨?_, ⟨back.calls, back.threads⟩, rfl, rfl⟩
    rw [completes]
    refine ⟨?_, idle, fun _ => success ▸ result, fun final => ?_⟩
    case refine_1 =>
      dsimp only [Option.getD_some]
      split <;> decide
    case refine_2 =>
      dsimp only [Option.getD_some] at final ⊢
      by_contra other
      rw [if_neg other] at final
      exact absurd final (by decide)
  case pos =>
    refine ⟨?_, ⟨back.calls, back.threads⟩, rfl, rfl⟩
    rw [cancels]
    exact ⟨by simp, idle, by simp, by simp⟩
  case neg other => exact absurd moving.left other

theorem Inv.tick (inv : Inv s) : Inv s.tick := by
  by_cases due : s.macroTimer ∧ s.macroDone
  case neg =>
    have same : s.tick = s := by
      rw [LevelScreen.tick, if_pos]
      simp only [not_and_or, Bool.not_eq_true] at due
      obtain h | h := due <;> simp [h]
    rw [same]
    exact inv
  case pos =>
    obtain ⟨_, timer, _⟩ | ⟨_, _, _, _, done, _⟩ | ⟨back, done, _, moving, result⟩ := inv.place
    case still    => exact absurd (timer.symm.trans due.left) (by decide)
    case calling  => exact absurd (done.symm.trans due.right) (by decide)
    case answered =>
      obtain ⟨still, back, timer, record⟩ := tick_answered back done due.left moving result
      exact ⟨.still back timer still, record ▸ inv.record⟩

theorem Inv.step (inv : Inv s) (e : Event) : Inv (s.step e) := by
  cases e
  case next      => exact inv.next
  case cancel    => exact inv.cancel
  case answer    => exact inv.answer
  case threadEnd => exact inv.threadEnd
  case tick      => exact inv.tick
  case create    => exact inv.create
  case destroy   => exact inv.destroy

theorem Inv.run (inv : Inv s) : Inv (s.run events) := by
  induction events generalizing s
  case nil => exact inv
  case cons e events ih => exact ih (inv.step e)

-- The record of steps that succeed one after the other.
def marks (steps : List Step) : List Mark :=
  steps.flatMap fun step => [.sent (planStep step), .answered (planStep step) 0]

theorem planStep_injective (h : planStep cur = planStep prev) : cur = prev := by
  revert h
  cases cur <;> cases prev <;> decide

theorem snoc_of_getLast? {mark : Mark} (h : record.getLast? = some mark) : ∃ front, record = front ++ [mark] :=
  ⟨record.dropLast, (List.dropLast_append_getLast? mark h).symm⟩

-- Before the success of a step its file was sent, and before that came the success of the step before.
theorem sent_of_answered (h : Preceded Follows record)
    (last : record.getLast? = some (.answered (planStep cur) 0)) :
    ∃ front, record = front ++ marks [cur] ∧ Preceded Follows front ∧ (cur = .step1 ∨
      ∃ prev, prev.next = some cur ∧ front.getLast? = some (.answered (planStep prev) 0)) := by
  obtain ⟨record, rfl⟩ := snoc_of_getLast? last
  obtain ⟨record, rfl⟩ := snoc_of_getLast? (h record _ [] rfl)
  obtain ⟨-, order⟩ : Follows record (.sent (planStep cur)) :=
    h record _ [.answered (planStep cur) 0] (by simp)
  refine ⟨record, by simp [marks], ?_, ?_⟩
  case refine_1 => exact (preceded_append.mp (preceded_append.mp h).left).left
  case refine_2 =>
    obtain first | ⟨prev, step, next, file, succeeded⟩ := order
    case inl => exact .inl (planStep_injective first)
    case inr => exact .inr ⟨prev, planStep_injective file ▸ next, succeeded⟩

-- The steps from the first one to the given one.
def upTo : Step → List Step
  | .step1  => [.step1]
  | .step2  => [.step1, .step2]
  | .step3  => [.step1, .step2, .step3]
  | .step4  => [.step1, .step2, .step3, .step4]
  | .finish => [.step1, .step2, .step3, .step4, .finish]

theorem upTo_next (h : prev.next = some cur) : upTo cur = upTo prev ++ [cur] := by
  cases prev <;> cases h <;> rfl

theorem round_of_answered (h : Preceded Follows record)
    (last : record.getLast? = some (.answered (planStep cur) 0)) : ∃ earlier, record = earlier ++ marks (upTo cur) := by
  induction hn : record.length using Nat.strong_induction_on generalizing record cur
  case h n ih =>
    obtain ⟨front, rfl, before, rfl | ⟨prev, next, succeeded⟩⟩ := sent_of_answered h last
    case inl => exact ⟨front, rfl⟩
    case inr =>
      obtain ⟨earlier, rfl⟩ := ih front.length (by simp [← hn, marks]) before succeeded rfl
      exact ⟨earlier, by rw [upTo_next next, marks, marks, marks, List.flatMap_append, List.append_assoc]⟩

-- In every run of the screen, whatever is pressed and in whatever order its threads, its timer and the
-- screen come and go, one file at a time is sent to the print service, that of a later step only right
-- after the success of the step before it, and the levelling is done only after a whole round.
theorem levelling_orderly (events : List Event) :
    Preceded Follows (LevelScreen.run {} events).record ∧
    ((LevelScreen.run {} events).workflow.state = .final → ∃ earlier,
      (LevelScreen.run {} events).record = earlier ++ marks [.step1, .step2, .step3, .step4, .finish]) := by
  have inv := @Inv.run {} events start_inv
  refine ⟨inv.record, fun final => ?_⟩
  obtain ⟨_, _, still⟩ := inv.still (by simp [final])
  have last := still.reached (.inr final)
  rw [still.final final] at last
  exact round_of_answered inv.record last

-- The answer was not taken up before the screen went away.
structure Lost (s : LevelScreen) : Prop where
  calls   : s.calls = []
  ends    : s.ends = 0
  running : s.macroRunning = false
  timer   : s.macroTimer = false
  moving  : s.workflow.state = .moving

theorem Lost.step (lost : Lost s) (e : Event) : Lost (s.step e) := by
  have moving := lost.moving
  have timer := lost.timer
  cases e
  case next ready created =>
    obtain same | ⟨_, _, _, begins, _⟩ := @next_cases s ready created
    case inl => rwa [LevelScreen.step, same]
    case inr => exact absurd moving begins.still
  case cancel =>
    rw [LevelScreen.step, LevelScreen.cancel, if_pos moving]
    exact ⟨lost.calls, lost.ends, lost.running, timer, moving⟩
  case answer i rc =>
    have nothing : s.calls[i]? = none := by simp [lost.calls]
    rw [LevelScreen.step, LevelScreen.answer, nothing]
    exact lost
  case threadEnd => rwa [LevelScreen.step, LevelScreen.threadEnd, if_pos lost.ends]
  case tick      => rwa [LevelScreen.step, LevelScreen.tick, if_pos (by simp [timer])]
  case create    => rwa [LevelScreen.step, LevelScreen.create, if_neg (by simp [moving])]
  case destroy   => rwa [LevelScreen.step, LevelScreen.destroy, if_neg (by simp [timer])]

theorem Lost.run (lost : Lost s) : Lost (s.run events) := by
  induction events generalizing s
  case nil => exact lost
  case cons e events ih => exact ih (lost.step e)

theorem Inv.tick_ends (inv : Inv s) (calls : s.calls = []) (timer : s.macroTimer)
    (moving : s.workflow.state = .moving) : s.tick.workflow.state ≠ .moving := by
  obtain ⟨_, _, still⟩ | ⟨_, calls', _⟩ | ⟨back, done, _, moving, result⟩ := inv.place
  case still    => exact absurd moving still.state
  case calling  => simp [calls] at calls'
  case answered => exact (tick_answered back done timer moving result).left.state

-- A move that has begun can still end as long as its thread is running or the timer is there. Otherwise
-- it never does, whatever is pressed: the screen went away before the answer was taken up.
theorem move_ends_iff (events : List Event) (moving : (LevelScreen.run {} events).workflow.state = .moving) :
    (∃ more, ((LevelScreen.run {} events).run more).workflow.state ≠ .moving) ↔
      (LevelScreen.run {} events).macroRunning ∨ (LevelScreen.run {} events).macroTimer := by
  have inv := @Inv.run {} events start_inv
  generalize LevelScreen.run {} events = s at inv moving
  obtain ⟨_, _, still⟩ | ⟨step, calls, _, running, _, timer, _⟩ | ⟨back, _, timer, _⟩ := inv.place
  case still    => exact absurd moving still.state
  case calling  =>
    refine iff_of_true ⟨[.answer 0 0, .tick], ?_⟩ (.inl running)
    have answered : (s.answer 0 0).calls = [] ∧ (s.answer 0 0).macroTimer = s.macroTimer ∧
        (s.answer 0 0).workflow = s.workflow := by simp [LevelScreen.answer, calls]
    exact inv.answer.tick_ends answered.left (answered.right.left.trans timer)
      ((congrArg Workflow.state answered.right.right).trans moving)
  case answered =>
    constructor
    case mpr =>
      intro left
      exact ⟨[.tick], inv.tick_ends back.calls (left.elim timer id) moving⟩
    case mp =>
      rintro ⟨more, ended⟩
      by_contra gone
      rw [not_or, Bool.not_eq_true, Bool.not_eq_true] at gone
      have ends : s.ends = 0 := by
        obtain h | h := back.threads
        case inl => exact h.left
        case inr => exact absurd (gone.left.symm.trans h.right) (by decide)
      have lost : Lost s := ⟨back.calls, ends, gone.left, gone.right, moving⟩
      exact ended (@Lost.run s more lost).moving

-- The first step is done, its thread has ended, and the screen is left before the next tick.
def leftTooEarly : List Event :=
  [.create, .next true true, .answer 0 0, .threadEnd, .destroy]

theorem move_ends_iff_left_too_early :
    (∃ more, ((LevelScreen.run {} leftTooEarly).run more).workflow.state ≠ .moving) ↔
      (LevelScreen.run {} leftTooEarly).macroRunning ∨ (LevelScreen.run {} leftTooEarly).macroTimer :=
  move_ends_iff leftTooEarly (by decide)

end Deneb.LevelScreen
