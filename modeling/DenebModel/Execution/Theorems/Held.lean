import DenebModel.Execution.Theorems.Producers

namespace Deneb

open CString Labelled

-- An abort is begun, or a new job is accepted.
def Event.replaces : Event → Bool
  | aborted | jobAccepted _ => true
  | _                       => false

namespace Lifecycle

variable {l l' : Lifecycle} {recorded past : List Event} {paused : Prop}

section JobChange

-- The job has ended when an abort cleanup is going on.
def AbortWithoutJob (l : Lifecycle) : Prop :=
  l.pending .abort → ¬l.job

-- A finish cleanup belongs to an active job.
def FinishWithJob (l : Lifecycle) : Prop :=
  l.pending .finish → l.job

-- What a step does to the job and to the cleanups at its end.
inductive JobChange (l l' : Lifecycle) : Prop
  | keep :
    l'.job = l.job → (l'.pending .abort → l.pending .abort) →
    (l'.pending .finish → l.pending .finish) → JobChange l l'
  | finish : l.job → l'.job → (l'.pending .abort → l.pending .abort) → JobChange l l'
  | ended : ¬l'.job → ¬l'.pending .finish → JobChange l l'
  | accepted : l'.job → ¬l'.pending .abort → JobChange l l'

theorem JobChange.abortWithoutJob (h : JobChange l l') (ha : AbortWithoutJob l) :
    AbortWithoutJob l' := by
  intro hp hj
  cases h
  case keep job abort _    => exact ha (abort hp) (job ▸ hj)
  case finish job _ abort  => exact ha (abort hp) job
  case ended ended _       => exact ended hj
  case accepted _ abort    => exact abort hp

theorem JobChange.finishWithJob (h : JobChange l l') (hf : FinishWithJob l) : FinishWithJob l' := by
  intro hp
  cases h
  case keep job _ finish  => exact job ▸ hf (finish hp)
  case finish job _       => exact job
  case ended _ ended      => exact absurd hp ended
  case accepted job _     => exact job

theorem PolicyStep.jobChange (h : PolicyStep l recorded l') : JobChange l l' := by
  have advanced {kind k} : (l.advance kind).pending k → l.pending k := by simp
  have stopped {kind k} (h : (l.stop kind).pending k) : l.pending k := (pending_of_stop h).2
  cases h
  case send       => exact .keep rfl advanced advanced
  case fail       => exact .keep rfl stopped stopped
  case abortDone  => exact .keep rfl stopped stopped
  case finishDone => exact .ended Bool.false_ne_true fun h => (pending_of_stop h).1 rfl
  case pauseDone  => exact .keep rfl stopped stopped
  case resumeDone => exact .keep rfl stopped stopped
  case heat       => exact .keep rfl advanced advanced
  case leftover   => exact .keep rfl advanced advanced
  case probe      => exact .keep rfl id id
  case probeFail  => exact .keep rfl id id
  case probed     => exact .keep rfl (pending_of_begin (by decide)) (pending_of_begin (by decide))
  case unprobed   => exact .keep rfl id id

theorem PollStep.jobChange (h : PollStep l recorded l') : JobChange l l' := by
  cases h
  case silent    => exact .keep rfl id id
  case line h    => cases h <;> exact .keep rfl id id
  case error     => exact .keep rfl id id
  case abort     => exact .ended Bool.false_ne_true Bool.false_ne_true
  case dropAbort => exact .keep rfl id id
  case policy h  => exact h.jobChange
  case manual h  => cases h <;> exact .keep rfl id id
  case probe     => exact .keep rfl id id
  case wait h    => cases h <;> exact .keep rfl id id

theorem JobStep.jobChange (h : JobStep l recorded l') : JobChange l l' := by
  have ended {run : PolicyRun} : ¬(l.setPolicy .finish { run with pending := false }).pending .finish := by
    simp
  cases h
  case poll h    => exact h.jobChange
  case queue h   => cases h <;> exact .keep rfl id id
  case errorExit => exact .ended Bool.false_ne_true ended
  case streaming => exact .keep rfl id id
  case stream hs h =>
    cases h
    case prepare     => exact .keep rfl id id
    case prepareFail => exact .keep rfl id id
    case stage       => exact .keep rfl id id
    case readFail    => exact .ended Bool.false_ne_true ended
    case finish      => exact .finish hs.active hs.active (pending_of_begin (by decide))
    case stream      => exact .keep rfl id id
    case streamFail  => exact .ended Bool.false_ne_true ended

theorem GcodeStep.jobChange (h : GcodeStep l recorded l') : JobChange l l' := by
  cases h
  case queue h  => cases h <;> exact .keep rfl id id
  case wait h   => cases h <;> exact .keep rfl id id
  case manual h => cases h <;> exact .keep rfl id id

theorem MacroStep.jobChange {mayWait : Prop} (h : MacroStep mayWait l recorded l') :
    JobChange l l' := by
  cases h
  case poll h    => exact h.jobChange
  case send      => exact .keep rfl id id
  case startWait => exact .keep rfl id id
  case fail      => exact .keep rfl id id

-- A property that every change of the job keeps is kept by every call.
theorem Exec.keeps {p : Lifecycle → Prop} (hp : ∀ {l l'}, JobChange l l' → p l → p l')
    {op : Service.Op} (h : Exec op l recorded l') (hl : p l) : p l' := by
  have changed {l'} (h : JobChange l l') : p l' := hp h hl
  cases h
  case keep         => exact hl
  case pollMotion h => exact h.keeps (fun step => hp step.jobChange) hl
  case pollJob h    => exact h.keeps (fun step => hp step.jobChange) hl
  case queueFull    => exact changed (.keep rfl id id)
  case gcode manual steps =>
    refine steps.keeps (fun step => hp step.jobChange) (changed ?_)
    cases manual <;> exact .keep rfl id id
  case runMacro h   => exact h.keeps (fun step => hp step.jobChange) hl
  case job          => exact changed (.accepted rfl (by simp))
  case noFile       => exact changed (.keep rfl id id)
  case noAbort      => exact changed (.keep rfl id id)
  case abort        => exact changed (.ended Bool.false_ne_true Bool.false_ne_true)
  case pausing      => exact changed (.keep rfl id id)
  case paused       => exact changed (.keep rfl id id)
  case pausedIdle   => exact changed (.keep rfl id id)
  case resume       => exact changed (.keep rfl id id)
  case resumePolicy =>
    exact changed (.keep rfl (pending_of_begin (by decide)) (pending_of_begin (by decide)))

end JobChange

section Held

-- The job is held: it has failed or, if `paused`, it may also be paused. Nothing is going on that lets
-- it continue.
structure Held (paused : Prop) (l : Lifecycle) : Prop where
  waits      : ¬l.waits
  queueWaits : ¬l.queueWaits
  abort      : ¬l.pending .abort
  finish     : ¬l.pending .finish
  resume     : ¬l.pending .resume
  pause      : l.pending .pause → paused
  probe      : l.probe → paused
  state      : l.state = .error ∨ paused ∧ l.job ∧ (l.state = .pausing ∨ l.state = .paused)

-- The producers that may hand over commands while the job is held.
def HeldProducer (paused : Prop) (producer : Producer) : Prop :=
  producer ≠ .streamer ∧ producer ≠ .policy .finish ∧ producer ≠ .policy .resume ∧
  (producer = .policy .pause → paused)

-- An event that does not continue the job.
def HeldEvent (paused : Prop) (e : Event) : Prop :=
  ∀ producer command slot job, e = .handed producer command slot job → HeldProducer paused producer

def AllHeld (paused : Prop) (recorded : List Event) : Prop :=
  ∀ e ∈ recorded, HeldEvent paused e

theorem AllHeld.of_handedBy {hands : Producer → CString → Prop} {job : Bool}
    (h : HandedBy hands job recorded)
    (hh : ∀ producer command, hands producer command → HeldProducer paused producer) :
    AllHeld paused recorded := by
  rintro _ he producer command slot job rfl
  exact hh _ _ (h _ _ _ _ he).2

theorem Held.not_streams (held : Held paused l) : ¬Streams l := by
  intro hs
  obtain h | ⟨_, _, h | h⟩ := held.state
  case inl     => exact hs.notError h
  case inr.inl => exact hs.notPaused.2 h
  case inr.inr => exact hs.notPaused.1 h

theorem Held.hands {producer : Producer} {command : CString} (held : Held paused l)
    (h : l.Hands producer command) : HeldProducer paused producer := by
  cases h
  case policy kind next =>
    cases kind
    case abort  => exact absurd next.1 held.abort
    case finish => exact absurd next.1 held.finish
    case pause  => exact ⟨nofun, nofun, nofun, fun _ => held.pause next.1⟩
    case resume => exact absurd next.1 held.resume
  case streamer hs => exact absurd hs held.not_streams
  all_goals exact ⟨nofun, nofun, nofun, nofun⟩

theorem Held.mono (held : Held paused l) (hw : l'.waits → l.waits)
    (hq : l'.queueWaits → l.queueWaits) (hk : ∀ k, l'.pending k → l.pending k)
    (hp : l'.probe → l.probe)
    (hs : l'.state = .error ∨ paused ∧ l'.job ∧ (l'.state = .pausing ∨ l'.state = .paused)) :
    Held paused l' where
  waits      := fun h => held.waits (hw h)
  queueWaits := fun h => held.queueWaits (hq h)
  abort      := fun h => held.abort (hk _ h)
  finish     := fun h => held.finish (hk _ h)
  resume     := fun h => held.resume (hk _ h)
  pause      := fun h => held.pause (hk _ h)
  probe      := fun h => held.probe (hp h)
  state      := hs

theorem ManualStep.held (h : ManualStep l l') (held : Held paused l) : Held paused l' := by
  cases h
  case keep => exact held
  case set hj _ _ _ _ he _ _ =>
    obtain h | ⟨_, h, _⟩ := held.state
    case inl => exact absurd h he
    case inr => exact absurd h hj

theorem WaitStep.held (h : WaitStep l l') (held : Held paused l) : Held paused l' := by
  cases h
  case apply hw => exact absurd hw held.waits
  case ended    => exact held.mono nofun id (fun _ => id) id held.state

theorem LineStep.held {text : CString} (h : LineStep text l l') (held : Held paused l) :
    Held paused l' := by
  cases h
  case ready =>
    refine held.mono nofun id (fun _ => id) id ?_
    dsimp only
    split
    case isTrue  => exact .inl rfl
    case isFalse => exact held.state
  case waiting hw _ => exact absurd hw held.waits

theorem QueueStep.held (h : QueueStep l recorded l') (held : Held paused l) : Held paused l' := by
  cases h
  case send waits queueWaits _ _ hq =>
    have hw : ¬waits := fun h => held.queueWaits (hq (.inl h))
    refine held.mono (fun h => absurd h hw) (fun h => hq (.inr h)) (fun _ => id) id ?_
    dsimp only
    rw [if_neg hw]
    exact held.state
  case fail => exact held.mono nofun nofun (fun _ => id) id held.state
  case done => exact held.mono id nofun (fun _ => id) id held.state

theorem PolicyStep.held (h : PolicyStep l recorded l') (held : Held paused l) : Held paused l' := by
  have advanced {kind k} : (l.advance kind).pending k → l.pending k := by simp
  have stopped {kind k} (h : (l.stop kind).pending k) : l.pending k := (pending_of_stop h).2
  cases h
  case send         => exact held.mono id id (fun _ => advanced) id held.state
  case fail hw      => exact held.mono hw id (fun _ => stopped) id (.inl rfl)
  case abortDone h  => exact absurd h held.abort
  case finishDone h _ => exact absurd h held.finish
  case pauseDone hp =>
    refine held.mono id id (fun _ => stopped) id ?_
    obtain h | ⟨_, hj, h | h⟩ := held.state
    case inl     => exact .inl (by simp [h, pausedState])
    case inr.inl => exact .inr ⟨held.pause hp, hj, by simp [h, pausedState]⟩
    case inr.inr => exact .inr ⟨held.pause hp, hj, by simp [h, pausedState]⟩
  case resumeDone h  => exact absurd h held.resume
  case heat next     => exact absurd next.1 held.resume
  case leftover next => exact absurd next.1 held.resume
  case probe         => exact held
  case probeFail     => exact held.mono id id (fun _ => id) (absurd · Bool.false_ne_true) (.inl rfl)
  case probed policy hp =>
    have begun {k} (hk : k ≠ .pause) (h : ¬l.pending k) : ¬(l.begin .pause policy).pending k :=
      fun h' => h (pending_of_begin hk h')
    exact ⟨held.waits, held.queueWaits, begun (by decide) held.abort, begun (by decide) held.finish,
      begun (by decide) held.resume, fun _ => held.probe hp, (absurd · Bool.false_ne_true), held.state⟩
  case unprobed => exact held.mono id id (fun _ => id) (absurd · Bool.false_ne_true) held.state

theorem PollStep.held (h : PollStep l recorded l') (held : Held paused l) :
    (∀ e ∈ recorded, ¬e.replaces) → Held paused l' := by
  intro hn
  cases h
  case silent    => exact held
  case line h    => exact h.held held
  case error     => exact held.mono id id (fun _ => id) id (.inl rfl)
  case abort     => exact absurd rfl (hn _ List.mem_cons_self)
  case dropAbort => exact held.mono id id (fun _ => id) id held.state
  case policy h  => exact h.held held
  case manual h  => exact h.held held
  case probe     => exact held
  case wait h    => exact h.held held

theorem JobStep.held (h : JobStep l recorded l') (held : Held paused l) :
    (∀ e ∈ recorded, ¬e.replaces) → Held paused l' := by
  intro hn
  cases h
  case poll h  => exact h.held held hn
  case queue h => exact h.held held
  case errorExit he _ =>
    refine held.mono nofun id (fun k h => ?_) id (.inl he)
    rw [pending, setPolicy] at h
    dsimp only at h
    split at h
    case isTrue  => contradiction
    case isFalse => exact h
  case streaming hf _ _ => exact absurd hf held.finish
  case stream hs _      => exact absurd hs held.not_streams

theorem GcodeStep.held (h : GcodeStep l recorded l') (held : Held paused l) : Held paused l' := by
  cases h
  case queue h  => exact h.held held
  case wait h   => exact h.held held
  case manual h => exact h.held held

theorem MacroStep.held {mayWait : Prop} (h : MacroStep mayWait l recorded l') (hm : ¬mayWait)
    (held : Held paused l) : (∀ e ∈ recorded, ¬e.replaces) → Held paused l' := by
  intro hn
  cases h
  case poll h      => exact h.held held hn
  case send        => exact held
  case startWait h => exact held.mono (fun hw => absurd (h hw) hm) id (fun _ => id) id held.state
  case fail        => exact held.mono id id (fun _ => id) id held.state

-- A command does not ask for a heater wait.
def NoWait : Service.Op → Prop
  | .command (.gcode lines) _ _  => ¬gcodeMayWait lines
  | .command (.runMacro cmd) _ _ => ¬cmd.mayWait
  | _                            => True

-- A RESUME is refused.
def RefusesResume (l : Lifecycle) : Service.Op → Prop
  | .command .resume _ _ => l.busy ∨ l.state ≠ .paused
  | _                    => True

-- What is known of a run while the job is held.
structure HeldSoFar (paused : Prop) (past : List Event) (l : Lifecycle) : Prop where
  all  : AllHeld paused past
  held : Held paused l

theorem HeldSoFar.until (h : HeldSoFar paused past l) (hr : AllHeld paused recorded)
    (held : (∀ e ∈ recorded, ¬e.replaces) → Held paused l') :
    Until Event.replaces (AllHeld paused <| past ++ ·) (HeldSoFar paused <| past ++ ·)
      recorded l' := by
  have each := Until.each h.all hr held
  exact ⟨each.good, fun hn => ⟨(each.inv hn).1, (each.inv hn).2⟩⟩

theorem HeldSoFar.steps {step : Lifecycle → List Event → Lifecycle → Prop}
    (hstep : ∀ {l recorded l'}, step l recorded l' → Held paused l → AllHeld paused recorded ∧
      ((∀ e ∈ recorded, ¬e.replaces) → Held paused l'))
    (so_far : HeldSoFar paused past l) (h : Steps step l recorded l') :
    Until Event.replaces (AllHeld paused <| past ++ ·) (HeldSoFar paused <| past ++ ·)
      recorded l' := by
  refine .steps (fun so_far step => ?_) HeldSoFar.all so_far h
  have ⟨all, held⟩ := hstep step so_far.held
  exact so_far.until all held

-- The events of producers that are not concerned.
theorem AllHeld.of_other {producer : Producer} {job : Bool}
    (h : HandedBy (fun p _ => p = producer) job recorded) (hp : HeldProducer paused producer) :
    AllHeld paused recorded :=
  .of_handedBy h fun _ _ he => he ▸ hp

theorem AllHeld.of_none (h : HandedBy (fun _ _ => False) false recorded) : AllHeld paused recorded :=
  .of_handedBy h nofun

theorem GcodeStep.allHeld (h : GcodeStep l recorded l') : AllHeld paused recorded := by
  cases h
  case queue h =>
    have handed : HandedBy (fun producer _ => producer = .gcodeQueue) l.job recorded :=
      h.handedBy fun _ _ => rfl
    exact .of_other handed ⟨nofun, nofun, nofun, nofun⟩
  case wait   => exact .of_none .nil
  case manual => exact .of_none .nil

theorem MacroStep.allHeld {mayWait : Prop} (h : MacroStep mayWait l recorded l')
    (held : Held paused l) : AllHeld paused recorded := by
  cases h
  case poll h => exact .of_handedBy h.handedBy fun _ _ => held.hands
  case send h =>
    have handed : HandedBy (fun producer _ => producer = .macroRunner) l.job recorded :=
      h.handedBy rfl
    exact .of_other handed ⟨nofun, nofun, nofun, nofun⟩
  case startWait => exact .of_none .nil
  case fail      => exact .of_none .nil

theorem Exec.held {op : Service.Op} (h : Exec op l recorded l') (ok : NoWait op)
    (refused : l.RefusesResume op) (so_far : HeldSoFar paused past l) :
    Until Event.replaces (AllHeld paused <| past ++ ·) (HeldSoFar paused <| past ++ ·)
      recorded l' := by
  have ⟨hpast, held⟩ := so_far
  have nothing : AllHeld paused [] := .of_none .nil
  cases h
  case keep => exact so_far.until nothing fun _ => held
  case pollMotion h =>
    exact so_far.steps
      (fun step held => ⟨.of_handedBy step.handedBy fun _ _ => held.hands, step.held held⟩) h
  case pollJob h =>
    exact so_far.steps
      (fun step held => ⟨.of_handedBy step.handedBy fun _ _ => held.hands, step.held held⟩) h
  case queueFull =>
    exact so_far.until nothing fun _ => held.mono id nofun (fun _ => id) id held.state
  case gcode l₁ lines _ _ queue waits hw _ manual steps =>
    have cleared : Held paused { l with queue := false, queueWaits := waits } :=
      held.mono id (fun h => absurd (hw h) ok) (fun _ => id) id held.state
    have manual := manual.held cleared
    have queued : Held paused { l₁ with queue := queue } :=
      manual.mono id id (fun _ => id) id manual.state
    exact HeldSoFar.steps (fun step held => ⟨step.allHeld, fun _ => step.held held⟩)
      ⟨hpast, queued⟩ steps
  case runMacro h =>
    exact so_far.steps (fun step held => ⟨step.allHeld held, step.held ok held⟩) h
  case job events stream _ hs _ =>
    refine so_far.until (.of_none ((HandedBy.of_silent hs).append (.cons_other .nil rfl))) fun hn => ?_
    exact absurd rfl (hn (.jobAccepted stream) (List.mem_append_right _ List.mem_cons_self))
  case noFile =>
    exact so_far.until nothing fun _ => held.mono id id (fun _ => id) id held.state
  case noAbort =>
    exact so_far.until nothing fun _ => held.mono id id (fun _ => id) id held.state
  case abort hs =>
    refine so_far.until (.of_none ((HandedBy.of_silent hs).cons_other rfl)) fun hn => ?_
    exact absurd rfl (hn _ List.mem_cons_self)
  case pausing hs =>
    obtain h | ⟨_, _, h | h⟩ := held.state <;> simp [h] at hs
  case paused hj hs =>
    refine so_far.until nothing fun _ => ?_
    obtain h | ⟨hp, _, _⟩ := held.state
    case inl => simp [h] at hs
    case inr =>
      exact ⟨held.waits, held.queueWaits, held.abort, held.finish, held.resume, held.pause,
        fun _ => hp, .inr ⟨hp, hj, .inr rfl⟩⟩
  case pausedIdle hj hs =>
    obtain h | ⟨_, h, _⟩ := held.state
    case inl => simp [h, pausedState] at hs
    case inr => exact absurd h hj
  case resume hb hs _       => exact absurd refused (by simp [RefusesResume, hb, hs])
  case resumePolicy hb hs _ => exact absurd refused (by simp [RefusesResume, hb, hs])

end Held

end Lifecycle

namespace Service

open Lifecycle

variable {s : Service} {before ops : List Op} {env : SerialEnv} {latency : UInt32} {paused : Prop}

theorem run_keeps {p : Lifecycle → Prop} (hp : ∀ {l l'}, JobChange l l' → p l → p l')
    (start : p init.lifecycle) : p (init.run before).lifecycle := by
  have kept {s : Service} {op : Op} {recorded : List Event}
      (hs : p s.lifecycle) (_ : True) (_ : (s.exec op).trace = s.trace ++ recorded)
      (exec : Exec op s.lifecycle recorded (s.exec op).lifecycle) :
      p (s.exec op).lifecycle ∧ ∀ e ∈ recorded, True :=
    ⟨exec.keeps hp hs, fun _ _ => trivial⟩
  exact (run_invariant kept along_true start).1

theorem run_abortWithoutJob : (init.run before).lifecycle.AbortWithoutJob :=
  run_keeps JobChange.abortWithoutJob fun _ => Bool.false_ne_true

theorem run_finishWithJob : (init.run before).lifecycle.FinishWithJob :=
  run_keeps JobChange.finishWithJob nofun

-- What holds of a run that begins when the job is held.
theorem stays_held {ok : Service → Op → Prop}
    (hok : ∀ {s op}, Held paused s.lifecycle → ok s op → NoWait op ∧ s.lifecycle.RefusesResume op)
    (held : Held paused s.lifecycle) (along : Along ok s ops) :
    AllHeld paused (upTo Event.replaces (s.events ops)) ∧
    ((∀ e ∈ s.events ops, ¬e.replaces) → Held paused (s.run ops).lifecycle) := by
  have start : HeldSoFar paused [] s.lifecycle := ⟨fun _ h => absurd h List.not_mem_nil, held⟩
  have ⟨good, inv⟩ := @run_until s ops ok Event.replaces (AllHeld paused) (HeldSoFar paused)
    (fun so_far hop _ exec =>
      exec.held (hok so_far.held hop).1 (hok so_far.held hop).2 so_far)
    HeldSoFar.all [] along start
  exact ⟨good, fun hn => (inv hn).held⟩

theorem held_state (held : Held paused s.lifecycle) :
    s.status.state = .error ∨ paused ∧ (s.status.state = .pausing ∨ s.status.state = .paused) :=
  held.state.imp_right fun ⟨hp, _, hs⟩ => ⟨hp, hs⟩

-- What an accepted PAUSE of an active job does.
theorem pause_accepted (hj : s.jobActive) (h : s.pause.1.rc = 0) :
    ¬s.lifecycle.busy ∧ ∃ state, (state = .pausing ∨ state = .paused) ∧ s.pause.2.lifecycle =
      { s.lifecycle with state := state, probe := true, positionSaved := false } := by
  unfold pause at h ⊢
  split at h
  case isTrue => contradiction
  case isFalse hb =>
    refine ⟨hb, ?_⟩
    rw [if_neg hb]
    split
    case isTrue => exact ⟨.pausing, .inl rfl, rfl⟩
    case isFalse hs =>
      rw [if_neg hs] at h
      obtain hp | ⟨_, rc, hrc, hp⟩ := pause_cases s.status
      case inl =>
        simp only [hp] at h
        contradiction
      case inr =>
        simp only [hp, if_neg (Int.not_lt.mpr hrc)]
        split
        case isTrue     => exact ⟨.paused, .inr rfl, rfl⟩
        case isFalse hn => exact absurd (Bool.and_eq_true_iff.mpr ⟨hj, rfl⟩) hn

-- A failed job is not resumed.
theorem refusesResume_of_failed {op : Op} (held : Held False s.lifecycle) :
    s.lifecycle.RefusesResume op := by
  unfold RefusesResume
  split
  case h_1 =>
    refine .inr ?_
    rw [held.state.resolve_right And.left]
    decide
  case h_2 => trivial

-- A failed job, with nothing pending that could hand over commands or change the state.
structure Failed (s : Service) : Prop where
  job    : s.jobActive
  state  : s.status.state = .error
  wait   : ¬s.heaterWait.active
  queue  : ¬s.unsentWaits
  finish : ¬s.finishCleanup.pending
  pause  : ¬s.pausePolicy.pending
  resume : ¬s.resumePolicy.pending
  probe  : ¬s.pausePositionProbePending

theorem errors_sticky (failed : Failed (init.run before))
    (ok : Along (fun _ => NoWait) (init.run before) ops) :
    (∀ producer command slot job,
      .handed producer command slot job ∈ upTo Event.replaces ((init.run before).events ops) →
      producer ≠ .streamer ∧ producer ≠ .policy .pause ∧ producer ≠ .policy .resume ∧
      producer ≠ .policy .finish) ∧
    ((∀ e ∈ (init.run before).events ops, ¬e.replaces) →
      ((init.run before).run ops).status.state = .error) := by
  have held : Held False (init.run before).lifecycle :=
    ⟨failed.wait, failed.queue, fun h => run_abortWithoutJob h failed.job, failed.finish,
      failed.resume, failed.pause, failed.probe, .inl failed.state⟩
  have ⟨all, stays⟩ := stays_held (fun held noWait => ⟨noWait, refusesResume_of_failed held⟩) held ok
  constructor
  case left =>
    intro producer command slot job hm
    have ⟨streamer, finish, resume, pause⟩ := all _ hm _ _ _ _ rfl
    exact ⟨streamer, pause, resume, finish⟩
  case right =>
    intro hn
    exact (held_state (stays hn)).resolve_right And.left

-- A job that can be paused while nothing is going on that changes its state later.
structure Pausable (s : Service) : Prop where
  job    : s.jobActive
  wait   : ¬s.heaterWait.active
  queue  : ¬s.unsentWaits
  finish : ¬s.finishCleanup.pending

theorem pause_stable (pausable : Pausable (init.run before))
    (accepted : (((init.run before).connect env).handleCommand .pause latency).1.rc = 0)
    (ok : Along (fun s op => NoWait op ∧ s.lifecycle.RefusesResume op)
      ((init.run before).exec (.command .pause env latency)) ops) :
    let s := (init.run before).exec (.command .pause env latency)
    (∀ producer command slot job,
      .handed producer command slot job ∈ upTo Event.replaces (s.events ops) →
      producer ≠ .streamer) ∧
    ((∀ e ∈ s.events ops, ¬e.replaces) →
      (s.run ops).status.state ∉ [.preparing, .printing, .complete]) := by
  have ⟨hb, state, hs, he⟩ := @pause_accepted ((init.run before).connect env) pausable.job accepted
  have ⟨_, hpause, hresume⟩ := idle_of_not_busy hb
  have held : Held True ((init.run before).exec (.command .pause env latency)).lifecycle := by
    rw [show ((init.run before).exec (.command .pause env latency)).lifecycle =
      ((init.run before).connect env).pause.2.lifecycle from rfl, he]
    exact ⟨pausable.wait, pausable.queue, fun h => run_abortWithoutJob h pausable.job,
      pausable.finish, hresume, fun _ => trivial, fun _ => trivial,
      .inr ⟨trivial, pausable.job, hs⟩⟩
  have ⟨all, stays⟩ := stays_held (fun _ => id) held ok
  constructor
  case left =>
    intro producer command slot job hm
    exact (all _ hm _ _ _ _ rfl).1
  case right =>
    intro hn
    obtain h | ⟨_, h | h⟩ := held_state (stays hn) <;> simp [h]

-- A job without heater targets, and one that waits for the nozzle.
def coldJob : List Op :=
  [.openMotion true,
   .command (.job { file := "a.gcode", jobFile := some { reads := [], text := [] } }) {} 0]

def heatedJob : List Op :=
  [.openMotion true,
   .command (.job {
     file       := "a.gcode"
     headTarget := .ofNat 200
     jobFile    := some { reads := [], text := [] } }) {} 0]

theorem coldJob_pause_stable :
    Pausable (init.run coldJob) ∧
    (((init.run coldJob).connect {}).handleCommand .pause 0).1.rc = 0 ∧
    (((init.run coldJob).exec (.command .pause {} 0)).run
      [.pollMotion (.ofLines ["ok"])]).status.state ∉ [.preparing, .printing, .complete] := by
  have pausable : Pausable (init.run coldJob) := by
    constructor <;> decide +kernel
  have accepted : (((init.run coldJob).connect {}).handleCommand .pause 0).1.rc = 0 := by
    decide +kernel
  have ok : Along (fun s op => NoWait op ∧ s.lifecycle.RefusesResume op)
      ((init.run coldJob).exec (.command .pause {} 0)) [.pollMotion (.ofLines ["ok"])] :=
    ⟨⟨trivial, trivial⟩, trivial⟩
  exact ⟨pausable, accepted, (pause_stable pausable accepted ok).2 (by decide +kernel)⟩

-- A job that is paused while it is heated is preparing again after the next line.
theorem heatedJob_not_stable : ¬∀ (before ops : List Op) (env : SerialEnv) (latency : UInt32),
    (init.run before).jobActive →
    (((init.run before).connect env).handleCommand .pause latency).1.rc = 0 →
    Along (fun s op => s.lifecycle.RefusesResume op)
      ((init.run before).exec (.command .pause env latency)) ops →
    let s := (init.run before).exec (.command .pause env latency)
    (∀ e ∈ s.events ops, ¬e.replaces ∧ ¬e.isFault) →
    (s.run ops).status.state ∉ [.preparing, .printing, .complete] := by
  intro h
  have stable := h heatedJob [.pollMotion (.ofLines ["ok"])] {} 0 (by decide +kernel)
    (by decide +kernel) ⟨trivial, trivial⟩ (by decide +kernel)
  have preparing : (((init.run heatedJob).exec (.command .pause {} 0)).run
      [.pollMotion (.ofLines ["ok"])]).status.state = .preparing := by decide +kernel
  simp [preparing] at stable

-- A job fails on a damaged response.
def failedJob : List Op :=
  coldJob ++ [.pollMotion (.ofLines ["o000000"])]

theorem failedJob_sticky :
    Failed (init.run failedJob) ∧
    ((init.run failedJob).run [.pollMotion {}]).status.state = .error := by
  have failed : Failed (init.run failedJob) := by
    constructor <;> decide +kernel
  have ok : Along (fun _ => NoWait) (init.run failedJob) [.pollMotion {}] := ⟨trivial, trivial⟩
  exact ⟨failed, (errors_sticky failed ok).2 (by decide +kernel)⟩

-- A fault during the heating of a job is overwritten by the next line, and the job goes on.
def faultyJob : List Op :=
  heatedJob ++ [.pollMotion (.ofLines ["Error:Heating failed"])]

theorem faultyJob_not_sticky : ¬∀ before ops : List Op,
    (init.run before).jobActive → (init.run before).status.state = .error →
    (∀ producer command slot job,
      .handed producer command slot job ∈ upTo Event.replaces ((init.run before).events ops) →
      producer ≠ .streamer ∧ producer ≠ .policy .pause ∧ producer ≠ .policy .resume ∧
      producer ≠ .policy .finish) ∧
    ((∀ e ∈ (init.run before).events ops, ¬e.replaces) →
      ((init.run before).run ops).status.state ∉ [.preparing, .printing, .paused, .complete]) := by
  intro h
  have sticky := h faultyJob [.pollMotion (.ofLines ["ok"]), .pollJob {} {}]
    (by decide +kernel) (by decide +kernel)
  have handed := (sticky.1 .streamer "G28" 3 true (by decide +kernel)).1
  contradiction

end Service
end Deneb
