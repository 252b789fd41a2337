import DenebModel.Execution.Theorems.Producers

namespace Deneb.Lifecycle

open CString Labelled

variable {l l' : Lifecycle} {kind k : PolicyKind} {recorded : List Event}

-- The policies are kept apart: at most one part of a pause or resume is going on, and neither that nor
-- an abort goes on during the finish cleanup.
structure Apart (l : Lifecycle) : Prop where
  probe_pause  : l.probe → ¬l.pending .pause
  probe_resume : l.probe → ¬l.pending .resume
  pause_resume : l.pending .pause → ¬l.pending .resume
  finish_job   : l.pending .finish → l.job
  finish_busy  : l.pending .finish → ¬l.busy
  finish_state : l.pending .finish → l.state ≠ .paused ∧ l.state ≠ .pausing
  abort_job    : l.pending .abort → ¬l.job

-- A step that begins nothing and does not end the job.
theorem Apart.mono (apart : Apart l) (hp : l'.probe → l.probe)
    (hk : ∀ k, l'.pending k → l.pending k) (hj : l'.job = l.job)
    (hs : l'.pending .finish → l'.state ≠ .paused ∧ l'.state ≠ .pausing) : Apart l' := by
  have busy : l'.busy → l.busy := by
    simp only [Lifecycle.busy, Bool.or_eq_true]
    exact Or.imp (Or.imp hp (hk _)) (hk _)
  constructor
  case probe_pause  => exact fun h h' => apart.probe_pause (hp h) (hk _ h')
  case probe_resume => exact fun h h' => apart.probe_resume (hp h) (hk _ h')
  case pause_resume => exact fun h h' => apart.pause_resume (hk _ h) (hk _ h')
  case finish_job   => exact fun h => hj ▸ apart.finish_job (hk _ h)
  case finish_busy  => exact fun h h' => apart.finish_busy (hk _ h) (busy h')
  case finish_state => exact hs
  case abort_job    => exact fun h => hj ▸ apart.abort_job (hk _ h)

-- The job has ended and nothing of it is left.
theorem Apart.of_ended (hj : ¬l.job) (hb : ¬l.busy) (hf : ¬l.pending .finish) : Apart l := by
  have ⟨hprobe, hpause, hresume⟩ := idle_of_not_busy hb
  exact ⟨fun h => absurd h hprobe, fun h => absurd h hprobe, fun h => absurd h hpause,
    fun h => absurd h hf, fun h => absurd h hf, fun h => absurd h hf, fun _ => hj⟩

theorem Apart.not_finish (apart : Apart l) (h : l.busy) : ¬l.pending .finish :=
  fun hf => apart.finish_busy hf h

theorem ManualStep.apart (h : ManualStep l l') (apart : Apart l) : Apart l' := by
  cases h
  case keep => exact apart
  case set hf _ _ _ _ _ =>
    exact apart.mono id (fun _ => id) rfl fun h => absurd h hf

theorem WaitStep.apart (h : WaitStep l l') (apart : Apart l) : Apart l' := by
  cases h
  case apply => exact apart.mono id (fun _ => id) rfl fun _ => by simp
  case ended => exact apart.mono id (fun _ => id) rfl apart.finish_state

theorem LineStep.apart {text : CString} (h : LineStep text l l') (apart : Apart l) : Apart l' := by
  cases h
  case ready =>
    refine apart.mono id (fun _ => id) rfl fun h => ?_
    have := apart.finish_state h
    dsimp only
    split
    case isTrue  => simp
    case isFalse => exact this
  case waiting => exact apart.mono id (fun _ => id) rfl fun _ => by simp

theorem QueueStep.apart (h : QueueStep l recorded l') (apart : Apart l) : Apart l' := by
  cases h
  case send =>
    refine apart.mono id (fun _ => id) rfl fun h => ?_
    have := apart.finish_state h
    dsimp only
    split
    case isTrue  => simp
    case isFalse => exact this
  case fail => exact apart.mono id (fun _ => id) rfl apart.finish_state
  case done => exact apart.mono id (fun _ => id) rfl apart.finish_state

theorem PolicyStep.apart (h : PolicyStep l recorded l') (apart : Apart l) : Apart l' := by
  have advanced {kind k} : (l.advance kind).pending k → l.pending k := by simp
  have stopped {kind k} (h : (l.stop kind).pending k) : l.pending k := (pending_of_stop h).2
  cases h
  case send kind slot _ =>
    exact apart.mono id (fun _ => advanced) rfl fun h => apart.finish_state (advanced h)
  case fail => exact apart.mono id (fun _ => stopped) rfl fun _ => by simp
  case abortDone => exact apart.mono id (fun _ => stopped) rfl fun _ => by simp
  case finishDone _ hf _ =>
    have hb := apart.finish_busy hf
    refine .of_ended Bool.false_ne_true ?_ (fun h => (pending_of_stop h).1 rfl)
    simpa [busy, pending, stop, setPolicy] using hb
  case pauseDone hp =>
    refine apart.mono id (fun _ => stopped) rfl fun h => ?_
    exact absurd (stopped h) (apart.not_finish (busy_of_pause hp))
  case resumeDone => exact apart.mono id (fun _ => stopped) rfl fun _ => by simp
  case heat => exact apart.mono id (fun _ => advanced) rfl fun _ => by simp
  case leftover =>
    exact apart.mono id (fun _ => advanced) rfl fun h => apart.finish_state (advanced h)
  case probe => exact apart
  case probeFail => exact apart.mono (absurd · Bool.false_ne_true) (fun _ => id) rfl fun _ => by simp
  case probed policy hp =>
    have hf := apart.not_finish (busy_of_probe hp)
    constructor
    case probe_pause | probe_resume => exact (absurd · Bool.false_ne_true)
    case pause_resume => exact fun _ h => apart.probe_resume hp (pending_of_begin (by decide) h)
    case finish_job | finish_busy | finish_state =>
      exact fun h => absurd (pending_of_begin (by decide) h) hf
    case abort_job => exact fun h => apart.abort_job (pending_of_begin (by decide) h)
  case unprobed => exact apart.mono (absurd · Bool.false_ne_true) (fun _ => id) rfl apart.finish_state

-- The job ends while nothing of it is going on.
theorem Apart.exit (hb : ¬l.busy) (hj : l'.job = false) (hp : l'.probe = l.probe)
    (hk : ∀ k, l'.pending k = if k = .finish then false else l.pending k) : Apart l' := by
  refine .of_ended (by simp [hj]) ?_ (by simp [hk])
  simpa [busy, hp, hk] using hb

theorem StreamStep.apart (hs : Streams l) (h : StreamStep l recorded l') (apart : Apart l) :
    Apart l' := by
  cases h
  case prepare     => exact apart
  case prepareFail => exact apart.mono id (fun _ => id) rfl fun _ => by simp
  case stage       => exact apart.mono id (fun _ => id) rfl apart.finish_state
  case readFail    => exact .exit hs.notBusy rfl rfl fun _ => pending_setPolicy
  case finish =>
    have ⟨hprobe, hpause, hresume⟩ := idle_of_not_busy hs.notBusy
    constructor
    case probe_pause | probe_resume => exact fun h => absurd h hprobe
    case pause_resume => exact fun h => absurd (pending_of_begin (by decide) h) hpause
    case finish_job   => exact fun _ => hs.active
    case finish_busy  =>
      exact fun _ => not_busy hprobe (fun h => hpause (pending_of_begin (by decide) h))
        fun h => hresume (pending_of_begin (by decide) h)
    case finish_state => simp
    case abort_job    => exact fun h => apart.abort_job (pending_of_begin (by decide) h)
  case stream waits =>
    refine apart.mono id (fun _ => id) rfl fun _ => ?_
    cases waits <;> simp
  case streamFail => exact .exit hs.notBusy rfl rfl fun _ => pending_setPolicy

theorem aborted_apart {pending : Bool} : Apart (l.aborted pending) := by
  refine .of_ended Bool.false_ne_true ?_ ?_
  case refine_1 => simp [busy]; rfl
  case refine_2 => simp

theorem PollStep.apart (h : PollStep l recorded l') (apart : Apart l) : Apart l' := by
  cases h
  case silent             => exact apart
  case line h             => exact h.apart apart
  case error              => exact apart.mono id (fun _ => id) rfl fun _ => by simp
  case abort              => exact aborted_apart
  case dropAbort          => exact apart.mono id (fun _ => id) rfl apart.finish_state
  case policy h           => exact h.apart apart
  case manual h           => exact h.apart apart
  case probe              => exact apart
  case wait h             => exact h.apart apart

theorem JobStep.apart (h : JobStep l recorded l') (apart : Apart l) : Apart l' := by
  cases h
  case poll h             => exact h.apart apart
  case queue h            => exact h.apart apart
  case errorExit hb _ _ _ => exact .exit hb rfl rfl fun _ => pending_setPolicy
  case streaming          => exact apart.mono id (fun _ => id) rfl fun _ => by simp
  case stream hs h        => exact h.apart hs apart

theorem GcodeStep.apart (h : GcodeStep l recorded l') (apart : Apart l) : Apart l' := by
  cases h
  case queue h  => exact h.apart apart
  case wait h   => exact h.apart apart
  case manual h => exact h.apart apart

theorem MacroStep.apart {mayWait : Prop} (h : MacroStep mayWait l recorded l') (apart : Apart l) :
    Apart l' := by
  cases h
  case poll h    => exact h.apart apart
  case send      => exact apart
  case startWait => exact apart.mono id (fun _ => id) rfl apart.finish_state
  case fail      => exact apart.mono id (fun _ => id) rfl apart.finish_state

theorem Apart.queue (apart : Apart l) {queue : Bool} : Apart { l with queue := queue } :=
  apart.mono id (fun _ => id) rfl apart.finish_state

theorem started_apart {waits : Bool} : Apart (l.started waits) := by
  have idle k : ¬(l.started waits).pending k := by simp
  constructor
  case probe_pause | probe_resume => exact nofun
  case pause_resume => exact fun h => absurd h (idle _)
  case finish_job | finish_busy | finish_state => exact fun h => absurd h (idle _)
  case abort_job => exact fun h => absurd h (idle _)

-- A pause or a resume of an active job begins.
theorem Apart.probe (apart : Apart l) (hb : ¬l.busy) (hf : ¬l.pending .finish)
    {state : PrintState} {positionSaved : Bool} :
    Apart { l with state := state, probe := true, positionSaved := positionSaved } := by
  have ⟨_, hpause, hresume⟩ := idle_of_not_busy hb
  constructor
  case probe_pause  => exact fun _ => hpause
  case probe_resume => exact fun _ => hresume
  case pause_resume => exact fun h => absurd h hpause
  case finish_job | finish_busy | finish_state => exact fun h => absurd h hf
  case abort_job => exact fun h => apart.abort_job h

theorem Apart.resume (apart : Apart l) (hb : ¬l.busy) (hf : ¬l.pending .finish)
    {state : PrintState} {policy : MotionPolicy} :
    Apart { l.begin .resume policy with state := state } := by
  have ⟨hprobe, hpause, _⟩ := idle_of_not_busy hb
  constructor
  case probe_pause | probe_resume => exact fun h => absurd h hprobe
  case pause_resume => exact fun h => absurd (pending_of_begin (by decide) h) hpause
  case finish_job | finish_busy | finish_state =>
    exact fun h => absurd (pending_of_begin (by decide) h) hf
  case abort_job => exact fun h => apart.abort_job (pending_of_begin (by decide) h)

-- A PAUSE does not come while the finish cleanup is going on.
def PauseBeforeFinish (l : Lifecycle) : Service.Op → Prop
  | .command .pause _ _ => l.pending .finish → l.state ≠ .preparing ∧ l.state ≠ .printing
  | _                   => True

theorem Exec.apart {op : Service.Op} (h : Exec op l recorded l') (ok : l.PauseBeforeFinish op)
    (apart : Apart l) : Apart l' := by
  cases h
  case keep         => exact apart
  case pollMotion h => exact h.keeps PollStep.apart apart
  case pollJob h    => exact h.keeps JobStep.apart apart
  case queueFull    => exact apart.mono id (fun _ => id) rfl apart.finish_state
  case gcode manual steps =>
    have queued := manual.apart (apart.mono id (fun _ => id) rfl apart.finish_state)
    exact steps.keeps GcodeStep.apart queued.queue
  case runMacro h   => exact h.keeps MacroStep.apart apart
  case job          => exact started_apart
  case noFile       => exact apart.mono id (fun _ => id) rfl apart.finish_state
  case noAbort      => exact apart.mono id (fun _ => id) rfl apart.finish_state
  case abort        => exact aborted_apart
  case pausing hb _ hs =>
    refine apart.probe hb fun hf => ?_
    have := ok hf
    rcases hs with hs | hs
    case inl => exact this.1 hs
    case inr => exact this.2 hs
  case paused hb _ hs =>
    refine apart.probe hb fun hf => ?_
    have := apart.finish_state hf
    rcases hs with hs | hs
    case inl => exact this.2 hs
    case inr => exact this.1 hs
  case pausedIdle hj _ =>
    exact apart.mono id (fun _ => id) rfl fun hf => absurd (apart.finish_job hf) hj
  case resume hs _ =>
    exact apart.mono id (fun _ => id) rfl fun hf => absurd hs (apart.finish_state hf).1
  case resumePolicy hb hs _ => exact apart.resume hb fun hf => (apart.finish_state hf).1 hs

end Deneb.Lifecycle
