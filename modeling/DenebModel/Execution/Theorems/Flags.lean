import DenebModel.Execution.Theorems.Apart

namespace Deneb

open CString BinaryFloat Labelled

namespace Lifecycle

variable {l l' : Lifecycle} {recorded : List Event}

-- A pause or resume is that of an active job.
structure Flags (l : Lifecycle) : Prop extends Apart l where
  busy_job : l.busy → l.job

-- A command of a pause or resume policy that was handed over without an active job.
def WithoutJob (e : Event) : Prop :=
  ∃ kind command slot, (kind = .pause ∨ kind = .resume) ∧
    e = .handed (.policy kind) command slot false

-- What an execution has to establish.
def FlagsAfter (recorded : List Event) (l : Lifecycle) : Prop :=
  Flags l ∧ ∀ e ∈ recorded, ¬WithoutJob e

theorem Flags.handed (flags : Flags l) (h : HandedBy l.Hands l.job recorded) :
    ∀ e ∈ recorded, ¬WithoutJob e := by
  rintro e he ⟨kind, command, slot, hk, rfl⟩
  have ⟨hj, hands⟩ := h _ _ _ _ he
  cases hands
  case policy next =>
    have hb : l.busy := by
      rcases hk with rfl | rfl
      case inl => exact busy_of_pause next.1
      case inr => exact busy_of_resume next.1
    rw [flags.busy_job hb] at hj
    contradiction

-- No part of a pause or resume begins, and the job goes on.
theorem Flags.mono (flags : Flags l) (apart : Apart l') (hb : l'.busy → l.busy)
    (hj : l'.job = l.job) : Flags l' :=
  ⟨apart, fun h => hj ▸ flags.busy_job (hb h)⟩

theorem PolicyStep.flags (h : PolicyStep l recorded l') (flags : Flags l) : Flags l' := by
  have apart := h.apart flags.toApart
  have advanced {kind} : (l.advance kind).busy → l.busy := by
    simp only [busy, pending_advance]
    exact id
  have stopped {kind} : (l.stop kind).busy → l.busy := by
    simp only [busy, Bool.or_eq_true]
    exact Or.imp (Or.imp id fun h => (pending_of_stop h).2) fun h => (pending_of_stop h).2
  cases h
  case send           => exact flags.mono apart advanced rfl
  case fail           => exact flags.mono apart stopped rfl
  case abortDone      => exact flags.mono apart stopped rfl
  case finishDone hf _ =>
    exact ⟨apart, fun h => absurd (stopped h) (flags.finish_busy hf)⟩
  case pauseDone      => exact flags.mono apart stopped rfl
  case resumeDone     => exact flags.mono apart stopped rfl
  case heat           => exact flags.mono apart advanced rfl
  case leftover       => exact flags.mono apart advanced rfl
  case probe          => exact flags
  case probeFail hp _ => exact flags.mono apart (fun _ => busy_of_probe hp) rfl
  case probed hp      => exact flags.mono apart (fun _ => busy_of_probe hp) rfl
  case unprobed hp    => exact flags.mono apart (fun _ => busy_of_probe hp) rfl

-- The finish cleanup is not a part of a pause or resume.
theorem busy_setPolicy_finish {run : PolicyRun} : (l.setPolicy .finish run).busy = l.busy := by
  simp [busy, setPolicy, pending]

theorem StreamStep.flags (hs : Streams l) (h : StreamStep l recorded l') (flags : Flags l) :
    Flags l' := by
  have apart := h.apart hs flags.toApart
  have idle (run) : ¬(l.setPolicy .finish run).busy := by
    rw [busy_setPolicy_finish]
    exact hs.notBusy
  have ended := idle { l.policy .finish with pending := false }
  cases h
  case prepare     => exact flags
  case prepareFail => exact flags.mono apart id rfl
  case stage       => exact flags.mono apart id rfl
  case readFail    => exact ⟨apart, fun h => absurd h ended⟩
  case finish      => exact ⟨apart, fun h => absurd h (idle { pending := true, policy := .finish })⟩
  case stream      => exact flags.mono apart id rfl
  case streamFail  => exact ⟨apart, fun h => absurd h ended⟩

theorem PollStep.flags (h : PollStep l recorded l') (flags : Flags l) : Flags l' := by
  have apart := h.apart flags.toApart
  cases h
  case silent      => exact flags
  case line h      => cases h <;> exact flags.mono apart id rfl
  case error       => exact flags.mono apart id rfl
  case abort       => exact ⟨apart, by simp [busy, aborted, pending]⟩
  case dropAbort   => exact flags.mono apart id rfl
  case policy h    => exact h.flags flags
  case manual h    => cases h <;> exact flags.mono apart id rfl
  case probe       => exact flags
  case wait h      => cases h <;> exact flags.mono apart id rfl

theorem JobStep.flags (h : JobStep l recorded l') (flags : Flags l) : Flags l' := by
  have apart := h.apart flags.toApart
  cases h
  case poll h      => exact h.flags flags
  case queue h     => cases h <;> exact flags.mono apart id rfl
  case errorExit hb _ _ _ =>
    have ended : ¬(l.setPolicy .finish { l.policy .finish with pending := false }).busy := by
      rw [busy_setPolicy_finish]
      exact hb
    exact ⟨apart, fun h => absurd h ended⟩
  case streaming   => exact flags.mono apart id rfl
  case stream hs h => exact h.flags hs flags

theorem PollStep.flagsAfter (h : PollStep l recorded l') (flags : Flags l) : FlagsAfter recorded l' :=
  ⟨h.flags flags, flags.handed h.handedBy⟩

theorem JobStep.flagsAfter (h : JobStep l recorded l') (flags : Flags l) : FlagsAfter recorded l' :=
  ⟨h.flags flags, flags.handed h.handedBy⟩

theorem not_withoutJob {hands : Producer → CString → Prop} {job : Bool}
    (h : HandedBy hands job recorded) (hh : ∀ kind command, ¬hands (.policy kind) command) :
    ∀ e ∈ recorded, ¬WithoutJob e := by
  rintro e he ⟨kind, command, slot, _, rfl⟩
  exact hh _ _ (h _ _ _ _ he).2

theorem GcodeStep.flagsAfter (h : GcodeStep l recorded l') (flags : Flags l) :
    FlagsAfter recorded l' := by
  have apart := h.apart flags.toApart
  cases h
  case queue h =>
    have handed : HandedBy (fun producer _ => producer = .gcodeQueue) l.job recorded :=
      h.handedBy fun _ _ => rfl
    refine ⟨?_, not_withoutJob handed (by simp)⟩
    cases h <;> exact flags.mono apart id rfl
  case wait h   => exact ⟨by cases h <;> exact flags.mono apart id rfl, by simp⟩
  case manual h => exact ⟨by cases h <;> exact flags.mono apart id rfl, by simp⟩

theorem MacroStep.flagsAfter {mayWait : Prop} (h : MacroStep mayWait l recorded l')
    (flags : Flags l) : FlagsAfter recorded l' := by
  have apart := h.apart flags.toApart
  cases h
  case poll h => exact h.flagsAfter flags
  case send h =>
    have handed : HandedBy (fun producer _ => producer = .macroRunner) l.job recorded :=
      h.handedBy rfl
    exact ⟨flags, not_withoutJob handed (by simp)⟩
  case startWait => exact ⟨flags.mono apart id rfl, by simp⟩
  case fail      => exact ⟨flags.mono apart id rfl, by simp⟩

theorem FlagsAfter.nil (flags : Flags l) : FlagsAfter [] l :=
  ⟨flags, fun _ h => absurd h List.not_mem_nil⟩

theorem FlagsAfter.steps {step : Lifecycle → List Event → Lifecycle → Prop}
    (hstep : ∀ {l recorded l'}, step l recorded l' → Flags l → FlagsAfter recorded l')
    (flags : Flags l) (h : Steps step l recorded l') : FlagsAfter recorded l' :=
  h.invariant (fun flags h => hstep h flags) flags

-- A PAUSE does not come while the finish cleanup is going on, and a RESUME of a saved position comes
-- for an active job only.
def PauseForJob (l : Lifecycle) (op : Service.Op) : Prop :=
  l.PauseBeforeFinish op ∧
    match op with
    | .command .resume _ _ => l.positionSaved → l.state = .paused → l.job
    | _                    => True

theorem Exec.flagsAfter {op : Service.Op} (h : Exec op l recorded l') (ok : l.PauseForJob op)
    (flags : Flags l) : FlagsAfter recorded l' := by
  have apart := h.apart ok.1 flags.toApart
  cases h
  case keep         => exact .nil flags
  case pollMotion h => exact .steps PollStep.flagsAfter flags h
  case pollJob h    => exact .steps JobStep.flagsAfter flags h
  case queueFull    => exact .nil (flags.mono apart id rfl)
  case gcode manual steps =>
    have queued := manual.apart (flags.toApart.mono id (fun _ => id) rfl flags.finish_state)
    refine .steps GcodeStep.flagsAfter ⟨queued.queue, ?_⟩ steps
    cases manual <;> exact flags.busy_job
  case runMacro h => exact .steps MacroStep.flagsAfter flags h
  case job events stream waits h _ =>
    have handed : HandedBy (fun _ _ => False) l.job (events ++ [.jobAccepted stream]) :=
      (HandedBy.of_silent h).append (HandedBy.nil.cons_other rfl)
    exact ⟨⟨apart, fun _ => rfl⟩, not_withoutJob handed (by simp)⟩
  case noFile  => exact .nil (flags.mono apart id rfl)
  case noAbort => exact .nil (flags.mono apart id rfl)
  case abort events _ h =>
    have handed : HandedBy (fun _ _ => False) l.job (.aborted :: events) :=
      (HandedBy.of_silent h).cons_other rfl
    exact ⟨⟨apart, by simp [busy, aborted, pending]⟩, not_withoutJob handed (by simp)⟩
  case pausing hj _           => exact .nil ⟨apart, fun _ => hj⟩
  case paused hj _            => exact .nil ⟨apart, fun _ => hj⟩
  case pausedIdle             => exact .nil (flags.mono apart id rfl)
  case resume                 => exact .nil (flags.mono apart id rfl)
  case resumePolicy hs hp     => exact .nil ⟨apart, fun _ => ok.2 hp hs⟩

end Lifecycle

namespace Service

-- The flags of the service and its record fit together.
structure FlagsConsistent (s : Service) : Prop where
  probe_pause  : ¬(s.pausePositionProbePending ∧ s.pausePolicy.pending)
  probe_resume : ¬(s.pausePositionProbePending ∧ s.resumePolicy.pending)
  pause_resume : ¬(s.pausePolicy.pending ∧ s.resumePolicy.pending)
  probe_job    : s.pausePositionProbePending → s.jobActive
  pause_job    : s.pausePolicy.pending → s.jobActive
  resume_job   : s.resumePolicy.pending → s.jobActive
  finish_job   : s.finishCleanup.pending → s.jobActive
  abort_job    : s.abortCleanup.pending → ¬s.jobActive ∧ ¬s.finishCleanup.pending
  handed       : ∀ kind command slot, kind = .pause ∨ kind = .resume →
    .handed (.policy kind) command slot false ∉ s.trace

theorem init_apart : init.lifecycle.Apart := by
  constructor <;> exact nofun

theorem init_flags : init.lifecycle.Flags :=
  ⟨init_apart, nofun⟩

theorem flags_consistent {ops : List Op} (h : Along (fun s => s.lifecycle.PauseForJob) init ops) :
    FlagsConsistent (init.run ops) := by
  have ⟨flags, handed⟩ := run_invariant
    (fun flags ok _ exec => exec.flagsAfter ok flags) h init_flags
  constructor
  case probe_pause  => exact fun h => flags.probe_pause h.1 h.2
  case probe_resume => exact fun h => flags.probe_resume h.1 h.2
  case pause_resume => exact fun h => flags.pause_resume h.1 h.2
  case probe_job    => exact fun h => flags.busy_job (Lifecycle.busy_of_probe h)
  case pause_job    => exact fun h => flags.busy_job (Lifecycle.busy_of_pause h)
  case resume_job   => exact fun h => flags.busy_job (Lifecycle.busy_of_resume h)
  case finish_job   => exact flags.finish_job
  case abort_job =>
    exact fun h => ⟨flags.abort_job h, fun hf => flags.abort_job h (flags.finish_job hf)⟩
  case handed =>
    intro kind command slot hk hm
    rw [run_trace] at hm
    exact handed _ hm ⟨kind, command, slot, hk, rfl⟩

-- A job that is paused right after it was accepted.
def pausedJob : List Op :=
  [.command (.job { file := "a.gcode", jobFile := some { reads := [], text := [] } }) {} 0,
   .command .pause {} 0]

theorem pausedJob_flags_consistent :
    (init.run pausedJob).pausePositionProbePending ∧ FlagsConsistent (init.run pausedJob) :=
  ⟨by decide +kernel, flags_consistent ⟨⟨trivial, trivial⟩,
    ⟨fun h => absurd h (by decide +kernel), trivial⟩, trivial⟩⟩

-- A printer that is only heated is paused with a known position, and resumed.
def manualResume : List Op :=
  [.openMotion true,
   .command (.gcode ["M104 S200"]) {} 0,
   .pollMotion (.ofLines ["ok", "X:1.0 Y:1.0 Z:1.0 E:0.0"]),
   .command .pause {} 0,
   .command .resume {} 0,
   .pollMotion (.ofLines ["ok", "ok", "ok"])]

-- The resume policy is begun, and its commands are handed over, without an active job.
theorem manualResume_not_consistent : ¬∀ ops, FlagsConsistent (init.run ops) := by
  intro h
  have pending : (init.run manualResume).resumePolicy.pending := by decide +kernel
  have idle : (init.run manualResume).jobActive = false := by decide +kernel
  rw [(h manualResume).resume_job pending] at idle
  contradiction

end Service
end Deneb
