import DenebModel.Execution.Theorems.Exclusive
import DenebModel.Execution.Theorems.Held

namespace Deneb

open CString Labelled

-- The commands of the abort cleanup that are handed over in a record.
def cleanupCommands (recorded : List Event) : List CString :=
  recorded.filterMap (Event.policyCommand .abort)

namespace Lifecycle

variable {l l' : Lifecycle} {recorded past : List Event}

section Record

@[simp]
theorem cleanupCommands_append :
    cleanupCommands (past ++ recorded) = cleanupCommands past ++ cleanupCommands recorded :=
  List.filterMap_append

theorem cleanupCommands_silent (h : ∀ e ∈ recorded, e.isSilent) : cleanupCommands recorded = [] := by
  refine List.filterMap_eq_nil_iff.mpr fun e he => ?_
  have := h e he
  cases e
  case handed => contradiction
  all_goals rfl

end Record

section Change

-- What a step does to the abort cleanup: nothing but that it may end, it takes the next command, or it
-- begins a cleanup after the job has failed.
inductive CleanupChange (l : Lifecycle) : List Event → Lifecycle → Prop
  | other :
    cleanupCommands events = [] →
    (l₁.pending .abort → l.pending .abort ∧ l₁.policy .abort = l.policy .abort) →
    (l₁.job → l.job) → (l₁.abortRequested → l.abortRequested) → CleanupChange l events l₁
  | send (command) :
    l.Next .abort command → cleanupCommands events = [command] →
    (l₁.pending .abort → l₁.policy .abort = (l.advance .abort).policy .abort) →
    (l₁.job → l.job) → (l₁.abortRequested → l.abortRequested) → CleanupChange l events l₁
  | begins (pending) :
    l.job ∨ l.abortRequested → cleanupCommands events = [] →
    CleanupChange l events (l.aborted pending)

theorem CleanupChange.notRequested (h : CleanupChange l recorded l') (hr : ¬l.abortRequested) :
    ¬l'.abortRequested := by
  intro h'
  cases h
  case other requested => exact hr (requested h')
  case send requested  => exact hr (requested h')
  case begins          => contradiction

theorem CleanupChange.same (h : cleanupCommands recorded = []) (hp : l'.policy .abort = l.policy .abort)
    (hj : l'.job → l.job) (hr : l'.abortRequested → l.abortRequested) :
    CleanupChange l recorded l' :=
  .other h (fun h => ⟨by rwa [pending, hp] at h, hp⟩) hj hr

theorem PolicyStep.cleanup (h : PolicyStep l recorded l') : CleanupChange l recorded l' := by
  have stopped {run : PolicyRun} {p : Prop} (hn : ¬run.pending)
      (h : (l.setPolicy .abort run).pending .abort) : p := by
    rw [pending_setPolicy] at h
    exact absurd h hn
  cases h
  case send kind slot next =>
    cases kind
    case abort => exact .send _ next rfl (fun _ => rfl) id id
    all_goals exact .same rfl rfl id id
  case fail next unsent _ =>
    rename_i kind _ _
    cases kind
    case abort =>
      have ended {p : Prop} : (l.stop .abort).pending .abort → p := stopped Bool.false_ne_true
      cases unsent
      case refused => exact .other rfl ended id nofun
      case failed  => exact .send _ next rfl ended id nofun
    all_goals cases unsent <;> exact .same rfl rfl id id
  case abortDone silent _ =>
    have ended {p : Prop} : (l.stop .abort).pending .abort → p := stopped Bool.false_ne_true
    refine .other ?_ ended id nofun
    exact (cleanupCommands_silent silent :)
  case finishDone silent _ _ => exact .same (cleanupCommands_silent silent :) rfl nofun nofun
  case pauseDone           => exact .same rfl rfl id id
  case resumeDone          => exact .same rfl rfl id id
  case heat                => exact .same rfl rfl id id
  case leftover            => exact .same rfl rfl id id
  case probe               => exact .same rfl rfl id id
  case probeFail unsent    => cases unsent <;> exact .same rfl rfl id id
  case probed              => exact .same rfl rfl id id
  case unprobed            => exact .same rfl rfl id id

theorem QueueStep.cleanup (h : QueueStep l recorded l') : CleanupChange l recorded l' := by
  cases h
  case send => exact .same rfl rfl id id
  case fail unsent => cases unsent <;> exact .same rfl rfl id id
  case done => exact .same rfl rfl id id

theorem StreamStep.cleanup (h : StreamStep l recorded l') : CleanupChange l recorded l' := by
  cases h
  case prepare            => exact .same rfl rfl id id
  case prepareFail unsent => cases unsent <;> exact .same rfl rfl id id
  case stage _ silent     => exact .same (cleanupCommands_silent silent) rfl id id
  case readFail silent    => exact .same (cleanupCommands_silent silent) rfl nofun id
  case finish             => exact .same rfl rfl id id
  case stream             => exact .same rfl rfl id id
  case streamFail tail silent unsent =>
    have others : cleanupCommands tail = [] := cleanupCommands_silent silent
    cases unsent
    case refused => exact .same others rfl nofun id
    case failed  => exact .same others rfl nofun id

theorem PollStep.cleanup (h : PollStep l recorded l') : CleanupChange l recorded l' := by
  cases h
  case silent silent => exact .same (cleanupCommands_silent silent) rfl id id
  case line silent h =>
    have others := cleanupCommands_silent silent
    cases h <;> exact .same others rfl id id
  case error            => exact .same rfl rfl id id
  case abort silent h   => exact .begins _ (h.imp_left And.left) (cleanupCommands_silent silent :)
  case dropAbort        => exact .same rfl rfl id nofun
  case policy h         => exact h.cleanup
  case manual h         => cases h <;> exact .same rfl rfl id id
  case probe h =>
    cases h
    case sent          => exact .same rfl rfl id id
    case unsent unsent => cases unsent <;> exact .same rfl rfl id id
  case wait h => cases h <;> exact .same rfl rfl id id

theorem JobStep.cleanup (h : JobStep l recorded l') : CleanupChange l recorded l' := by
  cases h
  case poll h    => exact h.cleanup
  case queue h   => exact h.cleanup
  case errorExit silent =>
    refine .same ?_ rfl nofun nofun
    rw [cleanupCommands_append, cleanupCommands_silent silent, List.append_nil, dropFinish]
    split <;> rfl
  case streaming => exact .same rfl rfl id id
  case stream h  => exact h.cleanup

theorem GcodeStep.cleanup (h : GcodeStep l recorded l') : CleanupChange l recorded l' := by
  cases h
  case queue h  => exact h.cleanup
  case wait h   => cases h <;> exact .same rfl rfl id id
  case manual h => cases h <;> exact .same rfl rfl id id

theorem MacroStep.cleanup {mayWait : Prop} (h : MacroStep mayWait l recorded l') :
    CleanupChange l recorded l' := by
  cases h
  case poll h => exact h.cleanup
  case send h =>
    cases h
    case sent          => exact .same rfl rfl id id
    case unsent unsent => cases unsent <;> exact .same rfl rfl id id
  case startWait => exact .same rfl rfl id id
  case fail      => exact .same rfl rfl id id

end Change

section Cleans

-- The commands of the cleanup were handed over once, in their order. A cleanup that is going on has
-- come as far as its index says, and after it has begun there is no job.
structure Cleans (past : List Event) (l : Lifecycle) : Prop where
  once         : cleanupCommands past <+: MotionPolicy.abort
  going        : l.pending .abort → (l.policy .abort).policy = MotionPolicy.abort ∧
    cleanupCommands past = MotionPolicy.abort.take (l.policy .abort).index
  begun        : cleanupCommands past ≠ [] → ¬l.job
  withoutJob   : AbortWithoutJob l
  notRequested : ¬l.abortRequested

theorem aborted_cleans {pending : Bool} (h : cleanupCommands past = []) :
    Cleans past (l.aborted pending) where
  once         := h ▸ List.nil_prefix
  going        := fun _ => ⟨rfl, h⟩
  begun        := fun _ => Bool.false_ne_true
  withoutJob   := fun _ => Bool.false_ne_true
  notRequested := Bool.false_ne_true

theorem CleanupChange.cleans (h : CleanupChange l recorded l') (cleans : Cleans past l) :
    Cleans (past ++ recorded) l' := by
  have quiet := h.notRequested cleans.notRequested
  cases h
  case other none same job _ =>
    have past_eq : cleanupCommands (past ++ recorded) = cleanupCommands past := by
      rw [cleanupCommands_append, none, List.append_nil]
    constructor
    case once         => rw [past_eq]; exact cleans.once
    case going        => intro hp; rw [past_eq, (same hp).2]; exact cleans.going (same hp).1
    case begun        => rw [past_eq]; exact fun hb hj => cleans.begun hb (job hj)
    case withoutJob   => exact fun hp hj => cleans.withoutJob (same hp).1 (job hj)
    case notRequested => exact quiet
  case send command next sent advanced job _ =>
    have ⟨policy, handed⟩ := cleans.going next.1
    have hc : MotionPolicy.abort[(l.policy .abort).index]? = some command := policy ▸ next.2
    have now : cleanupCommands (past ++ recorded) =
        MotionPolicy.abort.take ((l.policy .abort).index + 1) := by
      rw [cleanupCommands_append, sent, handed, List.take_add_one, hc, Option.toList_some]
    constructor
    case once         => rw [now]; exact List.take_prefix _ _
    case going        => intro hp; rw [advanced hp]; exact ⟨policy, now⟩
    case begun        => exact fun _ hj => cleans.withoutJob next.1 (job hj)
    case withoutJob   => exact fun _ hj => cleans.withoutJob next.1 (job hj)
    case notRequested => exact quiet
  case begins pending job none =>
    have hj : l.job := job.resolve_right cleans.notRequested
    have unbegun : cleanupCommands past = [] := by_contra fun hb => cleans.begun hb hj
    exact aborted_cleans (by rw [cleanupCommands_append, unbegun, none, List.append_nil])

theorem steps_cleans {step : Lifecycle → List Event → Lifecycle → Prop}
    (hstep : ∀ {l recorded l'}, step l recorded l' → CleanupChange l recorded l')
    (h : Steps step l recorded l') (cleans : Cleans past l) : Cleans (past ++ recorded) l' := by
  induction h
  case refl => rwa [List.append_nil]
  case tail step ih =>
    rw [← List.append_assoc]
    exact (hstep step).cleans ih

theorem Exec.notRequested {op : Service.Op} (h : Exec op l recorded l') (hr : ¬l.abortRequested) :
    ¬l'.abortRequested := by
  let p (l : Lifecycle) : Prop := ¬l.abortRequested
  cases h
  case pollMotion h => exact h.keeps (p := p) (fun step => (PollStep.cleanup step).notRequested) hr
  case pollJob h    => exact h.keeps (p := p) (fun step => (JobStep.cleanup step).notRequested) hr
  case gcode manual steps =>
    refine steps.keeps (p := p) (fun step => (GcodeStep.cleanup step).notRequested) ?_
    cases manual <;> exact hr
  case runMacro h => exact h.keeps (p := p) (fun step => (MacroStep.cleanup step).notRequested) hr
  case job        => exact Bool.false_ne_true
  case noAbort    => exact Bool.false_ne_true
  case abort      => exact Bool.false_ne_true
  all_goals exact hr

-- Every call but an ABORT, and but a JOB after the cleanup has begun.
theorem Exec.cleans {op : Service.Op} (h : Exec op l recorded l') (cleans : Cleans past l)
    (hp : cleanupCommands past = [] ∨ l.pending .abort)
    (hop : ∀ env latency, op ≠ .command .abort env latency) : Cleans (past ++ recorded) l' := by
  have changed {recorded l'} (h : CleanupChange l recorded l') : Cleans (past ++ recorded) l' :=
    h.cleans cleans
  cases h
  case keep         => exact changed (.same rfl rfl id id)
  case pollMotion h => exact steps_cleans PollStep.cleanup h cleans
  case pollJob h    => exact steps_cleans JobStep.cleanup h cleans
  case queueFull    => exact changed (.same rfl rfl id id)
  case gcode l₁ _ _ _ queue waits _ _ manual steps =>
    refine steps_cleans GcodeStep.cleanup steps ?_
    have cleared : Cleans (past ++ []) { l with queue := false, queueWaits := waits } :=
      changed (.same rfl rfl id id)
    rw [List.append_nil] at cleared
    have queued : CleanupChange { l with queue := false, queueWaits := waits } []
        { l₁ with queue := queue } := by
      cases manual <;> exact .same rfl rfl id id
    simpa using queued.cleans cleared
  case runMacro h => exact steps_cleans MacroStep.cleanup h cleans
  case job events stream waits silent hb =>
    have unbegun := hp.resolve_right fun hp => hb (jobBusy_of_pending hp)
    have none : cleanupCommands (past ++ (events ++ [.jobAccepted stream])) = [] := by
      rw [cleanupCommands_append, cleanupCommands_append, unbegun, cleanupCommands_silent silent]
      rfl
    have idle : ¬(l.started waits).pending .abort := by simp
    exact ⟨none ▸ List.nil_prefix, fun h => absurd h idle, fun h => absurd none h,
      fun h => absurd h idle, nofun⟩
  case noFile       => exact changed (.same rfl rfl id id)
  case noAbort      => exact absurd rfl (hop _ _)
  case abort        => exact absurd rfl (hop _ _)
  case pausing      => exact changed (.same rfl rfl id id)
  case paused       => exact changed (.same rfl rfl id id)
  case pausedIdle   => exact changed (.same rfl rfl id id)
  case resume       => exact changed (.same rfl rfl id id)
  case resumePolicy => exact changed (.same rfl rfl id id)

end Cleans

end Lifecycle

namespace Service

variable {s : Service} {before ops : List Op} {op : Op} {past recorded : List Event}

-- An ABORT that begins the pending abort cleanup anew after a command of it was handed over.
def RestartsCleanup (s : Service) : Op → Prop
  | .command .abort _ _ =>
    s.abortCleanup.pending ∧ 0 < s.abortCleanup.index ∧ s.abortable ∧ s.serialReady
  | _ => False

open Lifecycle

theorem abort_cleans {env : SerialEnv} {latency : UInt32}
    (ok : ¬s.RestartsCleanup (.command .abort env latency)) (cleans : Cleans past s.lifecycle)
    (hp : cleanupCommands past = [] ∨ s.lifecycle.pending .abort)
    (ht : (s.exec (.command .abort env latency)).trace = s.trace ++ recorded) :
    Cleans (past ++ recorded) (s.exec (.command .abort env latency)).lifecycle := by
  have exec_eq : (s.exec (.command .abort env latency)).lifecycle =
      (s.connect env).abort.2.lifecycle := rfl
  have trace_eq : (s.exec (.command .abort env latency)).trace = (s.connect env).abort.2.trace := rfl
  rw [exec_eq]
  rw [trace_eq] at ht
  unfold abort at ht ⊢
  split at ht
  case isTrue ha =>
    rw [if_pos ha]
    have none : recorded = [] := List.append_right_eq_self.mp (ht.symm.trans rfl)
    rw [none, List.append_nil]
    exact ⟨cleans.once, cleans.going, cleans.begun, cleans.withoutJob, Bool.false_ne_true⟩
  case isFalse ha =>
    rw [if_neg ha]
    have ⟨events, ht', silent⟩ := @trace_startAbort (s.connect env)
    have same : recorded = .aborted :: events := List.append_cancel_left (ht.symm.trans ht')
    have none : cleanupCommands recorded = [] := by
      rw [same]
      exact (cleanupCommands_silent silent :)
    rw [lifecycle_startAbort]
    by_cases begun : cleanupCommands past = []
    case pos => exact aborted_cleans (by rw [cleanupCommands_append, begun, none]; rfl)
    case neg =>
      have pending := hp.resolve_left begun
      have index : 0 < s.abortCleanup.index := by
        refine Nat.pos_of_ne_zero fun hz => begun ?_
        rw [(cleans.going pending).2, show (s.lifecycle.policy .abort).index = 0 from hz, List.take_zero]
      have not_ready : s.serialReady = false :=
        Bool.eq_false_iff.mpr fun hr => ok ⟨pending, index, by rwa [Bool.not_eq_true', Bool.not_eq_false] at ha, hr⟩
      rw [show (s.connect env).serialReady = false from not_ready]
      have past_eq : cleanupCommands (past ++ recorded) = cleanupCommands past := by
        rw [cleanupCommands_append, none, List.append_nil]
      exact ⟨past_eq ▸ cleans.once, nofun, fun _ => Bool.false_ne_true, nofun, Bool.false_ne_true⟩

theorem exec_cleans (ok : ¬s.RestartsCleanup op) (cleans : Cleans past s.lifecycle)
    (hp : cleanupCommands past = [] ∨ s.lifecycle.pending .abort)
    (ht : (s.exec op).trace = s.trace ++ recorded)
    (exec : Exec op s.lifecycle recorded (s.exec op).lifecycle) :
    Cleans (past ++ recorded) (s.exec op).lifecycle := by
  by_cases hop : ∃ env latency, op = .command .abort env latency
  case pos =>
    obtain ⟨env, latency, rfl⟩ := hop
    exact abort_cleans ok cleans hp ht
  case neg => exact exec.cleans cleans hp fun env latency h => hop ⟨env, latency, h⟩

theorem run_not_requested : ¬(init.run before).lifecycle.abortRequested := by
  have kept {s : Service} {op : Op} {recorded : List Event} (hr : ¬s.lifecycle.abortRequested)
      (_ : True) (_ : (s.exec op).trace = s.trace ++ recorded)
      (exec : Exec op s.lifecycle recorded (s.exec op).lifecycle) :
      ¬(s.exec op).lifecycle.abortRequested ∧ ∀ e ∈ recorded, True :=
    ⟨exec.notRequested hr, fun _ _ => trivial⟩
  have start : ¬init.lifecycle.abortRequested := Bool.false_ne_true
  exact (run_invariant (p := fun l => ¬l.abortRequested) kept along_true start).1

theorem run_cleans (ok : Along (fun s op => s.abortCleanup.pending ∧ ¬s.RestartsCleanup op) s ops)
    (cleans : Cleans past s.lifecycle) : Cleans (past ++ s.events ops) (s.run ops).lifecycle := by
  induction ops generalizing s past
  case nil => rwa [events_nil, List.append_nil]
  case cons op ops ih =>
    have ⟨recorded, ht, exec⟩ := @exec_refines s op
    rw [events_cons ht, ← List.append_assoc]
    exact ih ok.2 (exec_cleans ok.1.2 cleans (.inr ok.1.1) ht exec)

-- From the call that begins an abort cleanup, as long as it is pending and no ABORT begins it anew.
theorem cleanup_once (idle : ¬(init.run before).abortCleanup.pending)
    (ok : Along (fun s op => s.abortCleanup.pending ∧ ¬s.RestartsCleanup op)
      ((init.run before).exec op) ops) :
    let handed := cleanupCommands ((init.run before).events (op :: ops))
    handed <+: MotionPolicy.abort ∧ handed.Nodup := by
  have start : Cleans [] (init.run before).lifecycle :=
    ⟨List.nil_prefix, fun hp => absurd hp idle, fun h => absurd rfl h, run_abortWithoutJob,
      run_not_requested⟩
  have ⟨recorded, ht, exec⟩ := @exec_refines (init.run before) op
  have begins : ¬(init.run before).RestartsCleanup op := by
    unfold RestartsCleanup
    split
    case h_1 => exact fun h => idle h.1
    case h_2 => exact id
  have first := exec_cleans begins start (.inl rfl) ht exec
  have cleans := run_cleans ok first
  rw [List.nil_append, ← events_cons ht] at cleans
  exact ⟨cleans.once, cleans.once.sublist.nodup (by decide)⟩

-- An ABORT of a job, and the first commands of its cleanup.
theorem acceptedJob_cleanup_once :
    let handed := cleanupCommands ((init.run coldJob).events
      [.command .abort {} 0, .pollMotion (.ofLines ["ok"]), .pollMotion (.ofLines ["ok"])])
    handed <+: MotionPolicy.abort ∧ handed.Nodup := by
  have idle : ¬(init.run coldJob).abortCleanup.pending := by decide +kernel
  refine cleanup_once idle ⟨⟨by decide +kernel, id⟩, ⟨by decide +kernel, id⟩, trivial⟩

-- A second ABORT during the cleanup hands over its first commands again.
theorem abortedJob_not_once : ¬∀ (before ops : List Op) (op : Op),
    ¬(init.run before).abortCleanup.pending →
    Along (fun s _ => s.abortCleanup.pending) ((init.run before).exec op) ops →
    (cleanupCommands ((init.run before).events (op :: ops))).Nodup := by
  intro h
  have once := h coldJob
    [.pollMotion (.ofLines ["ok"]), .command .abort {} 0, .pollMotion (.ofLines ["ok"])]
    (.command .abort {} 0) (by decide +kernel)
    ⟨by decide +kernel, by decide +kernel, by decide +kernel, trivial⟩
  revert once
  decide +kernel

end Service
end Deneb
