import DenebModel.Execution.Theorems.Apart

namespace Deneb

open CString Labelled

-- The command of an event by which a policy hands over a command.
def Event.policyCommand (kind : PolicyKind) : Event → Option CString
  | handed (.policy k) command _ _ => if k = kind then some command else none
  | _                              => none

-- The policy is worked off, given up, or replaced by an abort.
def Event.ends (kind : PolicyKind) (e : Event) : Bool :=
  e = policyDone kind || e = policyFailed kind || e = aborted

namespace Lifecycle

variable {l l' : Lifecycle} {kind k : PolicyKind} {recorded past : List Event} {rest : List CString}

section Invariant

-- No other producer has anything to hand over while a policy is pending.
structure Exclusive (l : Lifecycle) : Prop extends Apart l where
  finish_queue : l.pending .finish → ¬l.queue
  abort_busy   : l.pending .abort → ¬l.busy
  abort_queue  : l.pending .abort → ¬l.queue
  abort_waits  : l.pending .abort → ¬l.waits
  abort_state  : l.pending .abort → l.state = .aborting ∨ l.state = .error
  notRequested : ¬l.abortRequested

theorem Exclusive.mono (ex : Exclusive l) (apart : Apart l') (hp : l'.probe → l.probe)
    (hk : ∀ k, l'.pending k → l.pending k) (hq : l'.queue → l.queue) (hw : l'.waits → l.waits)
    (hs : l'.pending .abort → l'.state = .aborting ∨ l'.state = .error)
    (hr : l'.abortRequested → l.abortRequested) : Exclusive l' := by
  have busy : l'.busy → l.busy := by
    simp only [Lifecycle.busy, Bool.or_eq_true]
    exact Or.imp (Or.imp hp (hk _)) (hk _)
  refine ⟨apart, ?_, ?_, ?_, ?_, hs, fun h => ex.notRequested (hr h)⟩
  case refine_1 => exact fun h h' => ex.finish_queue (hk _ h) (hq h')
  case refine_2 => exact fun h h' => ex.abort_busy (hk _ h) (busy h')
  case refine_3 => exact fun h h' => ex.abort_queue (hk _ h) (hq h')
  case refine_4 => exact fun h h' => ex.abort_waits (hk _ h) (hw h')

-- Without an abort only the finish cleanup has to be kept apart from the queue.
theorem Exclusive.of_not_abort (apart : Apart l) (ha : ¬l.pending .abort)
    (hf : l.pending .finish → ¬l.queue) (hr : ¬l.abortRequested) : Exclusive l :=
  ⟨apart, hf, fun h => absurd h ha, fun h => absurd h ha, fun h => absurd h ha,
    fun h => absurd h ha, hr⟩

theorem Exclusive.not_abort_of_job (ex : Exclusive l) (h : l.job) : ¬l.pending .abort :=
  fun ha => ex.abort_job ha h

theorem Exclusive.not_abort_of_busy (ex : Exclusive l) (h : l.busy) : ¬l.pending .abort :=
  fun ha => ex.abort_busy ha h

-- At most one policy is pending.
theorem Exclusive.unique (ex : Exclusive l) (h : l.pending kind) (h' : l.pending k) : k = kind := by
  have abort_finish : l.pending .abort → ¬l.pending .finish :=
    fun h h' => ex.abort_job h (ex.finish_job h')
  have abort_pause : l.pending .abort → ¬l.pending .pause :=
    fun h h' => ex.abort_busy h (busy_of_pause h')
  have abort_resume : l.pending .abort → ¬l.pending .resume :=
    fun h h' => ex.abort_busy h (busy_of_resume h')
  have finish_pause : l.pending .finish → ¬l.pending .pause :=
    fun h h' => ex.finish_busy h (busy_of_pause h')
  have finish_resume : l.pending .finish → ¬l.pending .resume :=
    fun h h' => ex.finish_busy h (busy_of_resume h')
  have := ex.pause_resume
  cases k <;> cases kind <;> first | rfl | (exfalso; tauto)

-- The position is not probed while a policy is pending.
theorem Exclusive.not_probe (ex : Exclusive l) (h : l.pending kind) : ¬l.probe := by
  intro hp
  cases kind
  case abort  => exact ex.abort_busy h (busy_of_probe hp)
  case finish => exact ex.finish_busy h (busy_of_probe hp)
  case pause  => exact ex.probe_pause hp h
  case resume => exact ex.probe_resume hp h

end Invariant

section Steps

theorem ManualStep.exclusive (h : ManualStep l l') (ex : Exclusive l) : Exclusive l' := by
  have apart := h.apart ex.toApart
  cases h
  case keep => exact ex
  case set ha _ _ _ _ _ _ =>
    exact ex.mono apart id (fun _ => id) id id (fun h => absurd h ha) id

theorem WaitStep.exclusive (h : WaitStep l l') (ex : Exclusive l) : Exclusive l' := by
  have apart := h.apart ex.toApart
  cases h
  case apply hw =>
    exact ex.mono apart id (fun _ => id) id id (fun h => absurd hw (ex.abort_waits h)) id
  case ended => exact ex.mono apart id (fun _ => id) id nofun ex.abort_state id

theorem LineStep.exclusive {text : CString} (h : LineStep text l l') (ex : Exclusive l) :
    Exclusive l' := by
  have apart := h.apart ex.toApart
  cases h
  case ready =>
    refine ex.mono apart id (fun _ => id) id nofun (fun h => ?_) id
    have := ex.abort_state h
    dsimp only
    split
    case isTrue  => exact .inr rfl
    case isFalse => exact this
  case waiting hw _ =>
    exact ex.mono apart id (fun _ => id) id id (fun h => absurd hw (ex.abort_waits h)) id

theorem QueueStep.exclusive (h : QueueStep l recorded l') (ex : Exclusive l) : Exclusive l' := by
  have apart := h.apart ex.toApart
  have queue_alone (hq : l.queue) : ¬l.pending .abort := fun h => ex.abort_queue h hq
  cases h
  case send hq _ _ => exact .of_not_abort apart (queue_alone hq) ex.finish_queue ex.notRequested
  case fail hq _ _ => exact .of_not_abort apart (queue_alone hq) nofun ex.notRequested
  case done hq _   => exact .of_not_abort apart (queue_alone hq) nofun ex.notRequested

theorem PolicyStep.exclusive (h : PolicyStep l recorded l') (ex : Exclusive l) : Exclusive l' := by
  have apart := h.apart ex.toApart
  have advanced {kind k} : (l.advance kind).pending k → l.pending k := by simp
  have stopped {kind k} (h : (l.stop kind).pending k) : l.pending k := (pending_of_stop h).2
  cases h
  case send =>
    exact ex.mono apart id (fun _ => advanced) id id (fun h => ex.abort_state (advanced h)) id
  case fail hw =>
    refine ex.mono apart id (fun _ => stopped) id hw (fun _ => .inr rfl) fun h => ?_
    dsimp only at h
    split at h
    case isTrue  => contradiction
    case isFalse => exact h
  case abortDone =>
    exact ex.mono apart id (fun _ => stopped) id nofun (fun h => absurd rfl (pending_of_stop h).1) nofun
  case finishDone hf _ =>
    have ha : ¬l.pending .abort := ex.not_abort_of_job (ex.finish_job hf)
    exact .of_not_abort apart (fun h => ha (stopped h)) (fun h => absurd rfl (pending_of_stop h).1) nofun
  case pauseDone hp =>
    have ha := ex.not_abort_of_busy (busy_of_pause hp)
    exact ex.mono apart id (fun _ => stopped) id id (fun h => absurd (stopped h) ha) id
  case resumeDone hp =>
    have ha := ex.not_abort_of_busy (busy_of_resume hp)
    exact ex.mono apart id (fun _ => stopped) id id (fun h => absurd (stopped h) ha) id
  case heat next =>
    have ha := ex.not_abort_of_busy (busy_of_resume next.1)
    exact .of_not_abort apart (fun h => ha (advanced h)) (fun h => ex.finish_queue (advanced h))
      ex.notRequested
  case leftover =>
    exact ex.mono apart id (fun _ => advanced) id nofun (fun h => ex.abort_state (advanced h)) id
  case probe => exact ex
  case probeFail => exact ex.mono apart nofun (fun _ => id) id id (fun _ => .inr rfl) id
  case probed hp =>
    have ha := ex.not_abort_of_busy (busy_of_probe hp)
    exact .of_not_abort apart (fun h => ha (pending_of_begin (by decide) h))
      (fun h => ex.finish_queue (pending_of_begin (by decide) h)) ex.notRequested
  case unprobed => exact ex.mono apart nofun (fun _ => id) id id ex.abort_state id

theorem StreamStep.exclusive (hs : Streams l) (h : StreamStep l recorded l') (ex : Exclusive l) :
    Exclusive l' := by
  have apart := h.apart hs ex.toApart
  have ha := ex.not_abort_of_job hs.active
  have ended : ¬(l.setPolicy .finish { l.policy .finish with pending := false }).pending .abort := by
    simpa using ha
  cases h
  case prepare     => exact ex
  case prepareFail => exact .of_not_abort apart ha ex.finish_queue ex.notRequested
  case stage       => exact .of_not_abort apart ha ex.finish_queue ex.notRequested
  case readFail    => exact .of_not_abort apart ended (fun _ => hs.notQueue) ex.notRequested
  case finish =>
    exact .of_not_abort apart (fun h => ha (pending_of_begin (by decide) h)) (fun _ => hs.notQueue)
      ex.notRequested
  case stream      => exact .of_not_abort apart ha ex.finish_queue ex.notRequested
  case streamFail  => exact .of_not_abort apart ended (fun _ => hs.notQueue) ex.notRequested

theorem aborted_exclusive {pending : Bool} : Exclusive (l.aborted pending) := by
  refine ⟨aborted_apart, nofun, fun _ => ?_, nofun, nofun, fun h => ?_, nofun⟩
  case refine_1 => exact not_busy nofun (by simp) (by simp)
  case refine_2 =>
    have h : pending = true := by simpa using h
    simp [aborted, h]

theorem PollStep.exclusive (h : PollStep l recorded l') (ex : Exclusive l) : Exclusive l' := by
  have apart := h.apart ex.toApart
  cases h
  case silent    => exact ex
  case line h    => exact h.exclusive ex
  case error     => exact ex.mono apart id (fun _ => id) id id (fun _ => .inr rfl) id
  case abort     => exact aborted_exclusive
  case dropAbort => exact ex.mono apart id (fun _ => id) id id ex.abort_state nofun
  case policy h  => exact h.exclusive ex
  case manual h  => exact h.exclusive ex
  case probe     => exact ex
  case wait h    => exact h.exclusive ex

theorem JobStep.exclusive (h : JobStep l recorded l') (ex : Exclusive l) : Exclusive l' := by
  have apart := h.apart ex.toApart
  cases h
  case poll h    => exact h.exclusive ex
  case queue h   => exact h.exclusive ex
  case errorExit hj _ hq _ _ =>
    have ended : ¬(l.setPolicy .finish { l.policy .finish with pending := false }).pending .abort := by
      simpa using ex.not_abort_of_job hj
    exact .of_not_abort apart ended (fun _ => hq) nofun
  case streaming hj _ _ _ _ _ =>
    exact .of_not_abort apart (ex.not_abort_of_job hj) ex.finish_queue ex.notRequested
  case stream hs h => exact h.exclusive hs ex

end Steps

section Commands

-- Nothing is pending, and no fault is reported for which the job is going to be aborted.
structure Settled (l : Lifecycle) : Prop where
  policy       : ∀ k, ¬l.pending k
  probe        : ¬l.probe
  fault        : ¬(l.job ∧ l.state = .error ∧ l.faulted)
  notRequested : ¬l.abortRequested

theorem Exclusive.of_none (hk : ∀ k, ¬l.pending k) (hr : ¬l.abortRequested) : Exclusive l :=
  .of_not_abort
    ⟨fun _ => hk _, fun _ => hk _, fun _ => hk _, fun h => absurd h (hk _),
      fun h => absurd h (hk _), fun h => absurd h (hk _), fun h => absurd h (hk _)⟩
    (hk _) (fun h => absurd h (hk _)) hr

theorem Settled.exclusive (settled : Settled l) : Exclusive l :=
  .of_none settled.policy settled.notRequested

-- The steps of a GCODE command do not touch the policies.
theorem GcodeStep.policy_eq (h : GcodeStep l recorded l') :
    l'.policy = l.policy ∧ l'.abortRequested = l.abortRequested := by
  cases h
  case queue h  => cases h <;> exact ⟨rfl, rfl⟩
  case wait h   => cases h <;> exact ⟨rfl, rfl⟩
  case manual h => cases h <;> exact ⟨rfl, rfl⟩

theorem LineStep.settled {text : CString} (h : LineStep text l l') (settled : Settled l)
    (hf : l.job → ¬StatusParser.isFaultLine text) : Settled l' ∧ l'.job = l.job := by
  have ⟨hk, hp, fault, hr⟩ := settled
  cases h
  case ready faulted same =>
    refine ⟨⟨hk, hp, fun h => ?_, hr⟩, rfl⟩
    have ⟨hj, hs, hfaulted⟩ := h
    have hn := hf hj
    rw [if_neg hn] at hs
    exact fault ⟨hj, hs, same hn ▸ hfaulted⟩
  case waiting => exact ⟨⟨hk, hp, by simp, hr⟩, rfl⟩

theorem PollStep.settled (h : PollStep l recorded l') (settled : Settled l)
    (hf : l.job → ∀ e ∈ recorded, ¬e.isFault) : Settled l' ∧ l'.job = l.job := by
  have ⟨hk, hp, fault, hr⟩ := settled
  cases h
  case silent    => exact ⟨settled, rfl⟩
  case line h    => exact h.settled settled fun hj => hf hj _ List.mem_cons_self
  case error     => exact ⟨⟨hk, hp, by simp, hr⟩, rfl⟩
  case abort h   => exact absurd h (not_or_intro fault hr)
  case dropAbort => exact ⟨⟨hk, hp, fault, nofun⟩, rfl⟩
  case policy h =>
    cases h
    case send next     => exact absurd next.1 (hk _)
    case fail next _ _ => exact absurd next.1 (hk _)
    case abortDone h   => exact absurd h (hk _)
    case finishDone h _ => exact absurd h (hk _)
    case pauseDone h   => exact absurd h (hk _)
    case resumeDone h  => exact absurd h (hk _)
    case heat next     => exact absurd next.1 (hk _)
    case leftover next => exact absurd next.1 (hk _)
    case probe h       => exact absurd h hp
    case probeFail h _ => exact absurd h hp
    case probed h      => exact absurd h hp
    case unprobed h    => exact absurd h hp
  case manual h =>
    cases h
    case keep => exact ⟨settled, rfl⟩
    case set hs =>
      refine ⟨⟨hk, hp, fun h => ?_, hr⟩, rfl⟩
      cases hs <;> simp_all
  case probe => exact ⟨settled, rfl⟩
  case wait h =>
    cases h
    case apply => exact ⟨⟨hk, hp, by simp, hr⟩, rfl⟩
    case ended => exact ⟨⟨hk, hp, fault, hr⟩, rfl⟩

theorem MacroStep.settled {mayWait : Prop} (h : MacroStep mayWait l recorded l')
    (settled : Settled l) (hf : l.job → ∀ e ∈ recorded, ¬e.isFault) :
    Settled l' ∧ l'.job = l.job := by
  have ⟨hk, hp, fault, hr⟩ := settled
  cases h
  case poll h    => exact h.settled settled hf
  case send      => exact ⟨settled, rfl⟩
  case startWait => exact ⟨⟨hk, hp, fault, hr⟩, rfl⟩
  case fail      => exact ⟨⟨hk, hp, by simp, hr⟩, rfl⟩

-- A macro begins no policy if no fault is reported for an active job while it runs.
theorem macroSteps_settled {mayWait : Prop} (h : Steps (MacroStep mayWait) l recorded l')
    (settled : Settled l) (hf : l.job → ∀ e ∈ recorded, ¬e.isFault) : Settled l' := by
  suffices Settled l' ∧ l'.job = l.job from this.1
  induction h
  case refl => exact ⟨settled, rfl⟩
  case tail step ih =>
    have ⟨settled', hj⟩ := ih fun h e he => hf h e (List.mem_append_left _ he)
    have ⟨settled'', hj'⟩ := step.settled settled' fun h e he =>
      hf (hj ▸ h) e (List.mem_append_right _ he)
    exact ⟨settled'', hj'.trans hj⟩

-- A PAUSE does not come while the finish cleanup is going on, a GCODE or MACRO command not while a
-- policy is pending, and a MACRO moreover neither while the position is probed nor when the job is to
-- be aborted before it ends.
def Separate (l : Lifecycle) (recorded : List Event) (op : Service.Op) : Prop :=
  l.PauseBeforeFinish op ∧
    match op with
    | .command (.gcode _) _ _    => l.queue ∨ ∀ k, ¬l.pending k
    | .command (.runMacro _) _ _ =>
      (∀ k, ¬l.pending k) ∧ ¬l.probe ∧
      (l.job → ¬(l.state = .error ∧ l.faulted) ∧ ∀ e ∈ recorded, ¬e.isFault)
    | _ => True

theorem Exec.exclusive {op : Service.Op} (h : Exec op l recorded l') (ok : l.Separate recorded op)
    (ex : Exclusive l) : Exclusive l' := by
  have apart := h.apart ok.1 ex.toApart
  cases h
  case keep         => exact ex
  case pollMotion h => exact h.keeps PollStep.exclusive ex
  case pollJob h    => exact h.keeps JobStep.exclusive ex
  case queueFull    => exact ex.mono apart id (fun _ => id) (absurd · Bool.false_ne_true) id ex.abort_state id
  case gcode queue waits hq manual steps =>
    have hk := ok.2.resolve_left hq
    have same : l'.policy = l.policy ∧ l'.abortRequested = l.abortRequested := by
      refine steps.keeps (p := fun l' => l'.policy = l.policy ∧ l'.abortRequested = l.abortRequested)
        (fun h hp => ⟨h.policy_eq.1.trans hp.1, h.policy_eq.2.trans hp.2⟩) ?_
      cases manual <;> exact ⟨rfl, rfl⟩
    refine .of_none (fun k => ?_) (same.2 ▸ ex.notRequested)
    rw [pending, same.1]
    exact hk k
  case runMacro h =>
    obtain ⟨hk, hp, hf⟩ := ok.2
    have settled : Settled l := ⟨hk, hp, fun h => (hf h.1).1 h.2, ex.notRequested⟩
    exact (macroSteps_settled h settled fun hj => (hf hj).2).exclusive
  case job     => exact .of_none (by simp) (absurd · Bool.false_ne_true)
  case noFile  => exact ex.mono apart id (fun _ => id) id id ex.abort_state id
  case noAbort => exact ex.mono apart id (fun _ => id) id id ex.abort_state (absurd · Bool.false_ne_true)
  case abort   => exact aborted_exclusive
  case pausing hj _ =>
    exact .of_not_abort apart (ex.not_abort_of_job hj) ex.finish_queue ex.notRequested
  case paused hj _ =>
    exact .of_not_abort apart (ex.not_abort_of_job hj) ex.finish_queue ex.notRequested
  case pausedIdle hs =>
    refine ex.mono apart id (fun _ => id) id id (fun h => ?_) id
    have := ex.abort_state h
    cases this <;> simp_all [pausedState]
  case resume hs _ =>
    refine ex.mono apart id (fun _ => id) id id (fun h => ?_) id
    have := ex.abort_state h
    cases this <;> simp_all
  case resumePolicy hs _ =>
    refine .of_not_abort apart (fun h => ?_)
      (fun h => ex.finish_queue (pending_of_begin (by decide) h)) ex.notRequested
    have := ex.abort_state (pending_of_begin (by decide) h)
    cases this <;> simp_all

end Commands

section Window

-- The commands of a policy that are not handed over yet.
def left (l : Lifecycle) (kind : PolicyKind) : List CString :=
  (l.policy kind).policy.drop (l.policy kind).index

theorem Next.left {command : CString} (next : l.Next kind command) :
    l.left kind = command :: (l.advance kind).left kind := by
  obtain ⟨hi, rfl⟩ := List.getElem?_eq_some_iff.mp next.2
  simpa [Lifecycle.left, advance, setPolicy] using List.drop_eq_getElem_cons hi

-- A probe of the status hands over a command.
def Probes (producer : Producer) (command : CString) : Prop :=
  (∀ k, producer ≠ .policy k) ∧ command ∈ probeCommands

-- What a step does while a policy is pending: it hands over the next command of the policy, something
-- else goes on and at most the status is probed, or the policy ends.
inductive Works (kind : PolicyKind) (l : Lifecycle) : List Event → Lifecycle → Prop
  | send (command slot job) :
    l.left kind = command :: l₁.left kind → l₁.pending kind →
    Works kind l [.handed (.policy kind) command slot job] l₁
  | other (job) :
    HandedBy Probes job events → l₁.pending kind → l₁.left kind = l.left kind →
    Works kind l events l₁
  | fail (job) :
    l.left kind = command :: commands → Unsent job (.policy kind) command events →
    Works kind l (events ++ [.policyFailed kind]) l₁
  | ended (e events) : e.ends kind → Works kind l (e :: events) l₁

-- A record of nothing but the own commands of a policy, in their order, and probes of the status.
structure Alone (kind : PolicyKind) (rest : List CString) (recorded : List Event) : Prop where
  own  : recorded.filterMap (Event.policyCommand kind) <+: rest
  only : ∀ producer command slot job, .handed producer command slot job ∈ recorded →
    producer = .policy kind ∨ command ∈ probeCommands

-- The policy has still to be worked off.
structure Working (kind : PolicyKind) (rest : List CString) (past : List Event) (l : Lifecycle) :
    Prop extends Exclusive l where
  pending : l.pending kind
  left    : past.filterMap (Event.policyCommand kind) ++ l.left kind = rest
  only    : ∀ producer command slot job, .handed producer command slot job ∈ past →
    producer = .policy kind ∨ command ∈ probeCommands

theorem Working.alone (working : Working kind rest past l) : Alone kind rest past :=
  ⟨⟨_, working.left⟩, working.only⟩

theorem HandedBy.policyCommand_eq_nil {job : Bool} (h : HandedBy Probes job recorded) :
    recorded.filterMap (Event.policyCommand kind) = [] := by
  refine List.filterMap_eq_nil_iff.mpr fun e he => ?_
  cases e
  case handed producer command slot job' =>
    cases producer
    case policy k => exact absurd rfl ((h _ _ _ _ he).2.1 k)
    all_goals rfl
  all_goals rfl

theorem HandedBy.upTo {hands : Producer → CString → Prop} {job : Bool} {stop : Event → Bool}
    (h : HandedBy hands job recorded) : HandedBy hands job (upTo stop recorded) :=
  fun _ _ _ _ hm => h _ _ _ _ (List.takeWhile_subset _ hm)

theorem Working.alone_append {job : Bool} (working : Working kind rest past l)
    (h : HandedBy Probes job recorded) : Alone kind rest (past ++ recorded) := by
  constructor
  case own =>
    rw [List.filterMap_append, h.policyCommand_eq_nil, List.append_nil]
    exact working.alone.own
  case only =>
    intro _ _ _ _ hm
    cases List.mem_append.mp hm
    case inl hm => exact working.only _ _ _ _ hm
    case inr hm => exact .inr (h _ _ _ _ hm).2.2

theorem Working.alone_handed {command : CString} {commands : List CString} {slot : Nat} {job : Bool}
    (working : Working kind rest past l) (hl : l.left kind = command :: commands)
    (hr : recorded = [] ∨ recorded = [.writeFailed]) :
    Alone kind rest (past ++ .handed (.policy kind) command slot job :: recorded) := by
  constructor
  case own =>
    refine ⟨commands, ?_⟩
    rw [← working.left, hl]
    cases hr <;> simp [*, Event.policyCommand]
  case only =>
    intro _ _ _ _ hm
    cases List.mem_append.mp hm
    case inl hm => exact working.only _ _ _ _ hm
    case inr hm => cases hr <;> simp_all

theorem Works.until (h : Works kind l recorded l') (ex : Exclusive l')
    (working : Working kind rest past l) :
    Until (Event.ends kind) (Alone kind rest <| past ++ ·) (Working kind rest <| past ++ ·)
      recorded l' := by
  cases h
  case send command slot job hl hp =>
    have alone : Alone kind rest (past ++ [.handed (.policy kind) command slot job]) :=
      working.alone_handed hl (.inl rfl)
    refine .of_none (by simp [Event.ends]) alone ⟨ex, hp, ?_, alone.only⟩
    simp [Event.policyCommand, ← working.left, hl]
  case other job h hp hl =>
    refine ⟨working.alone_append h.upTo, fun _ => ⟨ex, hp, ?_, (working.alone_append h).only⟩⟩
    rw [List.filterMap_append, h.policyCommand_eq_nil, List.append_nil, hl, working.left]
  case fail job hl unsent =>
    cases unsent
    case refused     => exact ⟨by simpa [upTo, Event.ends] using working.alone, by simp [Event.ends]⟩
    case failed slot =>
      refine ⟨?_, by simp [Event.ends]⟩
      simpa [upTo, Event.ends] using working.alone_handed hl (.inr rfl)
  case ended he =>
    refine ⟨?_, fun h => absurd he (h _ List.mem_cons_self)⟩
    simpa [upTo, he] using working.alone

theorem PolicyStep.works (h : PolicyStep l recorded l') (ex : Exclusive l) (hp : l.pending kind) :
    Works kind l recorded l' := by
  have only {k} (h : l.pending k) : k = kind := ex.unique hp h
  have not_probe := ex.not_probe hp
  have advanced {k} : (l.advance k).pending kind := by simpa using hp
  cases h
  case send k slot next       => cases only next.1; exact .send _ _ _ next.left advanced
  case fail next unsent _     => cases only next.1; exact .fail _ next.left unsent
  case abortDone h            => cases only h; exact .ended _ _ (by simp [Event.ends])
  case finishDone h _         => cases only h; exact .ended _ _ (by simp [Event.ends])
  case pauseDone h            => cases only h; exact .ended _ _ (by simp [Event.ends])
  case resumeDone h           => cases only h; exact .ended _ _ (by simp [Event.ends])
  case heat next              => cases only next.1; exact .send _ _ _ next.left advanced
  case leftover next          => cases only next.1; exact .send _ _ _ next.left advanced
  case probe h                => exact absurd h not_probe
  case probeFail h _          => exact absurd h not_probe
  case probed h               => exact absurd h not_probe
  case unprobed h             => exact absurd h not_probe

theorem Works.of_same {job : Bool} (h : HandedBy Probes job recorded) (hp : l.pending kind)
    (same : l'.policy = l.policy) : Works kind l recorded l' := by
  refine .other job h ?_ ?_
  case refine_1 => rwa [pending, same]
  case refine_2 => rw [left, left, same]

theorem PollStep.works (h : PollStep l recorded l') (ex : Exclusive l) (hp : l.pending kind) :
    Works kind l recorded l' := by
  have nothing : HandedBy Probes l.job [] := .nil
  cases h
  case silent hs =>
    have handed : HandedBy Probes l.job recorded := .of_silent hs
    exact .of_same handed hp rfl
  case line text acks hs h =>
    have handed : HandedBy Probes l.job (.line text :: acks) := (HandedBy.of_silent hs).cons_other rfl
    cases h <;> exact .of_same handed hp rfl
  case error      => exact .of_same nothing hp rfl
  case abort      => exact .ended _ _ (by simp [Event.ends])
  case dropAbort  => exact .of_same nothing hp rfl
  case policy h   => exact h.works ex hp
  case manual h   => cases h <;> exact .of_same nothing hp rfl
  case probe hc h => exact .of_same (h.handedBy ⟨nofun, hc⟩) hp rfl
  case wait h     => cases h <;> exact .of_same nothing hp rfl

-- Without a pause or resume the pending policy is a cleanup.
theorem Exclusive.cleanup (ex : Exclusive l) (hp : l.pending kind) (hb : ¬l.busy) :
    kind = .finish ∧ l.job ∨ kind = .abort ∧ ¬l.job := by
  cases kind
  case abort  => exact .inr ⟨rfl, ex.abort_job hp⟩
  case finish => exact .inl ⟨rfl, ex.finish_job hp⟩
  case pause  => exact absurd (busy_of_pause hp) hb
  case resume => exact absurd (busy_of_resume hp) hb

theorem Exclusive.not_queue (ex : Exclusive l) (hp : l.pending kind) (hb : ¬l.busy) : ¬l.queue := by
  obtain ⟨rfl, _⟩ | ⟨rfl, _⟩ := ex.cleanup hp hb
  case inl => exact ex.finish_queue hp
  case inr => exact ex.abort_queue hp

theorem Exclusive.not_paused (ex : Exclusive l) (hp : l.pending kind) (hb : ¬l.busy) :
    l.state ≠ .paused ∧ l.state ≠ .pausing := by
  obtain ⟨rfl, _⟩ | ⟨rfl, _⟩ := ex.cleanup hp hb
  case inl => exact ex.finish_state hp
  case inr => cases ex.abort_state hp <;> simp_all

theorem JobStep.works (h : JobStep l recorded l') (ex : Exclusive l) (hp : l.pending kind) :
    Works kind l recorded l' := by
  have nothing : HandedBy Probes l.job [] := .nil
  cases h
  case poll h => exact h.works ex hp
  case queue hb h =>
    have hq := ex.not_queue hp hb
    cases h
    case send h _ _ => exact absurd h hq
    case fail h _ _ => exact absurd h hq
    case done h _   => exact absurd h hq
  case errorExit hj hb _ _ _ =>
    obtain ⟨rfl, _⟩ | ⟨_, hn⟩ := ex.cleanup hp hb
    case inl =>
      rw [dropFinish, if_pos hp]
      exact .ended _ _ (by simp [Event.ends])
    case inr => exact absurd hj hn
  case streaming => exact .of_same nothing hp rfl
  case stream hs _ =>
    obtain ⟨rfl, _⟩ | ⟨_, hn⟩ := ex.cleanup hp hs.notBusy
    case inl => exact absurd hp hs.notFinish
    case inr => exact absurd hs.active hn

theorem jobBusy_of_pending (h : l.pending kind) : l.jobBusy := by
  cases kind <;> simp [jobBusy, busy, h]

theorem Exec.until {op : Service.Op} (h : Exec op l recorded l') (ok : l.Separate recorded op)
    (working : Working kind rest past l) :
    Until (Event.ends kind) (Alone kind rest <| past ++ ·) (Working kind rest <| past ++ ·)
      recorded l' := by
  have ex := working.toExclusive
  have hp := working.pending
  have ex' := h.exclusive ok ex
  have nothing : HandedBy Probes l.job [] := .nil
  cases h
  case keep => exact (Works.of_same nothing hp rfl).until ex' working
  case pollMotion h =>
    exact .steps (fun working step => (step.works working.toExclusive working.pending).until
      (step.exclusive working.toExclusive) working) Working.alone working h
  case pollJob h =>
    exact .steps (fun working step => (step.works working.toExclusive working.pending).until
      (step.exclusive working.toExclusive) working) Working.alone working h
  case queueFull hq     => exact absurd hp (ok.2.resolve_left hq kind)
  case gcode hq _ _     => exact absurd hp (ok.2.resolve_left hq kind)
  case runMacro         => exact absurd hp (ok.2.1 kind)
  case job hb           => exact absurd (jobBusy_of_pending hp) hb
  case noFile hb        => exact absurd (jobBusy_of_pending hp) hb
  case noAbort =>
    have same : Works kind l [] { l with abortRequested := false } := .of_same nothing hp rfl
    exact same.until ex' working
  case abort            => exact (Works.ended _ _ (by simp [Event.ends])).until ex' working
  case pausing hb hj hs =>
    obtain ⟨rfl, _⟩ | ⟨_, hn⟩ := ex.cleanup hp hb
    case inl => cases hs <;> simp_all [Separate, PauseBeforeFinish]
    case inr => exact absurd hj hn
  case paused hb _ hs =>
    have := ex.not_paused hp hb
    cases hs <;> simp_all
  case pausedIdle hb hj hs =>
    obtain ⟨_, hn⟩ | ⟨rfl, _⟩ := ex.cleanup hp hb
    case inl => exact absurd hn hj
    case inr => cases ex.abort_state hp <;> simp_all [pausedState]
  case resume hb hs _       => exact absurd hs (ex.not_paused hp hb).1
  case resumePolicy hb hs _ => exact absurd hs (ex.not_paused hp hb).1

end Window

end Lifecycle

namespace Service

theorem init_exclusive : init.lifecycle.Exclusive :=
  .of_none (by intro k; cases k <;> exact nofun) nofun

theorem policy_alone {kind : PolicyKind} {before ops : List Op}
    (h : Along (fun s op => s.lifecycle.Separate (s.events [op]) op) init (before ++ ops))
    (hp : ((init.run before).policy kind).pending) :
    Lifecycle.Alone kind ((init.run before).lifecycle.left kind)
      (upTo (Event.ends kind) ((init.run before).events ops)) := by
  have ⟨earlier, later⟩ := h.append
  have ⟨ex, _⟩ := run_invariant (q := fun _ => True)
    (fun ex ok ht exec => ⟨exec.exclusive (events_single ht ▸ ok) ex, fun _ _ => trivial⟩)
    earlier init_exclusive
  have working : Lifecycle.Working kind ((init.run before).lifecycle.left kind) []
      (init.run before).lifecycle := ⟨ex, hp, rfl, nofun⟩
  exact (run_until (fun working ok ht exec => exec.until (events_single ht ▸ ok) working)
    Lifecycle.Working.alone later working).good

-- A job that is aborted right after it was accepted.
def abortedJob : List Op :=
  [.openMotion true,
   .command (.job { file := "a.gcode", jobFile := some { reads := [], text := [] } }) {} 0,
   .command .abort {} 0]

theorem abortedJob_alone :
    ((init.run abortedJob).policy .abort).pending ∧
    Lifecycle.Alone .abort ((init.run abortedJob).lifecycle.left .abort)
      (upTo (Event.ends .abort) ((init.run abortedJob).events [.pollMotion (.ofLines ["ok"])])) := by
  have pending : ((init.run abortedJob).policy .abort).pending := by decide +kernel
  refine ⟨pending, policy_alone ⟨?_, ?_, ?_, ?_, trivial⟩ pending⟩
  all_goals exact ⟨trivial, trivial⟩

-- A command that comes during the abort cleanup is handed over before it.
theorem abortedJob_not_alone : ¬∀ (before ops : List Op) (kind : PolicyKind),
    ((init.run before).policy kind).pending →
    Lifecycle.Alone kind ((init.run before).lifecycle.left kind)
      (upTo (Event.ends kind) ((init.run before).events ops)) := by
  intro h
  have alone := h abortedJob [.command (.gcode ["G1 X1"]) {} 0] .abort (by decide +kernel)
  have handed := alone.only .gcodeQueue "G1 X1" 0 false (by decide +kernel)
  revert handed
  decide

end Service
end Deneb
