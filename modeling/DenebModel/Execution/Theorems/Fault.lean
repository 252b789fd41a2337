import DenebModel.Execution.Theorems.Held

namespace Deneb.Service

open CString

-- The states in which the loop of `deneb_motion_runtime_poll` reads its lines.
inductive Reading (s₀ : Service) : Nat → Int → Service → Prop
  | start : Reading s₀ (s₀.serial.input.length + 1) 0 s₀
  | next :
    Reading s₀ (rounds + 1) handled s → 0 < s.readLine.1 →
    s.readLine.2.2.handleLine s.readLine.2.1 = (rc, s₁) →
    s₁.reactToResponse s₀.allowSequenceResync rc = (true, s₂) →
    Reading s₀ rounds (handled + 1) s₂

-- What is left of a poll in such a state.
def pollFrom (allow : Bool) (rounds : Nat) (handled : Int) (s : Service) : Int × Service :=
  let (rc, s) := runtimeLoop allow rounds handled s
  s.pollPolicies.pollProbes rc

variable {s s' s₀ : Service} {allow : Bool} {rounds : Nat} {handled : Int} {line : CString}

section Loop

theorem Reading.pollMotion_eq (reading : Reading s₀ rounds handled s) (hr : s₀.serialReady) :
    s₀.pollMotion = pollFrom s₀.allowSequenceResync rounds handled s := by
  induction reading
  case start =>
    unfold pollMotion pollRuntime
    rw [if_neg (by simp [hr])]
    rfl
  case next hn hl hc ih =>
    rw [ih, pollFrom, pollFrom, runtimeLoop]
    simp only [if_neg (Int.not_lt.mpr (Int.le_of_lt hn)), if_neg (Int.ne_of_gt hn), hl, hc]
    rfl

-- A response changes the serial port and the flow control, or it fails the print.
theorem reactToResponse_cases {rc : Int} :
    ∃ flow serial events, (∀ e ∈ events, e.isSilent) ∧
      (s.reactToResponse allow rc = (true, { s with
        flow := flow, serial := serial, trace := s.trace ++ events }) ∨
       s.status.hasActivePrint ∧ ∃ detail, s.reactToResponse allow rc = (false, setSerialError { s with
        flow := flow, serial := serial, trace := s.trace ++ events } detail)) := by
  have same : { s with trace := s.trace ++ [] } = s := by rw [List.append_nil]
  unfold reactToResponse
  split
  case isTrue =>
    refine ⟨s.flow, s.resendPending.2.serial, [], List.forall_mem_nil _, ?_⟩
    rw [List.append_nil]
    dsimp only
    split
    case isTrue h => exact .inr ⟨(Bool.and_eq_true_iff.mp h).2, _, rfl⟩
    case isFalse  => exact .inl rfl
  case isFalse =>
    split
    case isTrue =>
      refine ⟨s.flow.resyncToExpected, s.serial, s.flow.pendingSlots.map .resynced, ?_, ?_⟩
      case refine_1 => simp [Event.isSilent]
      case refine_2 =>
        dsimp only
        split
        case isTrue h => exact .inr ⟨(Bool.and_eq_true_iff.mp h).1, _, rfl⟩
        case isFalse  => exact .inl rfl
    case isFalse =>
      refine ⟨s.flow, s.serial, [], List.forall_mem_nil _, ?_⟩
      rw [List.append_nil]
      split
      case isTrue h => exact .inr ⟨(Bool.and_eq_true_iff.mp h).2, _, rfl⟩
      case isFalse  => exact .inl rfl

theorem Reading.jobActive_eq (reading : Reading s₀ rounds handled s) :
    s.jobActive = s₀.jobActive := by
  induction reading
  case start => rfl
  case next s rc s₁ s₂ _ _ hl hc ih =>
    have handled : s₁.jobActive = s.jobActive := (congrArg (·.2.jobActive) hl).symm
    obtain ⟨flow, serial, events, _, he | ⟨_, _, he⟩⟩ :=
      @reactToResponse_cases s₁ s₀.allowSequenceResync rc
    case inl =>
      rw [he] at hc
      cases hc
      exact handled.trans ih
    case inr =>
      rw [he] at hc
      cases hc

-- What a round of the loop records: its line, the slots that are acknowledged or dropped, and whether
-- the loop goes on.
theorem round_trace {rc : Int} {s₁ : Service} (hl : s.handleLine line = (rc, s₁)) :
    ∃ silent, (s₁.reactToResponse allow rc).2.trace = s.trace ++ .line line :: silent ∧
      ∀ e ∈ silent, e.isSilent := by
  have ⟨status, wait, flow, acks, he, silent, _⟩ := @handleLine_eq s line
  have ht : s₁.trace = s.trace ++ .line line :: acks := by
    rw [← show (s.handleLine line).2 = s₁ from congrArg Prod.snd hl, he]
  obtain ⟨_, _, events, silent', hr | ⟨_, _, hr⟩⟩ := @reactToResponse_cases s₁ allow rc
  all_goals
    refine ⟨acks ++ events, ?_, fun e h => (List.mem_append.mp h).elim (silent e) (silent' e)⟩
    rw [hr]
    simp [ht, setSerialError]

theorem runtimeLoop_trace :
    ∃ events, (runtimeLoop allow rounds handled s).2.trace = s.trace ++ events ∧
      .aborted ∉ events := by
  induction rounds generalizing s handled
  case zero => exact ⟨[], (List.append_nil _).symm, List.not_mem_nil⟩
  case succ rounds ih =>
    have kept : s.readLine.2.2.trace = s.trace ++ [] := (List.append_nil _).symm
    simp only [runtimeLoop]
    split
    case isTrue => exact ⟨[], kept, List.not_mem_nil⟩
    case isFalse =>
      split
      case isTrue => exact ⟨[], kept, List.not_mem_nil⟩
      case isFalse =>
        generalize hl : s.readLine.2.2.handleLine s.readLine.2.1 = r
        obtain ⟨rc, s₁⟩ := r
        obtain ⟨silent, ht, hs⟩ := @round_trace s.readLine.2.2 allow _ rc s₁ hl
        have no_abort : .aborted ∉ Event.line s.readLine.2.1 :: silent := by
          intro h
          cases List.mem_cons.mp h
          case inl h => contradiction
          case inr h => have := hs _ h; contradiction
        dsimp only
        split
        case isTrue =>
          obtain ⟨events, he, ha⟩ := @ih (s₁.reactToResponse allow rc).2 (handled + 1)
          refine ⟨.line s.readLine.2.1 :: silent ++ events, ?_, ?_⟩
          case refine_1 =>
            rw [he, ht, List.append_assoc]
            rfl
          case refine_2 => exact fun h => (List.mem_append.mp h).elim no_abort ha
        case isFalse => exact ⟨_, ht, no_abort⟩

-- A property that does not depend on the serial port, the flow control and the record.
def Framed (p : Service → Prop) : Prop :=
  ∀ s flow serial trace, p s → p { s with flow := flow, serial := serial, trace := trace }

-- A property that the lines keep holds at the end of the loop if no fault is read.
theorem runtimeLoop_keeps {p q : Service → Prop} (framed : Framed p)
    (hline : ∀ s line, p s → ¬StatusParser.isFaultLine line → p (s.handleLine line).2)
    (hstop : ∀ s detail, p s → s.status.hasActivePrint → q (s.setSerialError detail))
    (hq : ∀ s, p s → q s) (hp : p s) {events : List Event}
    (ht : (runtimeLoop allow rounds handled s).2.trace = s.trace ++ events)
    (hf : ∀ e ∈ events, ¬e.isFault) : q (runtimeLoop allow rounds handled s).2 := by
  induction rounds generalizing s handled events
  case zero => exact hq _ hp
  case succ rounds ih =>
    have read : p s.readLine.2.2 := framed _ _ _ _ hp
    simp only [runtimeLoop] at ht ⊢
    split
    case isTrue => exact hq _ read
    case isFalse hn =>
      rw [if_neg hn] at ht
      split
      case isTrue => exact hq _ read
      case isFalse hz =>
        rw [if_neg hz] at ht
        generalize hl : s.readLine.2.2.handleLine s.readLine.2.1 = r at ht ⊢
        obtain ⟨rc, s₁⟩ := r
        obtain ⟨silent, htr, _⟩ := @round_trace s.readLine.2.2 allow _ rc s₁ hl
        have line_ok (h : .line s.readLine.2.1 ∈ events) : p s₁ := by
          have := hline _ s.readLine.2.1 read (hf _ h)
          rwa [hl] at this
        obtain ⟨flow, serial, es, _, hr | ⟨hactive, detail, hr⟩⟩ := @reactToResponse_cases s₁ allow rc
        case inl =>
          simp only [hr, if_true] at ht htr ⊢
          generalize he : { s₁ with flow := flow, serial := serial, trace := s₁.trace ++ es } = s₂
            at ht htr ⊢
          obtain ⟨later, hlater, _⟩ := @runtimeLoop_trace s₂ allow rounds (handled + 1)
          have split : events = .line s.readLine.2.1 :: silent ++ later := by
            have recorded : s₂.trace = s₁.trace ++ es := by rw [← he]
            rw [hlater, recorded, htr, List.append_assoc] at ht
            exact (List.append_cancel_left ht).symm
          refine ih ?_ hlater fun e h => hf e (by rw [split]; exact List.mem_append_right _ h)
          exact he ▸ framed _ _ _ _ (line_ok (by rw [split]; exact List.mem_cons_self))
        case inr =>
          simp only [hr, Bool.false_eq_true, if_false] at ht htr ⊢
          have split : events = .line s.readLine.2.1 :: silent :=
            List.append_cancel_left (ht.symm.trans htr)
          refine hstop _ _ (framed _ _ _ _ (line_ok ?_)) hactive
          rw [split]
          exact List.mem_cons_self

end Loop

section Line

-- A fault is reported, and nothing hides it.
structure Reported (code : ErrorCode) (s : Service) : Prop where
  job   : s.jobActive
  state : s.status.state = .error
  fault : s.status.fault
  code  : s.status.error.code = code
  wait  : ¬s.heaterWait.active

variable {code : ErrorCode}

theorem not_empty_of_fault (h : StatusParser.isFaultLine line) : line.isEmpty = false := by
  cases line
  case nil  => rw [isFaultLine_nil] at h; contradiction
  case cons => rfl

theorem parseMarlinLine_fault {status : Status} (h : StatusParser.isFaultLine line) :
    (StatusParser.parseMarlinLine status line).2 = { status with
      fault := true
      error := Error.fromMarlinLine line
      state := .error
      req   := PrintControl.reqForPhase .error } := by
  rw [StatusParser.parseMarlinLine, not_empty_of_fault h]
  simp [h]

-- The observer shows the parsed status, or the heater wait over it.
theorem handleLine_report :
    let status := (StatusParser.parseMarlinLine s.status line).2
    SameReport (if s.heaterWait.ready status then status else s.heaterWait.applyStatus status)
      (s.handleLine line).2.status := by
  unfold handleLine
  dsimp only
  split
  case isTrue  => split <;> exact ⟨rfl, rfl, rfl⟩
  case isFalse => split <;> exact ⟨rfl, rfl, rfl⟩

-- A fault line says nothing about the temperatures.
theorem ready_fault (hf : StatusParser.isFaultLine line) :
    s.heaterWait.ready (StatusParser.parseMarlinLine s.status line).2 =
      s.heaterWait.ready s.status := by
  rw [parseMarlinLine_fault hf]
  rfl

theorem handleLine_reported (hf : StatusParser.isFaultLine line) (hj : s.jobActive)
    (hw : s.heaterWait.ready s.status) :
    Reported (Error.fromMarlinLine line).code (s.handleLine line).2 := by
  have report := @handleLine_report s line
  dsimp only at report
  rw [ready_fault hf, if_pos hw, parseMarlinLine_fault hf] at report
  refine ⟨hj, report.state, report.fault, congrArg Error.code report.error, ?_⟩
  simp [handleLine, ready_fault hf, hw, HeaterWait.clear]

-- A heater wait that goes on hides the fault.
theorem handleLine_hidden (hf : StatusParser.isFaultLine line)
    (hw : ¬s.heaterWait.ready s.status) : (s.handleLine line).2.status.state ≠ .error := by
  have report := @handleLine_report s line
  dsimp only at report
  rw [ready_fault hf, if_neg hw] at report
  rw [report.state, (applyStatus_report (active_of_not_ready hw)).1]
  decide

theorem handleLine_keeps_reported (h : Reported code s) (hf : ¬StatusParser.isFaultLine line) :
    Reported code (s.handleLine line).2 := by
  have ⟨status, wait, flow, acks, he, _, report, state⟩ := @handleLine_eq s line
  have ⟨fault, error⟩ := report hf
  obtain ⟨hw, hs⟩ | ⟨hw, _⟩ := state
  case inl =>
    rw [if_neg hf] at hs
    rw [he]
    exact ⟨h.job, hs.trans h.state, fault.trans h.fault, (congrArg Error.code error).trans h.code,
      by simp [hw]⟩
  case inr => exact absurd hw h.wait

theorem handleLine_keeps_hidden (h : s.status.state ≠ .error)
    (hf : ¬StatusParser.isFaultLine line) : (s.handleLine line).2.status.state ≠ .error := by
  have ⟨status, wait, flow, acks, he, _, _, state⟩ := @handleLine_eq s line
  rw [he]
  obtain ⟨_, hs⟩ | ⟨_, _, hs⟩ := state
  case inl =>
    rw [if_neg hf] at hs
    exact hs ▸ h
  case inr => simp [hs]

theorem runtimeLoop_reported (h : Reported code s) {events : List Event}
    (ht : (runtimeLoop allow rounds handled s).2.trace = s.trace ++ events)
    (hf : ∀ e ∈ events, ¬e.isFault) : Reported code (runtimeLoop allow rounds handled s).2 := by
  refine runtimeLoop_keeps (fun _ _ _ _ h => ⟨h.1, h.2, h.3, h.4, h.5⟩)
    (fun _ _ => handleLine_keeps_reported) (fun s detail h ha => ?_) (fun _ => id) h ht hf
  -- The print has failed already, so no response fails it again.
  rw [Status.hasActivePrint, h.state] at ha
  contradiction

theorem runtimeLoop_hidden (h : s.status.state ≠ .error) {events : List Event}
    (ht : (runtimeLoop allow rounds handled s).2.trace = s.trace ++ events)
    (hf : ∀ e ∈ events, ¬e.isFault) : ¬(runtimeLoop allow rounds handled s).2.needsAbort := by
  refine runtimeLoop_keeps (p := fun s => s.status.state ≠ .error) (q := fun s => ¬s.needsAbort)
    (fun _ _ _ _ => id) (fun _ _ => handleLine_keeps_hidden) (fun s detail _ _ => ?_)
    (fun s h => ?_) h ht hf
  case refine_1 => simp [needsAbort, setSerialError, Error.make, isAutoAbort]
  case refine_2 => simp [needsAbort, h]

end Line

section Abort

-- What follows the lines and the abort neither revives the job nor changes the commands of the abort
-- cleanup, and begins no abort.
structure Served (s s' : Service) : Prop where
  job    : ¬s.jobActive → ¬s'.jobActive
  policy : s'.abortCleanup.policy = s.abortCleanup.policy
  trace  : ∃ events, s'.trace = s.trace ++ events ∧ .aborted ∉ events

theorem unsent_no_abort {job : Bool} {producer : Producer} {command : CString} {events : List Event}
    (h : Lifecycle.Unsent job producer command events) : .aborted ∉ events := by
  cases h <;> simp

theorem attempt_no_abort {job : Bool} {producer : Producer} {command : CString}
    {events : List Event} (h : Lifecycle.Attempt job producer command events) :
    .aborted ∉ events := by
  cases h
  case sent     => simp
  case unsent h => exact unsent_no_abort h

theorem silent_no_abort {events : List Event} (h : ∀ e ∈ events, e.isSilent) :
    .aborted ∉ events := by
  intro ha
  have := h _ ha
  contradiction

theorem policyStep_no_abort {l l' : Lifecycle} {events : List Event}
    (h : Lifecycle.PolicyStep l events l') : .aborted ∉ events := by
  cases h
  case fail unsent _  => simp [unsent_no_abort unsent]
  case abortDone hs _ => simp [silent_no_abort hs]
  case finishDone hs _ _ => simp [silent_no_abort hs]
  case probeFail unsent => exact unsent_no_abort unsent
  all_goals simp

theorem policyStep_served {l l' : Lifecycle} {events : List Event}
    (h : Lifecycle.PolicyStep l events l') :
    (¬l.job → ¬l'.job) ∧ (l'.policy .abort).policy = (l.policy .abort).policy := by
  have advanced {kind} : ((l.advance kind).policy .abort).policy = (l.policy .abort).policy := by
    cases kind <;> rfl
  have stopped {kind} : ((l.stop kind).policy .abort).policy = (l.policy .abort).policy := by
    cases kind <;> rfl
  cases h
  case send       => exact ⟨id, advanced⟩
  case fail       => exact ⟨id, stopped⟩
  case finishDone => exact ⟨fun _ => Bool.false_ne_true, rfl⟩
  all_goals exact ⟨id, rfl⟩

theorem manual_served {l l' : Lifecycle} (h : Lifecycle.ManualStep l l') :
    l'.job = l.job ∧ l'.policy = l.policy := by
  cases h <;> exact ⟨rfl, rfl⟩

theorem MotionStep.served (h : MotionStep s s') : Served s s' := by
  cases h
  case quiet h => cases h <;> exact ⟨id, rfl, [], (List.append_nil _).symm, List.not_mem_nil⟩
  case policy h =>
    have ⟨events, ht, step⟩ := h.refines
    have ⟨hj, hp⟩ := policyStep_served step
    exact ⟨hj, hp, events, ht, policyStep_no_abort step⟩
  case manualStatus =>
    have ⟨hj, hp⟩ := manual_served (@refreshManualStatus_manual s)
    refine ⟨fun h h' => h (hj.symm.trans h'), congrArg (fun policy => (policy .abort).policy) hp, [], ?_, nofun⟩
    rw [trace_refreshManualStatus, List.append_nil]
  case statusProbe command _ =>
    have ⟨hl, events, ht, attempt⟩ := @send_attempt s .statusProbe command
    have hj := congrArg Lifecycle.job hl
    exact ⟨fun h h' => h (hj.symm.trans h'), congrArg (fun l => (l.policy .abort).policy) hl, events,
      ht, attempt_no_abort attempt⟩
  case applyWait => exact ⟨id, rfl, [], (List.append_nil _).symm, List.not_mem_nil⟩
  case waitOver  => exact ⟨id, rfl, [], (List.append_nil _).symm, List.not_mem_nil⟩

theorem Served.of_steps (h : MotionSteps s s') : Served s s' := by
  induction h
  case refl => exact ⟨id, rfl, [], (List.append_nil _).symm, List.not_mem_nil⟩
  case tail step ih =>
    have ⟨job, policy, events, ht, ha⟩ := ih
    have ⟨job', policy', events', ht', ha'⟩ := step.served
    refine ⟨fun h => job' (job h), policy'.trans policy, events ++ events', ?_, ?_⟩
    case refine_1 => rw [ht', ht, List.append_assoc]
    case refine_2 => exact fun h => (List.mem_append.mp h).elim ha ha'

theorem served_after {rc : Int} : Served s (s.servePolicies.pollProbes rc).2 :=
  .of_steps (servePolicies_steps.trans (pollProbes_steps rc))

-- A reported fault aborts the job.
theorem pollPolicies_aborts (h : s.needsAbort) {rc : Int} :
    ¬(s.pollPolicies.pollProbes rc).2.jobActive ∧
    (s.pollPolicies.pollProbes rc).2.abortCleanup.policy = .abort ∧
    ∃ events, (s.pollPolicies.pollProbes rc).2.trace = s.trace ++ events ∧ .aborted ∈ events := by
  have hj : s.jobActive := by
    simp only [needsAbort, Bool.and_eq_true] at h
    exact h.1.1.1.1
  have aborted : s.pollPolicies = s.startAbort.servePolicies := by
    rw [pollPolicies, if_pos h, abort, if_neg (by simp [abortable, hj])]
  have lifecycle := @lifecycle_startAbort s
  obtain ⟨events, ht, _⟩ := @trace_startAbort s
  rw [aborted]
  obtain ⟨job, policy, events', ht', _⟩ := @served_after s.startAbort rc
  refine ⟨job ?_, policy.trans ?_, .aborted :: events ++ events', ?_, by simp⟩
  case refine_1 =>
    change ¬s.startAbort.lifecycle.job
    rw [lifecycle]
    exact Bool.false_ne_true
  case refine_2 => exact congrArg (fun l => (l.policy .abort).policy) lifecycle
  case refine_3 => rw [ht', ht, List.append_assoc]

theorem pollPolicies_no_abort (h : ¬s.needsAbort) {rc : Int} :
    ∃ events, (s.pollPolicies.pollProbes rc).2.trace = s.trace ++ events ∧ .aborted ∉ events := by
  rw [pollPolicies, if_neg h]
  exact served_after.trace

-- The reaction to a fault: the job has ended and an abort cleanup that switches both heaters off was
-- begun.
structure Aborts (later : List Event) (s : Service) : Prop where
  job    : ¬s.jobActive
  began  : .aborted ∈ later
  nozzle : ("M104 S0" : CString) ∈ (s.abortCleanup.policy : List CString)
  bed    : ("M140 S0" : CString) ∈ (s.abortCleanup.policy : List CString)

theorem needsAbort_of_reported (h : Reported code s) : s.needsAbort ↔ isAutoAbort code := by
  have ⟨job, state, fault, hc, _⟩ := h
  have : code ≠ .none ∧ isAutoAbort code ↔ isAutoAbort code := by cases code <;> decide
  simpa [needsAbort, job, state, fault, hc] using this

-- The loop from a fault line on that is the last of its poll.
theorem runtimeLoop_fault (hj : s.jobActive) (hn : 0 < s.readLine.1)
    (hf : StatusParser.isFaultLine s.readLine.2.1) :
    ∃ events,
      (runtimeLoop allow (rounds + 1) handled s).2.trace =
        s.trace ++ .line s.readLine.2.1 :: events ∧ .aborted ∉ events ∧
      ((∀ e ∈ events, ¬e.isFault) → ((runtimeLoop allow (rounds + 1) handled s).2.needsAbort ↔
        s.heaterWait.ready s.status ∧ isAutoAbort (Error.fromMarlinLine s.readLine.2.1).code)) := by
  rw [runtimeLoop]
  simp only [if_neg (Int.not_lt.mpr (Int.le_of_lt hn)), if_neg (Int.ne_of_gt hn)]
  generalize hl : s.readLine.2.2.handleLine s.readLine.2.1 = r
  obtain ⟨rc, s₁⟩ := r
  have hs₁ : (s.readLine.2.2.handleLine s.readLine.2.1).2 = s₁ := congrArg Prod.snd hl
  obtain ⟨silent, htr, hs⟩ := @round_trace s.readLine.2.2 allow _ rc s₁ hl
  obtain ⟨flow, serial, es, _, hr | ⟨hactive, detail, hr⟩⟩ := @reactToResponse_cases s₁ allow rc
  case inl =>
    simp only [hr, if_true] at htr ⊢
    have frame : ∀ p : Service → Prop, Framed p → p s₁ →
        p { s₁ with flow := flow, serial := serial, trace := s₁.trace ++ es } :=
      fun _ framed h => framed _ _ _ _ h
    have hs₂ : ({ s₁ with flow := flow, serial := serial, trace := s₁.trace ++ es } : Service).trace =
        s.trace ++ .line s.readLine.2.1 :: silent := htr
    generalize ({ s₁ with flow := flow, serial := serial, trace := s₁.trace ++ es } : Service) = s₂
      at frame hs₂ ⊢
    obtain ⟨later, hlater, ha⟩ := @runtimeLoop_trace s₂ allow rounds (handled + 1)
    refine ⟨silent ++ later, ?_, ?_, fun hfault => ?_⟩
    case refine_1 => rw [hlater, hs₂, List.append_assoc]; rfl
    case refine_2 => exact fun h => (List.mem_append.mp h).elim (silent_no_abort hs) ha
    case refine_3 =>
      have hfault : ∀ e ∈ later, ¬e.isFault := fun e h => hfault e (List.mem_append_right _ h)
      by_cases hw : s.heaterWait.ready s.status
      case pos =>
        have reported : Reported (Error.fromMarlinLine s.readLine.2.1).code s₁ :=
          hs₁ ▸ @handleLine_reported s.readLine.2.2 _ hf hj hw
        have reported := frame _ (fun _ _ _ _ h => ⟨h.1, h.2, h.3, h.4, h.5⟩) reported
        rw [needsAbort_of_reported (runtimeLoop_reported reported hlater hfault)]
        simp [hw]
      case neg =>
        have hidden : s₁.status.state ≠ .error := hs₁ ▸ @handleLine_hidden s.readLine.2.2 _ hf hw
        have hidden := frame (fun s => s.status.state ≠ .error) (fun _ _ _ _ h => h) hidden
        simp [runtimeLoop_hidden hidden hlater hfault, hw]
  case inr =>
    simp only [hr, Bool.false_eq_true, if_false] at htr ⊢
    refine ⟨silent, htr, silent_no_abort hs, fun _ => ?_⟩
    -- Only a print that goes on is failed by a response, so the fault was hidden.
    have hw : ¬s.heaterWait.ready s.status := by
      intro hw
      have reported : Reported (Error.fromMarlinLine s.readLine.2.1).code s₁ :=
        hs₁ ▸ @handleLine_reported s.readLine.2.2 _ hf hj hw
      rw [Status.hasActivePrint, reported.state] at hactive
      contradiction
    simp [needsAbort, setSerialError, Error.make, isAutoAbort, hw]

-- A poll that reads one fault line.
def faultPoll (before : List Op) : Service :=
  (init.run before).connect (.ofLines ["Error:Heater fault"])

-- What such a poll records after the line.
def faultLater (before : List Op) : List Event :=
  (faultPoll before).pollMotion.2.trace.drop ((faultPoll before).trace.length + 1)

end Abort

end Deneb.Service
