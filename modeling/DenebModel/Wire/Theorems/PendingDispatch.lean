import DenebModel.Execution.JobControl
import DenebModel.Wire.PendingDispatch

-- When a pending job is consumed.
namespace Deneb.Backend

open CString PendingJobFile

-- The frame that a planned action sends.
def frameOf (plan : PendingActionPlan) (startAllowed : Bool) : Option CString :=
  match plan.kind with
  | .abort => planFrame "ABORT" "\x7b\x7d" 4096
  | .start =>
    if !startAllowed || plan.path.isEmpty then none
    else Command.formatJob plan.path (jobSourceOrDefault plan.source) (jobUuidOrDefault plan.uuid)
      plan.cloudJobId .zero .zero 4096

-- The frame that an instruction about a pending file sends, if it sends any.
def sentFrame (content instruction : CString) (startAllowed : Bool) : Option CString := do
  let job ← load content
  let plan ← job.planAction instruction
  frameOf plan startAllowed

-- The answer of the print service to that frame.
def answer (service : PrintService) (content instruction : CString) (startAllowed : Bool) :
    Option Reply :=
  (sentFrame content instruction startAllowed).bind service

def Accepted (reply : Option Reply) : Prop :=
  ∃ message, reply = some (.ok message)

def Rejected (reply : Option Reply) : Prop :=
  ∃ message, reply = some (.error message)

-- The call fails and the file is what it was.
def Untouched (content : CString) (result : Int × Option CString) : Prop :=
  result.1 ≠ 0 ∧ result.2 = some content

section

variable {service : PrintService} {content instruction : CString} {startAllowed : Bool}
variable {plan : PendingActionPlan} {job : PendingJobFile} {results : FinishResults}

theorem rc_eq :
    (match plan.kind with
      | .abort => abort service
      | .start => dispatchStart service plan startAllowed) =
      match (frameOf plan startAllowed).bind service with
      | none   => -1
      | some _ => 0 := by
  rw [frameOf]
  cases plan.kind
  case abort =>
    simp only [abort, sendCommand]
    cases planFrame "ABORT" "\x7b\x7d" 4096 <;> rfl
  case start =>
    cases startAllowed
    · rfl
    · simp only [dispatchStart, Bool.not_true, Bool.false_eq_true, if_false, Bool.false_or]
      split_ifs
      · rfl
      · rw [sendJob]
        split
        · rename_i h
          rw [h]
          rfl
        · rename_i h
          rw [h]
          rfl

-- What a call does once its action is planned depends on the answer only by its being there.
theorem dispatch_of_plan (hl : load content = some job) (hp : job.planAction instruction = some plan) :
    dispatchPending service content instruction startAllowed results =
      match answer service content instruction startAllowed with
      | none   => (-1, some content)
      | some _ => finishAction plan content results := by
  have ha : answer service content instruction startAllowed =
      (frameOf plan startAllowed).bind service := by
    simp [answer, sentFrame, hl, hp]
  have hrc := @rc_eq service startAllowed plan
  simp only [dispatchPending, hl, hp, ha]
  cases hk : plan.kind
  all_goals
    simp only [hk] at hrc ⊢
    rw [hrc]
    cases (frameOf plan startAllowed).bind service <;> rfl

theorem dispatch_of_no_answer (h : answer service content instruction startAllowed = none) :
    Untouched content (dispatchPending service content instruction startAllowed results) := by
  rcases hl : load content with _ | job
  · simp [dispatchPending, hl, Untouched]
  · rcases hp : job.planAction instruction with _ | plan
    · simp [dispatchPending, hl, hp, Untouched]
    · rw [dispatch_of_plan hl hp, h]
      exact ⟨(by decide : (-1 : Int) ≠ 0), rfl⟩

-- The file system does what it is asked to.
def working : FinishResults where
  opened  := true
  written := none
  removed := true

theorem clear_working : (clear content working).1 = 0 := rfl

theorem finishAction_working : (finishAction plan content working).1 = 0 := by
  rw [finishAction]
  dsimp only
  generalize (if plan.markHandledAfterSuccess then markHandled content working
    else (0, content)) = marked
  split_ifs
  · exact clear_working
  · exact clear_working
  · rfl

theorem dispatch_of_answer {reply : Reply}
    (h : answer service content instruction startAllowed = some reply) :
    (dispatchPending service content instruction startAllowed working).1 = 0 := by
  obtain ⟨frame, hf, -⟩ := Option.bind_eq_some_iff.mp h
  rw [sentFrame] at hf
  obtain ⟨job, hl, hf⟩ := Option.bind_eq_some_iff.mp hf
  obtain ⟨plan, hp, -⟩ := Option.bind_eq_some_iff.mp hf
  rw [dispatch_of_plan hl hp, h]
  exact finishAction_working

end

-- Whatever the file system returns, a pending job is consumed by success only, unless the print
-- service rejects what it is sent.
theorem consumed_by_success_iff {service : PrintService} {content instruction : CString}
    {startAllowed : Bool} :
    (∀ results, Accepted (answer service content instruction startAllowed) ∨
        Untouched content (dispatchPending service content instruction startAllowed results)) ↔
      ¬ Rejected (answer service content instruction startAllowed) := by
  constructor
  · rintro h ⟨message, hm⟩
    rcases h working with ⟨message', hok⟩ | ⟨hrc, -⟩
    · rw [hm] at hok
      cases hok
    · exact hrc (dispatch_of_answer hm)
  · intro h results
    rcases ha : answer service content instruction startAllowed with _ | ⟨message⟩ | ⟨message⟩
    · exact .inr (dispatch_of_no_answer ha)
    · exact .inl ⟨message, rfl⟩
    · exact absurd ⟨message, ha⟩ h

-- A pending job with a conflict, and a print service that is printing another job.
def waitingJob : CString :=
  "[\x7b\"path\":\"/home/3D/cube.gcode\",\"status\":\"wait_user_action\",\"deneb_tracker\":7\x7d]"

def busyService : PrintService := fun _ =>
  some (({ jobActive := true } : Service).accept { file := "/home/3D/cube.gcode" }).1

-- The job is rejected, and its file is marked as handled.
theorem rejected_job_consumed :
    answer busyService waitingJob "PREPARE" true = some (.error "job already active") ∧
      dispatchPending busyService waitingJob "PREPARE" true working = (0, some (ofString
        "[\x7b\"path\":\"/home/3D/cube.gcode\",\"status\":\"pre_print\",\"deneb_tracker\":7\x7d]")) := by
  decide +kernel

end Deneb.Backend
