import DenebModel.Primitives.CString

-- `common/print/buildplate_level.c`
namespace Deneb

namespace BuildplateLevel

inductive Step
  | step1
  | step2
  | step3
  | step4
  | finish
  deriving DecidableEq

-- The step with the next number; `FINISH` has the last one.
def Step.next : Step → Option Step
  | .step1  => some .step2
  | .step2  => some .step3
  | .step3  => some .step4
  | .step4  => some .finish
  | .finish => none

inductive State
  | none
  | prepared
  | moving
  | atTarget
  | final
  | cancelled
  deriving DecidableEq

-- `deneb_buildplate_level_plan_step`, with the file that it names.
def planStep : Step → CString
  | .step1  => "buildplate_level_step1.gcode"
  | .step2  => "buildplate_level_step2.gcode"
  | .step3  => "buildplate_level_step3.gcode"
  | .step4  => "buildplate_level_step4.gcode"
  | .finish => "buildplate_level_finish.gcode"

-- The fields after `deneb_buildplate_level_workflow_init`, unless they are given.
structure Workflow where
  state       : State := .none
  currentStep : Step  := .step1
  stepCount   : Nat   := 0
  moving      : Bool  := false
  deriving DecidableEq

namespace Workflow

variable (wf : Workflow)

-- There is no result if the operation is refused.
def prepare : Option Workflow :=
  if wf.state ≠ .none ∧ wf.state ≠ .final ∧ wf.state ≠ .cancelled then none
  else some { state := .prepared }

def start : Option Workflow :=
  if wf.state ≠ .prepared then none
  else some { wf with state := .moving, currentStep := .step1, moving := true }

def advance (nextStep : Step) : Option Workflow :=
  if wf.state ≠ .atTarget then none
  else if wf.currentStep = .finish then none
  else if wf.currentStep.next ≠ some nextStep then none
  else some { wf with state := .moving, currentStep := nextStep, moving := true }

def completeMove : Option Workflow :=
  if wf.state ≠ .moving ∨ ¬wf.moving then none
  else some { wf with
    moving    := false
    stepCount := wf.stepCount + 1
    state     := if wf.currentStep = .finish then .final else .atTarget }

def cancel : Option Workflow :=
  if wf.state ≠ .prepared ∧ wf.state ≠ .moving ∧ wf.state ≠ .atTarget then none
  else some { wf with state := .cancelled, moving := false }

def nextStep : Option Step :=
  if wf.state = .prepared then some .step1
  else if wf.state = .atTarget then wf.currentStep.next
  else none

-- `level_prepare_if_needed` of the screen
def prepareIfNeeded : Option Workflow :=
  if wf.state = .none ∨ wf.state = .final ∨ wf.state = .cancelled then wf.prepare else some wf

end Workflow

-- What the print service is asked to run, and what it answers.
inductive Mark
  | sent (file : CString)
  | answered (file : CString) (rc : Int)
  deriving DecidableEq

end BuildplateLevel

open BuildplateLevel

-- The variables of `ui/src/screens/screen_level.c`, the threads that wait for an answer, those that only
-- have to clear `level_macro_running`, and a record of what went to the print service and came back.
structure LevelScreen where
  workflow       : Workflow  := {}
  macroTimer     : Bool      := false
  macroRunning   : Bool      := false
  macroDone      : Bool      := false
  macroRc        : Int       := 0
  macroCancelled : Bool      := false
  calls          : List Step := []
  ends           : Nat       := 0
  record         : List Mark := []
  deriving DecidableEq

namespace LevelScreen

variable (s : LevelScreen)

-- `level_next_cb`; `pthread_create` may fail.
def next (ready created : Bool) : LevelScreen :=
  if !ready || s.macroRunning then s
  else
    match s.workflow.prepareIfNeeded with
    | none    => s
    | some wf =>
      match wf.nextStep with
      | none      => { s with workflow := wf }
      | some step =>
        match if wf.state = .prepared then wf.start else wf.advance step with
        | none    => { s with workflow := wf }
        | some wf =>
          if created then { s with
            workflow       := wf
            macroRc        := 0
            macroDone      := false
            macroCancelled := false
            macroRunning   := true
            macroTimer     := true
            calls          := s.calls ++ [step]
            record         := s.record ++ [.sent (planStep step)] }
          else { s with
            workflow       := wf.cancel.getD wf
            macroRc        := -1
            macroDone      := false
            macroCancelled := false
            macroRunning   := false }

-- `level_cancel_cb`
def cancel : LevelScreen :=
  if s.workflow.state = .moving then { s with macroCancelled := true }
  else { s with workflow := s.workflow.cancel.getD s.workflow }

-- `level_macro_thread`, when `backend_send_macro` returns in one of the threads.
def answer (i : Nat) (rc : Int) : LevelScreen :=
  match s.calls[i]? with
  | none      => s
  | some step => { s with
    calls     := s.calls.eraseIdx i
    ends      := s.ends + 1
    macroRc   := rc
    macroDone := true
    record    := s.record ++ [.answered (planStep step) rc] }

-- The last statement of `level_macro_thread`.
def threadEnd : LevelScreen :=
  if s.ends = 0 then s else { s with ends := s.ends - 1, macroRunning := false }

-- `level_macro_timer_cb`, as long as there is a timer.
def tick : LevelScreen :=
  if !s.macroTimer || !s.macroDone then s
  else
    let s := { s with macroDone := false, macroTimer := false }
    let s :=
      if s.macroCancelled then
        { s with macroRc := 0, workflow := s.workflow.cancel.getD s.workflow }
      else if s.macroRc = 0 then
        { s with workflow := s.workflow.completeMove.getD s.workflow }
      else if s.workflow.state = .moving then
        { s with workflow := s.workflow.cancel.getD s.workflow }
      else s
    { s with macroCancelled := false }

-- `level_create`
def create : LevelScreen :=
  if s.workflow.state = .none then { s with workflow := (Workflow.prepare {}).getD {} } else s

-- `level_destroy`
def destroy : LevelScreen :=
  if s.macroTimer && !s.macroRunning then { s with macroTimer := false } else s

inductive Event
  | next (ready created : Bool)
  | cancel
  | answer (i : Nat) (rc : Int)
  | threadEnd
  | tick
  | create
  | destroy

def step : Event → LevelScreen
  | .next ready created => s.next ready created
  | .cancel             => s.cancel
  | .answer i rc        => s.answer i rc
  | .threadEnd          => s.threadEnd
  | .tick               => s.tick
  | .create             => s.create
  | .destroy            => s.destroy

def run (events : List Event) : LevelScreen :=
  events.foldl step s

end LevelScreen
end Deneb
