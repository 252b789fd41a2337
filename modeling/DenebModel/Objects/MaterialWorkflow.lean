import Mathlib.Logic.Relation

-- `common/print/material_workflow.c`
namespace Deneb

namespace MaterialWorkflow

inductive Operation
  | none
  | unload
  | load
  | change
  deriving DecidableEq

inductive State
  | idle
  | prepared
  | busy
  | finalizing
  | cancelled
  | final
  deriving DecidableEq

end MaterialWorkflow

-- The fields after `deneb_material_workflow_init`, unless they are given.
structure MaterialWorkflow where
  operation           : MaterialWorkflow.Operation := .none
  state               : MaterialWorkflow.State     := .idle
  printingBlocked     : Bool                       := false
  heating             : Bool                       := false
  moving              : Bool                       := false
  targetTempC         : Int                        := 0
  acceptedTargetTempC : Int                        := 0
  targetSent          : Bool                       := false
  deriving DecidableEq

namespace MaterialWorkflow

variable (wf : MaterialWorkflow)

def init : MaterialWorkflow := {}

-- `DENEB_MATERIAL_WORKFLOW_DEFAULT_TEMP_C`
def defaultTempC : Int := 210

-- There is no result if the operation is refused.
def prepare (op : Operation) : Option MaterialWorkflow :=
  if wf.state ≠ .idle ∧ wf.state ≠ .final then none
  else if op ≠ .unload ∧ op ≠ .load ∧ op ≠ .change then none
  else some {
    operation           := op
    state               := .prepared
    printingBlocked     := true
    heating             := false
    moving              := false
    targetTempC         := defaultTempC
    acceptedTargetTempC := 0
    targetSent          := false }

def start : Option MaterialWorkflow :=
  if wf.state ≠ .prepared then none
  else some { wf with
    state               := .busy
    acceptedTargetTempC := wf.targetTempC
    heating             := 0 < wf.targetTempC
    targetSent          := 0 < wf.targetTempC }

def setTarget (targetTempC : Int) (sent : Bool) : Option MaterialWorkflow :=
  if targetTempC < 0 then none
  else if wf.state = .idle ∨ wf.state = .cancelled then none
  else
    let targetSent := sent && 0 < targetTempC
    let state :=
      if targetSent ∧ (wf.state = .prepared ∨ wf.state = .final) then .busy else wf.state
    some { wf with
      targetTempC         := targetTempC
      acceptedTargetTempC := if sent then targetTempC else 0
      targetSent          := targetSent
      heating             := targetSent
      state               := if targetTempC = 0 ∧ ¬wf.moving then .prepared else state }

def editTarget (targetTempC : Int) : Option MaterialWorkflow :=
  if targetTempC < 0 then none
  else if wf.state = .idle ∨ wf.state = .cancelled then none
  else if wf.targetSent then some { wf with targetTempC }
  else some { wf with
    targetTempC
    heating := false
    state   := if targetTempC = 0 ∧ ¬wf.moving then .prepared else wf.state }

def beginMove (op : Operation) : Option MaterialWorkflow :=
  if op ≠ .unload ∧ op ≠ .load ∧ op ≠ .change then none
  else if wf.state ≠ .busy ∧ wf.state ≠ .prepared ∧ wf.state ≠ .final then none
  else if wf.moving then none
  else some { wf with operation := op, state := .finalizing, heating := false, moving := true }

def completeMove : Option MaterialWorkflow :=
  if wf.state ≠ .finalizing ∨ ¬wf.moving then none
  else
    let target := if wf.targetSent then wf.acceptedTargetTempC else wf.targetTempC
    some { wf with
      operation := .change
      state     := if 0 < target then .busy else .prepared
      heating   := wf.targetSent
      moving    := false }

def advance : Option MaterialWorkflow :=
  wf.beginMove wf.operation

def cancel : Option MaterialWorkflow :=
  if wf.state ≠ .busy ∧ wf.state ≠ .prepared ∧ wf.state ≠ .finalizing then none
  else some { wf with
    state               := .cancelled
    heating             := false
    moving              := false
    targetTempC         := 0
    acceptedTargetTempC := 0
    targetSent          := false }

def finalize : Option MaterialWorkflow :=
  if wf.state ≠ .finalizing ∧ wf.state ≠ .cancelled then none
  else some {
    operation           := .none
    state               := .final
    printingBlocked     := false
    heating             := false
    moving              := false
    targetTempC         := 0
    acceptedTargetTempC := 0
    targetSent          := false }

inductive Call
  | prepare (op : Operation)
  | start
  | setTarget (targetTempC : Int) (sent : Bool)
  | editTarget (targetTempC : Int)
  | beginMove (op : Operation)
  | completeMove
  | advance
  | cancel
  | finalize

def run : Call → Option MaterialWorkflow
  | .prepare op                 => wf.prepare op
  | .start                      => wf.start
  | .setTarget targetTempC sent => wf.setTarget targetTempC sent
  | .editTarget targetTempC     => wf.editTarget targetTempC
  | .beginMove op               => wf.beginMove op
  | .completeMove               => wf.completeMove
  | .advance                    => wf.advance
  | .cancel                     => wf.cancel
  | .finalize                   => wf.finalize

-- A call that is refused leaves the workflow as it is.
def exec (call : Call) : MaterialWorkflow :=
  (wf.run call).getD wf

-- The workflows after any sequence of calls, each of which is allowed.
def Reaches (ok : MaterialWorkflow → Call → Prop) : MaterialWorkflow → Prop :=
  Relation.ReflTransGen (fun wf wf' => ∃ call, ok wf call ∧ wf.exec call = wf') init

end MaterialWorkflow
end Deneb
