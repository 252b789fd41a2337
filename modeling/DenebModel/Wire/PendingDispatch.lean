import DenebModel.Execution.Service
import DenebModel.Wire.CommandFormat
import DenebModel.Wire.PendingJob

-- `common/print/pending_job_dispatch.c` with the operations of `web/src/backend_zmq.c`
namespace Deneb

open CString Json BinaryFloat

inductive PendingActionKind
  | start
  | abort
  deriving DecidableEq

-- `deneb_pending_job_action_plan_t`
structure PendingActionPlan where
  kind                    : PendingActionKind
  path                    : CString := []
  source                  : CString := []
  uuid                    : CString := []
  cloudJobId              : CString := []
  markHandledAfterSuccess : Bool    := false
  clearAfterSuccess       : Bool    := false
  deriving DecidableEq

-- `deneb_print_job_source_or_default`
def jobSourceOrDefault (source : CString) : CString :=
  if source.isEmpty ∨ source = ofString "none" then "Cura" else source

-- `deneb_print_job_uuid_or_default`
def jobUuidOrDefault (uuid : CString) : CString :=
  if uuid.isEmpty ∨ uuid = ofString "none" then "deneb-current-job" else uuid

namespace PendingJobFile

-- `deneb_pending_job_file_plan_action`
def planAction (job : PendingJobFile) (instruction : CString) : Option PendingActionPlan :=
  if !job.isPending then none
  else if instruction = ofString "PREPARE" then
    if job.path.isEmpty then none
    else some {
      kind                    := .start
      path                    := fit 1024 job.path
      source                  := fit 32 (jobSourceOrDefault job.source)
      uuid                    := fit 64 (jobUuidOrDefault job.uuid)
      cloudJobId              := fit 96 job.cloudJobId
      markHandledAfterSuccess := true
    }
  else if instruction = ofString "ABORT" then some { kind := .abort, clearAfterSuccess := true }
  else none

-- What the calls to the file system return, and what a write that fails leaves in the file.
structure FinishResults where
  opened  : Bool
  written : Option CString
  removed : Bool

-- The loop of `deneb_pending_job_file_mark_handled`, with as many rounds as there are bytes: the text
-- that is written, and whether it is different.
def markLoop : Nat → CString → CString × Bool
  | 0, _          => ([], false)
  | rounds + 1, p =>
    let required : CString := "\"configuration_changes_required\""
    let handled : CString := "\"configuration_changes_handled\""
    let waiting : CString := "\"status\":\"wait_user_action\""
    let prePrint : CString := "\"status\":\"pre_print\""
    match p with
    | []     => ([], false)
    | c :: s =>
      if startsWith p required then
        let (text, _) := markLoop rounds (p.drop required.length)
        (handled ++ text, true)
      else if startsWith p waiting then
        let (text, _) := markLoop rounds (p.drop waiting.length)
        (prePrint ++ text, true)
      else
        let (text, changed) := markLoop rounds s
        (c :: text, changed)

-- `deneb_pending_job_file_mark_handled`: its return value and the content of the file.
def markHandled (content : CString) (results : FinishResults) : Int × CString :=
  match readFile content 4096 with
  | none     => (-1, content)
  | some buf =>
    if !contains buf "\"configuration_changes_required\"" &&
        !contains buf "\"status\":\"wait_user_action\"" then (0, content)
    else if !results.opened then (-1, content)
    else
      let (text, changed) := markLoop buf.length buf
      match results.written with
      | some left => (-1, left)
      | none      => (if changed then 0 else -1, text)

-- `deneb_pending_job_file_clear`: its return value and the content of the file, if it is still there.
def clear (content : CString) (results : FinishResults) : Int × Option CString :=
  if results.removed then (0, none) else (-1, some content)

-- `deneb_pending_job_file_finish_action`
def finishAction (plan : PendingActionPlan) (content : CString) (results : FinishResults) :
    Int × Option CString :=
  let (rc, content) :=
    if plan.markHandledAfterSuccess then markHandled content results else (0, content)
  if rc < 0 then clear content results
  else if plan.clearAfterSuccess then clear content results
  else (0, some content)

end PendingJobFile

-- How the print service answers the frames that it is sent: with a reply, or not at all.
abbrev PrintService := CString → Option Reply

namespace Backend

-- `backend_zmq_send_frame`
def sendFrame (service : PrintService) (frame : CString) : Int :=
  match service frame with
  | none   => -1
  | some _ => 0

-- `deneb_command_format_raw`
def formatRaw (verb payload : CString) (size : Nat) : Option CString :=
  if verb.isEmpty ∨ size = 0 then none
  else
    let text := verb ++ "<" ++ payload
    if text.length < size then some text else none

-- `deneb_command_plan_frame`; the action verbs have no format of their own.
def planFrame (verb payload : CString) (size : Nat) : Option CString :=
  formatRaw verb payload size

-- `backend_zmq_send_command`
def sendCommand (service : PrintService) (verb payload : CString) : Int :=
  match planFrame verb payload 4096 with
  | none       => -1
  | some frame => sendFrame service frame

-- `backend_zmq_send_job`
def sendJob (service : PrintService) (path source uuid cloudJobId : CString)
    (bedTarget headTarget : BinaryFloat) : Int :=
  match Command.formatJob path source uuid cloudJobId bedTarget headTarget 4096 with
  | none       => -1
  | some frame => sendFrame service frame

-- `backend_zmq_abort`
def abort (service : PrintService) : Int :=
  sendCommand service "ABORT" "\x7b\x7d"

-- `dispatch_start`, with `deneb_print_job_start_plan_prepare`
def dispatchStart (service : PrintService) (plan : PendingActionPlan) (startAllowed : Bool) : Int :=
  if !startAllowed then -1
  else if plan.path.isEmpty then -1
  else
    sendJob service plan.path (jobSourceOrDefault plan.source) (jobUuidOrDefault plan.uuid)
      plan.cloudJobId zero zero

-- `deneb_pending_job_dispatch_from_path` for a file with that content: its return value and what is
-- left of the file. `startAllowed` is what `backend_zmq_print_start_allowed` returns.
def dispatchPending (service : PrintService) (content instruction : CString) (startAllowed : Bool)
    (results : PendingJobFile.FinishResults) : Int × Option CString :=
  match PendingJobFile.load content with
  | none     => (-1, some content)
  | some job =>
    match job.planAction instruction with
    | none      => (-1, some content)
    | some plan =>
      let rc : Int :=
        match plan.kind with
        | .abort => abort service
        | .start => dispatchStart service plan startAllowed
      if rc ≠ 0 then (-1, some content) else PendingJobFile.finishAction plan content results

end Backend

end Deneb
