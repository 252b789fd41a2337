import DenebModel.Execution.Service

namespace Deneb.Service

open CString

-- The slots whose packets a response acknowledged.
def acknowledgedSlots (before after : FlowControl) : List Nat :=
  before.pendingSlots.filter fun i => !(after.slot i).pending

-- `deneb_motion_observer_handle_line`
def handleLine (s : Service) (line : CString) : Int × Service :=
  let status := (StatusParser.parseMarlinLine s.status line).2
  let ready := s.heaterWait.ready status
  let wait := if ready then s.heaterWait.clear else s.heaterWait
  let status := if ready then status else s.heaterWait.applyStatus status
  let (rc, flow, _) := s.flow.handleResponse line
  (rc, { s with
    status     := if rc = 0 then status else { status with flowLastResponse := fit 96 line }
    heaterWait := wait
    flow       := flow
    trace      := s.trace ++ .line line :: (acknowledgedSlots s.flow flow).map .acknowledged })

-- The error that `deneb_motion_runtime_poll` reports for a response during an active print.
def setSerialError (s : Service) (detail : CString) : Service :=
  { s with status := { s.status with
      state := .error
      error := Error.make .serial detail } }

def resendPending (s : Service) : Int × Service :=
  let (rc, serial) := MotionSender.resendPending s.flow s.serial s.serialReady
  (rc, { s with serial := serial })

-- What follows a line with the return code of its observer: whether the loop goes on.
def reactToResponse (s : Service) (allowSequenceResync : Bool) (flowRc : Int) : Bool × Service :=
  if flowRc = 2 then
    let (rc, s) := s.resendPending
    if rc ≠ 0 && s.status.hasActivePrint then (false, s.setSerialError "resend failed")
    else (true, s)
  else if flowRc = 3 then
    let s := s.resyncToExpected
    if s.status.hasActivePrint && !allowSequenceResync then
      (false, s.setSerialError "flow control sequence desync")
    else (true, s)
  else if flowRc < 0 && s.status.hasActivePrint then
    (false, s.setSerialError "flow control rejected response")
  else (true, s)

def readLine (s : Service) : Int × CString × Service :=
  let (n, line, serial) := s.serial.readLine serialLine
  (n, line, { s with serial := serial })

-- The loop of `deneb_motion_runtime_poll`. Every line takes at least one read from the device.
def runtimeLoop (allowSequenceResync : Bool) : Nat → Int → Service → Int × Service
  | 0, handled, s          => (handled, s)
  | rounds + 1, handled, s =>
    let (n, line, s) := s.readLine
    if n < 0 then (-1, s)
    else if n = 0 then (handled, s)
    else
      let (flowRc, s) := s.handleLine line
      let (continues, s) := s.reactToResponse allowSequenceResync flowRc
      if continues then runtimeLoop allowSequenceResync rounds (handled + 1) s else (-1, s)

-- `deneb_service_context_motion_runtime`
def allowSequenceResync (s : Service) : Bool :=
  s.jobActive || s.gcodeQueueActive || s.abortCleanup.pending || s.finishCleanup.pending

-- `deneb_motion_runtime_poll`
def pollRuntime (s : Service) : Int × Service :=
  if !s.serialReady then (0, s)
  else runtimeLoop s.allowSequenceResync (s.serial.input.length + 1) 0 s

end Deneb.Service
