import DenebModel.Execution.Service

namespace Deneb.Service

open CString BinaryFloat

-- `parse_heater_target`: whether the line sets the bed (or else the nozzle) target, and the target.
def parseHeaterTarget (line : CString) : Option (Bool × BinaryFloat) := do
  let rest := skipSpaces line
  let letter ← rest.head?
  let (code, _) ← Scan.int rest.tail
  guard (toUpper letter = 77 ∧ (code = 104 ∨ code = 140))
  let s ← (strchr line 83) <|> strchr line 115
  let (target, _) ← Scan.float single s.tail
  return (code == 140, if lt target zero then zero else target)

def applyAcceptedHeaterTarget (status : Status) (line : CString) : Status :=
  match parseHeaterTarget line with
  | none                 => status
  | some (true, target)  => { status with bedTSet := target }
  | some (false, target) => { status with headTSet := target }

def hasLifecycleWork (s : Service) : Bool :=
  s.jobActive || s.abortCleanup.pending || s.finishCleanup.pending

def heaterTargetsActive (s : Service) : Bool :=
  lt zero s.status.bedTSet || lt zero s.status.headTSet

-- `deneb_gcode_control_refresh_manual_status`
def refreshManualStatus (s : Service) : Service :=
  if s.hasLifecycleWork || s.gcodeQueueActive || s.heaterWait.active ||
      s.status.state == .error || s.status.state == .complete then s
  else if s.heaterTargetsActive then
    { s with status := { s.status with state := .preparing, req := "PREHEATING" } }
  else { s with status := { s.status with state := .idle, req := "Idle" } }

def applyQueuedHeaterTargets (s : Service) : Service :=
  let status := s.gcodeQueue.foldl
    (fun status entry => applyAcceptedHeaterTarget status entry.command) s.status
  refreshManualStatus { s with status := status }

def clearQueue (s : Service) : Service :=
  { s with
    gcodeQueue       := []
    gcodeQueueIndex  := 0
    gcodeQueueActive := false }

-- `DENEB_PRINTSVC_GCODE_QUEUE_COMMANDS`
def gcodeQueueCommands : Nat := 64

-- The queue entries of a rewritten line; only its first command is waited for.
def rewriteEntries (rewrite : GcodeRewrite) : List GcodeQueueEntry :=
  rewrite.commands.zipIdx.map fun (command, i) =>
    { command    := fit maxGcodeLine command
      waitBed    := i == 0 && rewrite.waitForBed
      waitNozzle := i == 0 && rewrite.waitForNozzle
      waitTarget := rewrite.waitTarget }

-- `enqueue_rewrite` for each line of a command; `none` if the queue is too short.
def enqueueLines : List CString → List GcodeQueueEntry → Option (List GcodeQueueEntry)
  | [], queue            => some queue
  | line :: lines, queue =>
    let queue := queue ++ rewriteEntries (.line line)
    if gcodeQueueCommands < queue.length then none else enqueueLines lines queue

-- The command of the entry was handed over.
def advanceQueue (s : Service) (entry : GcodeQueueEntry) : Service :=
  let s := { s with
    status          := applyAcceptedHeaterTarget s.status entry.command
    gcodeQueueIndex := s.gcodeQueueIndex + 1 }
  if entry.waitBed then
    applyWait { s with heaterWait := .startBed entry.waitTarget (ofNat 1) }
  else if entry.waitNozzle then
    applyWait { s with heaterWait := .startHead entry.waitTarget (ofNat 1) }
  else s

def failQueue (s : Service) (rc : Int) : Service :=
  let s := s.clearQueue.clearWait
  { s with status := { s.status with error := Error.make (sendErrorCode rc) "gcode failed" } }

def sendQueue : Nat → Service → Int × Service
  | 0, s          => (1, s.clearQueue.refreshManualStatus)
  | rounds + 1, s =>
    match s.gcodeQueue[s.gcodeQueueIndex]? with
    | none       => (1, s.clearQueue.refreshManualStatus)
    | some entry =>
      if s.windowClosed then (0, s)
      else
        let (rc, s) := s.send .gcodeQueue entry.command
        if rc = 0 then
          if entry.waitBed || entry.waitNozzle then (0, s.advanceQueue entry)
          else sendQueue rounds (s.advanceQueue entry)
        else if rc = MotionSender.flowFull then (0, s)
        else (-1, s.failQueue rc)

-- `deneb_gcode_control_poll`
def pollGcode (s : Service) : Int × Service :=
  if !s.gcodeQueueActive then (0, s)
  else if s.heaterWait.active then
    if !s.heaterWait.ready s.status then (0, s.applyWait)
    else sendQueue s.gcodeQueue.length s.clearWait
  else sendQueue s.gcodeQueue.length s

-- `deneb_gcode_control_run`
def runGcode (s : Service) (lines : List CString) : Reply × Service :=
  if s.gcodeQueueActive then (.error "gcode already active", s)
  else
    let s := s.clearQueue
    match enqueueLines lines [] with
    | none       => (.error "gcode queue full", s)
    | some queue =>
      let s := applyQueuedHeaterTargets { s with gcodeQueue := queue }
      if queue.isEmpty then (.ok "gcode accepted", s.refreshManualStatus)
      else
        let (rc, s) := pollGcode { s with gcodeQueueActive := true }
        if rc < 0 then (.error "gcode failed", s)
        else (.ok "gcode accepted", s.refreshManualStatus)

end Deneb.Service
