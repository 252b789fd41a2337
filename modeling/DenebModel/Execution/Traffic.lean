import DenebModel.Execution.Basic
import Mathlib.Logic.Relation

namespace Deneb

open CString

-- The condition of the window under which a producer hands over a command. The probes of the status
-- do not wait for the window.
def FlowControl.admits (flow : FlowControl) : Producer → Bool
  | .statusProbe => true
  | .macroRunner => flow.canSend && flow.inflight < streamWindow
  | _            => !(flow.hasPendingBarrier || !flow.canSend || streamWindow ≤ flow.inflight)

-- The service as the flow control sees it: the packets in its window, the record, and which of the
-- producers have a right to it.
structure Traffic where
  flow   : FlowControl
  trace  : List Event
  job    : Bool
  queue  : List GcodeQueueEntry
  finish : Bool
  abort  : Bool

def Service.traffic (s : Service) : Traffic where
  flow   := s.flow
  trace  := s.trace
  job    := s.jobActive
  queue  := s.gcodeQueue
  finish := s.finishCleanup.pending
  abort  := s.abortCleanup.pending

namespace Traffic

def record (t : Traffic) (events : List Event) : Traffic :=
  { t with trace := t.trace ++ events }

def prepare (t : Traffic) (command : CString) : FlowControl.Prepared :=
  t.flow.preparePacket command MotionSender.packetSize

-- A policy is given up.
def stop (t : Traffic) (kind : PolicyKind) : Traffic :=
  { t with
    finish := t.finish && kind ≠ .finish
    abort  := t.abort && kind ≠ .abort }

-- The packets in the window are dropped.
def clear (t : Traffic) (events : List Event) : Traffic :=
  { t with
    flow  := t.flow.clearInflight
    trace := t.trace ++ events ++ t.flow.pendingSlots.map .cleared }

-- A response is taken by the flow control.
def respond (t : Traffic) (text : CString) : Traffic :=
  let flow := (t.flow.handleResponse text).2.1
  { t with
    flow  := flow
    trace := t.trace ++ .line text :: (Service.acknowledgedSlots t.flow flow).map .acknowledged }

-- The packets in the window are dropped, and the sequence starts again where the controller expects it.
def resync (t : Traffic) : Traffic :=
  { t with
    flow  := t.flow.resyncToExpected
    trace := t.trace ++ t.flow.pendingSlots.map .resynced }

inductive Step : Traffic → Traffic → Prop
  | note (event) : event = .drained ∨ event = .policyDone .pause ∨ event = .policyDone .resume →
    Step t (t.record [event])
  | send (p command) (failed : Bool) :
    t.flow.admits p → (t.prepare command).rc = 0 →
    Step t { t with
      flow  := (t.prepare command).flow
      trace := t.trace ++ .handed p command (t.prepare command).slot t.job ::
        if failed then [.writeFailed] else [] }
  -- A command of a policy is too long for a packet.
  | refuse (kind command) : (t.prepare command).rc = -1 →
    Step t ({ t with flow := (t.prepare command).flow }.record [.policyFailed kind] |>.stop kind)
  | fail (kind) : Step t (t.record [.policyFailed kind] |>.stop kind)
  | line (text) : (t.flow.handleResponse text).1 ≠ 3 → Step t (t.respond text)
  | desync (text) : (t.flow.handleResponse text).1 = 3 → Step t (t.respond text).resync
  | abort :
    Step t { t with job := false, queue := [], finish := false, abort := true, trace := t.trace ++ [.aborted] }
  | abortUnready :
    Step t { t.clear [.aborted] with job := false, queue := [], finish := false, abort := false }
  | abortDone : t.abort → Step t { t.clear [.policyDone .abort] with abort := false }
  | endJob :
    Step t { t.clear (if t.finish then [.policyFailed .finish] else []) with job := false, finish := false }
  | beginFinish : t.job → Step t { t with finish := true }
  | finishDone : t.finish → t.flow.inflight = 0 →
    Step t { t.clear [.policyDone .finish] with job := false, finish := false }
  | accept (stream) : ¬t.job →
    Step t { t.clear [] with
      job    := true
      finish := false
      abort  := false
      trace  := (t.clear []).trace ++ [.jobAccepted stream] }
  | queue (queue) : (∀ entry ∈ queue, entry.command.length ≤ 255) → Step t { t with queue := queue }

abbrev Steps : Traffic → Traffic → Prop :=
  Relation.ReflTransGen Step

end Traffic
end Deneb
