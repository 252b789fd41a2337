import DenebModel.Execution.Service
import DenebModel.Link.Basic

namespace Deneb

open CString FlowControl

-- A line with which the controller reports that it expects another sequence.
def reportsDesync (line : CString) : Bool :=
  parseSyncPacket line == .none && (parseProtoExpectedSequence line).isSome

-- Events with which a job begins or is given up, wholly or in part.
def Event.isBreak : Event → Bool
  | jobAccepted _ | aborted | policyFailed _ => true
  | _                                        => false

-- Events after which the packets are numbered as before.
def Event.isCalm : Event → Bool
  | line text => !reportsDesync text
  | e         => !e.isBreak

-- What an event does to the flow control: a command takes a slot, and a line is taken as a response.
def Event.replay (flow : FlowControl) : Event → FlowControl
  | handed _ command _ _ => (flow.preparePacket command MotionSender.packetSize).flow
  | line text            => (flow.handleResponse text).2.1
  | _                    => flow

def replay (flow : FlowControl) (events : List Event) : FlowControl :=
  events.foldl Event.replay flow

-- Events that the flow control has no part in.
def Event.isUnseen : Event → Bool
  | handed .. | line _ => false
  | _                  => true

def Event.command : Event → Option CString
  | handed _ command _ _ => some command
  | _                    => none

def handedCommands (events : List Event) : List CString :=
  events.filterMap Event.command

namespace Link

-- `deneb_motion_sender_send_gcode` on the link.
def hand (link : Link) (command : CString) : Link :=
  let p := link.flow.preparePacket command MotionSender.packetSize
  { link with
    flow         := p.flow
    prepared     := link.prepared ++ [command]
    toController := link.toController ++ [p.packet] }

-- The link while the host records the events. In between, the controller and the two links take any
-- steps of their own.
inductive Carries (link : Link) : List Event → Link → Prop
  | start : Carries link [] link
  | outside :
    Carries link events s → Step s s' → s'.flow = s.flow → s'.prepared = s.prepared →
    Carries link events s'
  | handed (producer command slot job) :
    Carries link events s → (s.flow.preparePacket command MotionSender.packetSize).rc = 0 →
    Carries link (events ++ [.handed producer command slot job]) (s.hand command)
  | line (writes) :
    Carries link events s → s.toHost = text :: rest →
    Carries link (events ++ [.line text]) (s.deliver text rest writes)
  | unseen (e) : Carries link events s → e.isUnseen → Carries link (events ++ [e]) s

-- The controller takes all packets off its link.
def receiveAll (link : Link) (freeSpace : UInt8) : Link :=
  link.toController.foldl (fun link packet => link.receive packet link.toController.tail freeSpace) link

-- The link while the host records the events, when nothing is lost and the controller is prompt.
def serve (freeSpace : UInt8) : List Event → Link → Option Link
  | [], link          => some link
  | e :: events, link =>
    match e with
    | .handed _ command _ _ =>
      if (link.flow.preparePacket command MotionSender.packetSize).rc = 0
      then serve freeSpace events ((link.hand command).receiveAll freeSpace) else none
    | .line text =>
      if link.toHost.head? = some text
      then serve freeSpace events ((link.deliver text link.toHost.tail []).receiveAll freeSpace) else none
    | _ => serve freeSpace events link

end Link
end Deneb
