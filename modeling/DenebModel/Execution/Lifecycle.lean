import DenebModel.Execution.Step
import DenebModel.Primitives.Labelled

namespace Deneb

open CString BinaryFloat Labelled

-- The part of the service that decides which of its producers hands over the next command. The texts,
-- temperatures, packets and files are left out.
@[ext]
structure Lifecycle where
  state          : PrintState
  -- The reported error is one for which an active job is aborted.
  faulted        : Bool
  job            : Bool
  queue          : Bool
  -- Whether a command of the G-code queue that is not sent yet asks for a heater wait.
  queueWaits     : Bool
  waits          : Bool
  probe          : Bool
  positionSaved  : Bool
  abortRequested : Bool
  policy         : PolicyKind → PolicyRun

-- An entry whose command makes the service wait for a heater.
def GcodeQueueEntry.waits (entry : GcodeQueueEntry) : Bool :=
  (entry.waitBed || entry.waitNozzle) && lt zero entry.waitTarget

namespace Service

def unsentWaits (s : Service) : Bool :=
  (s.gcodeQueue.drop s.gcodeQueueIndex).any GcodeQueueEntry.waits

def faulted (s : Service) : Bool :=
  s.status.fault && s.status.error.code != .none && isAutoAbort s.status.error.code

def lifecycle (s : Service) : Lifecycle where
  state          := s.status.state
  faulted        := s.faulted
  job            := s.jobActive
  queue          := s.gcodeQueueActive
  queueWaits     := s.unsentWaits
  waits          := s.heaterWait.active
  probe          := s.pausePositionProbePending
  positionSaved  := s.pausedPositionValid
  abortRequested := s.abortRequested
  policy         := s.policy

end Service

-- A line of the macro asks for a heater wait.
def Service.MacroCommand.mayWait (cmd : Service.MacroCommand) : Prop :=
  ∃ file lines stream, cmd.file = some file ∧ GcodeStream.Emits (.open file) lines stream ∧
    stream.asksWait ∧ lt zero stream.lastWaitTarget

-- Events that say nothing about the producers.
def Event.isSilent : Event → Bool
  | acknowledged _ | resynced _ | cleared _ | drained => true
  | _                                                 => false

-- A line of the controller that reports a fault.
def Event.isFault : Event → Bool
  | line text => StatusParser.isFaultLine text
  | _         => false

def Event.isHanded : Event → Bool
  | handed .. => true
  | _         => false

def probeCommands : List CString :=
  ["M115", "M105", "M114"]

namespace Lifecycle

def pending (l : Lifecycle) (kind : PolicyKind) : Bool :=
  (l.policy kind).pending

def busy (l : Lifecycle) : Bool :=
  l.probe || l.pending .pause || l.pending .resume

def setPolicy (l : Lifecycle) (kind : PolicyKind) (run : PolicyRun) : Lifecycle :=
  { l with policy := fun k => if k = kind then run else l.policy k }

def begin (l : Lifecycle) (kind : PolicyKind) (policy : MotionPolicy) : Lifecycle :=
  l.setPolicy kind { pending := true, policy := policy, index := 0 }

def advance (l : Lifecycle) (kind : PolicyKind) : Lifecycle :=
  l.setPolicy kind { l.policy kind with index := (l.policy kind).index + 1 }

def stop (l : Lifecycle) (kind : PolicyKind) : Lifecycle :=
  l.setPolicy kind { l.policy kind with pending := false, index := 0 }

-- The next command of a policy that is worked off.
def Next (l : Lifecycle) (kind : PolicyKind) (command : CString) : Prop :=
  l.pending kind ∧ (l.policy kind).policy[(l.policy kind).index]? = some command

-- The record of a command that could not be sent: it was refused, or its packet could not be written.
inductive Unsent (job : Bool) (producer : Producer) (command : CString) : List Event → Prop
  | refused : Unsent job producer command []
  | failed (slot) : Unsent job producer command [.handed producer command slot job, .writeFailed]

-- The record of an attempt to send a command.
inductive Attempt (job : Bool) (producer : Producer) (command : CString) : List Event → Prop
  | sent (slot) : Attempt job producer command [.handed producer command slot job]
  | unsent : Unsent job producer command events → Attempt job producer command events

inductive QueueStep : Lifecycle → List Event → Lifecycle → Prop
  | send (command slot) (waits queueWaits : Bool) :
    l.queue → ¬l.waits → (waits ∨ queueWaits → l.queueWaits) →
    QueueStep l [.handed .gcodeQueue command slot l.job] { l with
      queueWaits := queueWaits
      waits      := waits
      state      := if waits then .preparing else l.state }
  | fail (command) :
    l.queue → ¬l.waits → Unsent l.job .gcodeQueue command events →
    QueueStep l events { l with
      queue      := false
      queueWaits := false
      waits      := false
      faulted    := false }
  | done : l.queue → ¬l.waits → QueueStep l [] { l with queue := false, queueWaits := false }

inductive ManualStep : Lifecycle → Lifecycle → Prop
  | keep : ManualStep l l
  | set (state) :
    ¬l.job → ¬l.pending .abort → ¬l.pending .finish → ¬l.queue → ¬l.waits → l.state ≠ .error →
    l.state ≠ .complete → state = .preparing ∨ state = .idle →
    ManualStep l { l with state := state }

inductive WaitStep : Lifecycle → Lifecycle → Prop
  | apply : l.waits → WaitStep l { l with state := .preparing }
  | ended : WaitStep l { l with waits := false }

inductive GcodeStep : Lifecycle → List Event → Lifecycle → Prop
  | queue : QueueStep l events l' → GcodeStep l events l'
  | wait : WaitStep l l' → GcodeStep l [] l'
  | manual : ManualStep l l' → GcodeStep l [] l'

-- A line of the controller is read.
inductive LineStep (text : CString) : Lifecycle → Lifecycle → Prop
  | ready (faulted) :
    (¬StatusParser.isFaultLine text → faulted = l.faulted) →
    LineStep text l { l with
      waits   := false
      state   := if StatusParser.isFaultLine text then .error else l.state
      faulted := faulted }
  | waiting (faulted) :
    l.waits → (¬StatusParser.isFaultLine text → faulted = l.faulted) →
    LineStep text l { l with
      state   := .preparing
      faulted := faulted }

def aborted (l : Lifecycle) (pending : Bool) : Lifecycle where
  state          := if pending then .aborting else .idle
  faulted        := l.faulted && pending
  job            := false
  queue          := false
  queueWaits     := false
  waits          := false
  probe          := false
  positionSaved  := false
  abortRequested := false
  policy         := fun kind => match kind with
    | .abort => { pending := pending, policy := .abort, index := 0 }
    | _      => { l.policy kind with pending := false, index := 0 }

-- The state that the end of a pause policy sets.
def pausedState : PrintState → PrintState
  | .preparing | .printing | .pausing | .paused => .paused
  | state                                       => state

inductive PolicyStep : Lifecycle → List Event → Lifecycle → Prop
  | send (kind slot) :
    l.Next kind command →
    PolicyStep l [.handed (.policy kind) command slot l.job] (l.advance kind)
  | fail (kind) (waits : Bool) :
    l.Next kind command → Unsent l.job (.policy kind) command events → (waits → l.waits) →
    PolicyStep l (events ++ [.policyFailed kind]) { l.stop kind with
      state          := .error
      faulted        := false
      waits          := waits
      abortRequested := if kind = .abort then false else l.abortRequested }
  | abortDone (events) :
    l.pending .abort → (∀ e ∈ events, e.isSilent) →
    PolicyStep l (.policyDone .abort :: events) { l.stop .abort with
      state          := .idle
      faulted        := false
      waits          := false
      abortRequested := false }
  | finishDone (events) :
    l.pending .finish → (l.policy .finish).policy.length ≤ (l.policy .finish).index →
    (∀ e ∈ events, e.isSilent) →
    PolicyStep l (.policyDone .finish :: events) { l.stop .finish with
      state          := .complete
      job            := false
      waits          := false
      abortRequested := false }
  | pauseDone :
    l.pending .pause →
    PolicyStep l [.policyDone .pause] { l.stop .pause with state := pausedState l.state }
  | resumeDone :
    l.pending .resume →
    PolicyStep l [.policyDone .resume] { l.stop .resume with
      state         := .printing
      positionSaved := false }
  | heat (slot) :
    l.Next .resume command →
    PolicyStep l [.handed (.policy .resume) command slot l.job] { l.advance .resume with
      waits := true
      state := .preparing }
  | leftover (slot) :
    l.Next .resume command →
    PolicyStep l [.handed (.policy .resume) command slot l.job] { l.advance .resume with
      waits := false }
  | probe (slot) : l.probe → PolicyStep l [.handed .pauseProbe "M114" slot l.job] l
  | probeFail :
    l.probe → Unsent l.job .pauseProbe "M114" events →
    PolicyStep l events { l with probe := false, state := .error, faulted := false }
  | probed (policy) :
    l.probe → PolicyStep l [] { l.begin .pause policy with probe := false, positionSaved := true }
  | unprobed : l.probe → PolicyStep l [] { l with probe := false, positionSaved := false }

structure Streams (l : Lifecycle) : Prop where
  active    : l.job
  notBusy   : ¬l.busy
  notQueue  : ¬l.queue
  notError  : l.state ≠ .error
  notPaused : l.state ≠ .paused ∧ l.state ≠ .pausing
  notFinish : ¬l.pending .finish

inductive StreamStep : Lifecycle → List Event → Lifecycle → Prop
  | prepare (command slot) : StreamStep l [.handed .streamer command slot l.job] l
  | prepareFail (command) :
    Unsent l.job .streamer command events →
    StreamStep l events { l with state := .error, faulted := false }
  | stage (events) (waits : Bool) :
    (∀ e ∈ events, e.isSilent) → (waits → l.waits) → StreamStep l events { l with waits := waits }
  | readFail (events) :
    (∀ e ∈ events, e.isSilent) →
    StreamStep l events { l.setPolicy .finish { l.policy .finish with pending := false } with
      state   := .error
      faulted := true
      job     := false
      waits   := false }
  | finish :
    StreamStep l [] { l.begin .finish .finish with
      state := .printing
      waits := false }
  | stream (command slot) (waits : Bool) :
    StreamStep l [.handed .streamer command slot l.job] { l with
      state := if waits then .preparing else .printing
      waits := waits }
  | streamFail (command) (tail) :
    Unsent l.job .streamer command events → (∀ e ∈ tail, e.isSilent) →
    StreamStep l (events ++ tail) { l.setPolicy .finish { l.policy .finish with pending := false } with
      state   := .error
      faulted := false
      job     := false
      waits   := false }

-- The record of a finish cleanup that ends with its job.
def dropFinish (l : Lifecycle) : List Event :=
  if l.pending .finish then [.policyFailed .finish] else []

inductive PollStep : Lifecycle → List Event → Lifecycle → Prop
  | silent (events) : (∀ e ∈ events, e.isSilent) → PollStep l events l
  | line (text) (acks) :
    LineStep text l l' → (∀ e ∈ acks, e.isSilent) → PollStep l (.line text :: acks) l'
  | error : PollStep l [] { l with state := .error, faulted := false }
  | abort (events pending) :
    (l.job ∧ l.state = .error ∧ l.faulted) ∨ l.abortRequested → (∀ e ∈ events, e.isSilent) →
    PollStep l (.aborted :: events) (l.aborted pending)
  | dropAbort : PollStep l [] { l with abortRequested := false }
  | policy : PolicyStep l events l' → PollStep l events l'
  | manual : ManualStep l l' → PollStep l [] l'
  | probe (command) :
    command ∈ probeCommands → Attempt l.job .statusProbe command events → PollStep l events l
  | wait : WaitStep l l' → PollStep l [] l'

inductive JobStep : Lifecycle → List Event → Lifecycle → Prop
  | poll : PollStep l events l' → JobStep l events l'
  | queue : ¬l.busy → QueueStep l events l' → JobStep l events l'
  | errorExit (events) :
    l.job → ¬l.busy → ¬l.queue → l.state = .error → (∀ e ∈ events, e.isSilent) →
    JobStep l (l.dropFinish ++ events)
      { l.setPolicy .finish { l.policy .finish with pending := false } with
        job            := false
        waits          := false
        abortRequested := false }
  | streaming :
    l.job → ¬l.busy → ¬l.queue → l.pending .finish → l.state ≠ .error →
    l.state ≠ .paused ∧ l.state ≠ .pausing → JobStep l [] { l with state := .printing }
  | stream : Streams l → StreamStep l events l' → JobStep l events l'

-- Steps of a macro; `mayWait` says whether a line of it asks for a heater wait.
inductive MacroStep (mayWait : Prop) : Lifecycle → List Event → Lifecycle → Prop
  | poll : PollStep l events l' → MacroStep mayWait l events l'
  | send (command) : Attempt l.job .macroRunner command events → MacroStep mayWait l events l
  | startWait (waits : Bool) : (waits → mayWait) → MacroStep mayWait l [] { l with waits := waits }
  | fail : MacroStep mayWait l [] { l with faulted := false }

def jobBusy (l : Lifecycle) : Bool :=
  l.job || l.pending .finish || l.pending .abort || l.queue || l.busy

-- A line of a GCODE command asks for a heater wait.
def gcodeMayWait (lines : List CString) : Prop :=
  ∃ line ∈ lines, ∃ entry ∈ Service.rewriteEntries (.line line), entry.waits

def started (l : Lifecycle) (waits : Bool) : Lifecycle :=
  { l with
    state          := .preparing
    faulted        := false
    job            := true
    waits          := waits
    probe          := false
    positionSaved  := false
    abortRequested := false
    policy         := fun kind => match kind with
      | .abort => { l.policy kind with pending := false }
      | _      => { l.policy kind with pending := false, index := 0 } }

-- What a call of the main loop does to the lifecycle, and what it records.
inductive Exec : Service.Op → Lifecycle → List Event → Lifecycle → Prop
  | keep (op) : Exec op l [] l
  | pollMotion (env) : Steps PollStep l events l' → Exec (.pollMotion env) l events l'
  | pollJob (env poll) : Steps JobStep l events l' → Exec (.pollJob env poll) l events l'
  | queueFull (lines env latency) :
    ¬l.queue →
    Exec (.command (.gcode lines) env latency) l [] { l with queue := false, queueWaits := false }
  | gcode (lines env latency) (queue waits : Bool) :
    ¬l.queue → (waits → gcodeMayWait lines) →
    ManualStep { l with queue := false, queueWaits := waits } l₁ →
    Steps GcodeStep { l₁ with queue := queue } events l' →
    Exec (.command (.gcode lines) env latency) l events l'
  | runMacro (cmd env latency) :
    Steps (MacroStep cmd.mayWait) l events l' →
    Exec (.command (.runMacro cmd) env latency) l events l'
  | job (cmd env latency events stream waits) :
    ¬l.jobBusy → (∀ e ∈ events, e.isSilent) →
    Exec (.command (.job cmd) env latency) l (events ++ [.jobAccepted stream]) (l.started waits)
  | noFile (cmd env latency faulted) :
    ¬l.jobBusy → Exec (.command (.job cmd) env latency) l [] { l with faulted := faulted }
  | noAbort (env latency) :
    Exec (.command .abort env latency) l [] { l with abortRequested := false }
  | abort (env latency events pending) :
    (∀ e ∈ events, e.isSilent) →
    Exec (.command .abort env latency) l (.aborted :: events) (l.aborted pending)
  | pausing (env latency) :
    ¬l.busy → l.job → l.state = .preparing ∨ l.state = .printing →
    Exec (.command .pause env latency) l [] { l with
      state         := .pausing
      probe         := true
      positionSaved := false }
  | paused (env latency) :
    ¬l.busy → l.job → l.state = .pausing ∨ l.state = .paused →
    Exec (.command .pause env latency) l [] { l with
      state         := .paused
      probe         := true
      positionSaved := false }
  | pausedIdle (env latency positionSaved) :
    ¬l.busy → ¬l.job → pausedState l.state = .paused →
    Exec (.command .pause env latency) l [] { l with
      state         := .paused
      positionSaved := positionSaved }
  | resume (env latency) :
    ¬l.busy → l.state = .paused → ¬l.positionSaved →
    Exec (.command .resume env latency) l [] { l with
      state := if l.waits then .preparing else .printing }
  | resumePolicy (env latency policy) (heated : Bool) :
    ¬l.busy → l.state = .paused → l.positionSaved →
    Exec (.command .resume env latency) l [] { l.begin .resume policy with
      state := if heated then .preparing else .printing }

end Lifecycle
end Deneb
