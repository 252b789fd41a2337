import DenebModel.Execution.Step
import DenebModel.Primitives.Ranking

namespace Deneb

-- A bound on the outputs that a stream has left: a line of its file makes fewer than `maxCommands`.
def GcodeStream.work (stream : GcodeStream) : Nat :=
  maxCommands * stream.reads.length + stream.pending.length

namespace Service

-- The polls that the prepare stages take at most, each of which hands over a command or changes the
-- stage.
def prepareWork (s : Service) : Nat :=
  match s.jobPrepareStage with
  | .home         => 11 + (prepareHomeCommands.length - s.jobPrepareIndex)
  | .homeDrain    => 10
  | .heat         => 9
  | .startup      => 2 + (s.startupList.length - s.jobStartupIndex)
  | .startupDrain => 1
  | .done         => 0

-- What follows the prepare stages: the file and the finish cleanup, or what is left of the cleanup. A
-- job whose file is closed without a cleanup is given up at the next poll.
def streamWork (s : Service) : Nat :=
  if s.finishCleanup.pending then
    s.finishCleanup.policy.length - s.finishCleanup.index + 2
  else if s.jobStream.isOpen then s.jobStream.work + MotionPolicy.finish.length + 3
  else 1

-- A bound on the polls that find the service idle before the job ends.
def work (s : Service) : Nat :=
  if s.jobActive then s.prepareWork + s.streamWork else 0

def writesSucceed (s : Service) : Bool :=
  !s.serialReady || (s.serial.isOpen && s.serial.writes.all id)

-- Nothing has to be waited for: all packets are acknowledged, the controller has room for another
-- one, the heaters are warm, and the job is neither paused nor behind the G-code queue.
def isIdle (s : Service) : Bool :=
  s.flow.inflight == 0 && s.flow.canSend && s.writesSucceed &&
  s.heaterWait.ready s.status && s.status.state != .error && s.status.state != .paused &&
  s.status.state != .pausing && !s.pauseResumeBusy && !s.gcodeQueueActive

-- The polls that have to get on with the job: those of the streamer, and of the finish cleanup once
-- that has begun.
def advances (s : Service) : Op → Bool
  | .pollJob env _  => !s.finishCleanup.pending && (s.connect env).isIdle
  | .pollMotion env => s.finishCleanup.pending && (s.connect env).pollRuntime.2.isIdle
  | _               => false

-- The number of these polls in a run.
def advancing (s : Service) (ops : List Op) : Nat :=
  Ranking.counted exec advances s ops

end Service
end Deneb
