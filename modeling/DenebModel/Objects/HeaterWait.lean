import DenebModel.Objects.Status

namespace Deneb

open BinaryFloat

-- `deneb_print_temp_target_ready`
def tempTargetReady (current target tolerance : BinaryFloat) : Bool :=
  if le target zero then true
  else
    let tolerance := if le tolerance zero then ofNat 1 else tolerance
    le (sub single target tolerance) current

structure HeaterWait where
  bedTarget  : BinaryFloat := zero
  headTarget : BinaryFloat := zero
  tolerance  : BinaryFloat := ofNat 1
  waitBed    : Bool        := false
  waitHead   : Bool        := false
  active     : Bool        := false
  deriving DecidableEq

namespace HeaterWait

def usedTolerance (tolerance : BinaryFloat) : BinaryFloat :=
  if lt zero tolerance then tolerance else ofNat 1

def start (bedTarget headTarget tolerance : BinaryFloat) : HeaterWait where
  bedTarget  := bedTarget
  headTarget := headTarget
  tolerance  := usedTolerance tolerance
  waitBed    := lt zero bedTarget
  waitHead   := lt zero headTarget
  active     := lt zero bedTarget || lt zero headTarget

def startBed (bedTarget tolerance : BinaryFloat) : HeaterWait where
  bedTarget  := bedTarget
  headTarget := zero
  tolerance  := usedTolerance tolerance
  waitBed    := lt zero bedTarget
  waitHead   := false
  active     := lt zero bedTarget

def startHead (headTarget tolerance : BinaryFloat) : HeaterWait where
  bedTarget  := zero
  headTarget := headTarget
  tolerance  := usedTolerance tolerance
  waitBed    := false
  waitHead   := lt zero headTarget
  active     := lt zero headTarget

def ready (wait : HeaterWait) (status : Status) : Bool :=
  if !wait.active then true
  else
    (!wait.waitBed || tempTargetReady status.bedTCur wait.bedTarget wait.tolerance) &&
    (!wait.waitHead || tempTargetReady status.headTCur wait.headTarget wait.tolerance)

def applyStatus (wait : HeaterWait) (status : Status) : Status :=
  if !wait.active then status
  else { status with
    state    := .preparing
    bedTSet  := if wait.waitBed then wait.bedTarget else status.bedTSet
    headTSet := if wait.waitHead then wait.headTarget else status.headTSet
    req      := if status.req.isEmpty then PrintControl.reqForPhase .preparing else status.req }

def clear (wait : HeaterWait) : HeaterWait :=
  { wait with active := false }

end HeaterWait
end Deneb
