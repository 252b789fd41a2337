import DenebModel.Cloud.Connector
import DenebModel.Primitives.History

-- What the record of a connector is expected to show.
namespace Deneb.Cloud

-- The last connection response in the session.
def Event.response (last : Option CString) : Event → Option CString
  | opened         => none
  | received msg _ => if isConnectionResponse msg then some msg else last
  | _              => last

def lastResponse (events : List Event) : Option CString :=
  events.foldl Event.response none

-- The printer was asked to connect, in this process or shortly before it.
def Asked (fresh : Bool) (events : List Event) : Prop :=
  fresh = true ∨ .commanded .connect ∈ events

def GivesPin (events : List Event) (pin : CString) : Prop :=
  ∃ msg, lastResponse events = some msg ∧ (pinOf msg).found = true ∧ (pinOf msg).text = pin

-- A PIN is only published while it has to be entered. Somebody has asked for it, and it is the one
-- of the last connection response of the session.
def ShowsPin (fresh : Bool) (before : List Event) (e : Event) : Prop :=
  ∀ state pin ts, e = .published state pin ts → pin ≠ [] →
    state = .enterPin ∧ Asked fresh before ∧ GivesPin before pin

-- The messages from which the connector takes that the account is connected.
def isSign (msg : CString) : Bool :=
  if isConnectionResponse msg then
    !(pinOf msg).found && !CloudMessage.jsonHasTopLevelKey msg "payload"
  else if hasType msg "status_request" then !CloudMessage.jsonHasTopLevelKey msg "payload"
  else hasType msg "cluster_account_status" && hasUser msg

def SignSince (events : List Event) (ts : Int) : Prop :=
  ∃ msg u, .received msg u ∈ events ∧ isSign msg = true ∧ ts - u ≤ statusRequestStaleMs

-- The status is only published as connected for two minutes after a sign of that.
def ShowsSign (before : List Event) (e : Event) : Prop :=
  ∀ pin ts, e = .published .connected pin ts → SignSince before ts

-- How often the connector has waited since the last session.
def Event.attempts (n : Nat) : Event → Nat
  | opened   => 0
  | waited _ => n + 1
  | _        => n

def attempts (events : List Event) : Nat :=
  events.foldl Event.attempts 0

def Doubles (before : List Event) (e : Event) : Prop :=
  ∀ seconds, e = .waited seconds → seconds = min (2 ^ attempts before) maxReconnectWait

-- What was done since the last message.
def Event.work (done : List Operation) : Event → List Operation
  | received _ _     => []
  | worked operation => done ++ [operation]
  | _                => done

def lastWork (events : List Event) : List Operation :=
  events.foldl Event.work []

-- A file is only handed over for a job that the idle printer was told to fetch, and after the check of
-- its build volume.
def Submits (before : List Operation) (operation : Operation) : Prop :=
  ∀ path name uuid jobId code, operation = .upload path name uuid jobId code →
    isGuid uuid = true ∧ jobId ≠ [] ∧ .status true ∈ before ∧ .validate path 0 ∈ before ∧
    ∃ url source, .download url source 0 ∈ before

def SubmitsChecked (before : List Event) (e : Event) : Prop :=
  ∀ operation, e = .worked operation → Submits (lastWork before) operation

-- The file that an operation creates.
def Operation.created : Operation → Option CString
  | download _ path _  => some path
  | extract _ target _ => some target
  | _                  => none

def Removes (operation : Operation) (after : List Operation) : Prop :=
  ∀ path, operation.created = some path → .unlink path ∈ after

-- Every file is removed again before the request is answered.
def CleansUp (e : Event) (after : List Event) : Prop :=
  ∀ operation, e = .worked operation →
    ∃ work text rest, after = work.map .worked ++ .sent text :: rest ∧ Removes operation work

-- A session is given up in a turn in which a message is read that names a cluster.
def Turn.isLate (turn : Turn) : Bool :=
  turn.instructions.contains .disconnect && 0 < turn.ready && turn.read = 0 &&
  isConnectionResponse turn.msg && (clusterIdOf turn.msg).found &&
  !(uciLine 160 (clusterIdOf turn.msg).text).isEmpty

end Deneb.Cloud
