import DenebModel.Cloud.Requests
import DenebModel.Wire.Msgpack
import Mathlib.Logic.Relation

-- `dfsvc/src/main.c`: the connection to the cloud.
namespace Deneb.Cloud

open CString CloudMessage
open Msgpack (Instruction)

-- `DF_WS_PING_INTERVAL_MS`, `DF_WS_PING_TIMEOUT_MS`, `DF_STATUS_REQUEST_STALE_MS` and
-- `DF_PAIR_REQUEST_TTL_SECONDS`, and the interval at which the status is published.
def pingIntervalMs : Int := 10000
def pingTimeoutMs : Int := 30000
def statusRequestStaleMs : Int := 120000
def pairRequestTtlSeconds : Int := 120
def statusIntervalMs : Int := 5000

-- The seconds after which the time between two attempts to connect does not grow.
def maxReconnectWait : Nat := 120

-- What the connector does and what reaches it, in that order. The times are readings of the
-- monotonic clock.
inductive Event
  | commanded (instruction : Instruction)
  | published (state : Msgpack.State) (pin : CString) (ts : Int)
  | stored (clusterId : CString)
  | opened
  | closed
  | received (msg : CString) (ts : Int)
  | worked (operation : Operation)
  | sent (text : CString)
  | waited (seconds : Nat)
  deriving DecidableEq

-- The variables of `main`, the settings and the file that outlive the process, and a record of
-- events. Within a session, `online` holds.
structure Connector where
  stop                 : Bool          := false
  finished             : Bool          := false
  wantConnect          : Bool
  pairingRequested     : Bool
  state                : Msgpack.State
  pin                  : CString       := []
  nextStatusPublish    : Int           := 0
  reconnectWaitSeconds : Nat           := 1
  online               : Bool          := false
  nextPing             : Int           := 0
  lastRx               : Int           := 0
  lastStatusRequest    : Int           := 0
  clusterId            : CString
  serviceEnabled       : Bool          := true
  pairRequest          : Option Int
  log                  : List Event    := []

-- Who the printer is.
structure Identity where
  hostGuid    : CString := []
  hostName    : CString := []
  hostVersion : CString := []
  internalIp  : CString := []

-- What a round of one of the loops of `main` meets: whether a signal has arrived before it, the
-- keys of the messages on the bus, the clocks, whether the socket can be opened and written to, and
-- the message that is read from it.
structure Turn where
  signal   : Bool              := false
  frames   : List (List UInt8) := []
  time     : Int               := 0
  now      : Int               := 0
  url      : CString           := "wss://api.ultimaker.com/gateway/v1/socket"
  opens    : Bool              := true
  opened   : Int               := 0
  identity : Identity          := {}
  pings    : Bool              := true
  ready    : Int               := 0
  read     : Int               := 0
  rx       : Int               := 0
  msg      : CString           := []
  handled  : Int               := 0
  answers  : Answers           := {}

-- A setting as `uci_get` reads it into a buffer.
def uciLine (size : Nat) (value : CString) : CString :=
  ((fit size (value.takeWhile (· ≠ 10))).reverse.dropWhile fun c => c == 10 || c == 13).reverse

structure Url where
  host : CString
  port : CString
  path : CString
  deriving DecidableEq

-- The host and the port in front of the path.
def splitPort (authority : CString) : CString × Option CString :=
  match strchr authority 58 with
  | some p => (authority.take (authority.length - p.length), some p.tail)
  | none   => (authority, none)

-- `parse_url`, which accepts no scheme but `wss`.
def parseUrl (url : CString) : Option Url := do
  let p ← strstr url "://"
  if url.take (url.length - p.length) ≠ "wss" then none
  let path := strchr (p.drop 3) 47
  let (host, port) := splitPort ((p.drop 3).take ((p.drop 3).length - (path.getD []).length))
  if host.isEmpty ∨ 128 ≤ host.length then none
  if port.any fun text => text.isEmpty || 8 ≤ text.length then none
  return ⟨host, port.getD "443", fit 256 (path.getD "/")⟩

-- The instruction of an rpc request.
def instructionOf (frame : List UInt8) : Option Instruction :=
  match Msgpack.Program.dfsvc.readKeyParts frame with
  | none       => none
  | some parts =>
    if parts.action ≠ "rpc-request" then none
    else if startsWith parts.target "digitalfactory::connector::connect" then some .connect
    else if startsWith parts.target "digitalfactory::connector::disconnect" then some .disconnect
    else none

def Turn.instructions (turn : Turn) : List Instruction :=
  turn.frames.filterMap instructionOf

def Turn.requestsConnection (turn : Turn) : Bool :=
  turn.instructions.contains .connect

def hasType (msg type : CString) : Bool :=
  contains msg (ofString "\"type\":\"" ++ type ++ [34]) ||
  contains msg (ofString "\"type\": \"" ++ type ++ [34])

def isConnectionResponse (msg : CString) : Bool :=
  hasType msg "connection_response"

def pinOf (msg : CString) : StrValue :=
  jsonStrValue msg "pin_code" 64

def clusterIdOf (msg : CString) : StrValue :=
  jsonStrValue msg "cluster_id" 160

def hasUser (msg : CString) : Bool :=
  let user := jsonStrValue msg "user_id" 128
  user.found && !user.text.isEmpty

namespace Connector

def record (c : Connector) (e : Event) : Connector :=
  { c with log := c.log ++ [e] }

def recordAll (c : Connector) (events : List Event) : Connector :=
  { c with log := c.log ++ events }

-- `publish_status` for the current state
def publish (c : Connector) (ts : Int) : Connector :=
  c.record (.published c.state c.pin ts)

def enter (c : Connector) (state : Msgpack.State) (pin : CString) (ts : Int) : Connector :=
  publish { c with state, pin } ts

def setClusterId (c : Connector) (value : CString) : Connector :=
  { c with clusterId := value }.record (.stored value)

section Requests

def command (c : Connector) (instruction : Instruction) : Connector :=
  let c := c.record (.commanded instruction)
  match instruction with
  | .connect    => { c with wantConnect := true }
  | .disconnect => { c with wantConnect := false }.setClusterId []

-- `poll_connector_commands`
def pollConnectorCommands (c : Connector) (turn : Turn) : Connector :=
  turn.instructions.foldl command c

-- The request of a connection, for which the file is created.
def requestPairing (c : Connector) (time : Int) : Connector :=
  { c with pairingRequested := true, pairRequest := some time }

-- The beginning of a round of both loops.
def poll (c : Connector) (turn : Turn) : Connector :=
  let c := c.pollConnectorCommands turn
  if turn.requestsConnection then c.requestPairing turn.time else c

end Requests

section Messages

-- The connection is given up, and the cloud is forgotten.
def forget (c : Connector) : Connector :=
  { c.setClusterId [] with wantConnect := false, serviceEnabled := false, pairRequest := none }

def storeClusterId (c : Connector) (msg : CString) : Connector :=
  if (clusterIdOf msg).found then c.setClusterId (clusterIdOf msg).text else c

def connect (c : Connector) (ts : Int) : Connector :=
  { c with lastStatusRequest := ts }.enter .connected [] ts

-- A `connection_response` in `handle_cloud_message`.
def connectionResponse (c : Connector) (msg : CString) (ts : Int) : Connector :=
  if (pinOf msg).found then
    if !c.pairingRequested then c.forget.enter .disconnected [] ts
    else { c.storeClusterId msg with pairRequest := none }.enter .enterPin (pinOf msg).text ts
  else if jsonHasTopLevelKey msg "payload" then
    { c.storeClusterId msg with pairRequest := none }.enter .enterPin [] ts
  else c.connect ts

-- A `status_request` in `handle_cloud_message`.
def statusRequest (c : Connector) (msg response : CString) (ts : Int) : Connector :=
  if jsonHasTopLevelKey msg "payload" then c
  else
    let c := if c.state = .connected then { c with lastStatusRequest := ts } else c
    c.record (.sent (fit 8192 response))

def accountConfirm (actionId : CString) : CString :=
  fit 384 (ofString "\x7b\"payload\":\x7b\"action_id\":\"" ++
    Json.dfsvcEscapeString (some actionId) 256 ++
    ofString "\",\"status\":\"success\"\x7d,\"type\":\"cluster_account_status_confirm\"\x7d")

def confirmAccount (c : Connector) (msg : CString) : Connector :=
  let actionId := jsonStrValue msg "action_id" 128
  if actionId.found then c.record (.sent (accountConfirm actionId.text)) else c

-- `handle_cluster_account_status`
def clusterAccountStatus (c : Connector) (msg : CString) (ts : Int) : Connector :=
  let c := c.confirmAccount msg
  if hasUser msg then { c with pairRequest := none }.connect ts
  else if c.state ≠ .enterPin then
    { { c.forget with lastStatusRequest := 0 }.enter .disconnected [] ts with stop := true }
  else c

def work (c : Connector) (handled : List Operation × CString) : Connector :=
  c.recordAll (handled.1.map .worked ++ [.sent handled.2])

def received (c : Connector) (turn : Turn) : Connector :=
  c.record (.received turn.msg turn.handled)

-- `handle_cloud_message`
def handleCloudMessage (c : Connector) (turn : Turn) : Connector :=
  let msg := turn.msg
  let c := c.received turn
  if isConnectionResponse msg then c.connectionResponse msg turn.handled
  else if hasType msg "status_request" then c.statusRequest msg turn.answers.response turn.handled
  else if hasType msg "print_request" then c.work (handlePrintRequest msg turn.answers)
  else if hasType msg "print_job_action_request" then
    c.work (handlePrintJobActionRequest msg turn.answers)
  else if hasType msg "printer_action_request" then
    c.work (handlePrinterActionRequest msg turn.answers)
  else if hasType msg "cluster_account_status" then c.clusterAccountStatus msg turn.handled
  else c

end Messages

section Sessions

-- `build_connection_request`
def buildConnectionRequest (c : Connector) (identity : Identity) : CString :=
  let clusterId := uciLine 128 c.clusterId
  let cluster : CString :=
    if clusterId.isEmpty then []
    else fit 288 (ofString "\"cluster_id\":\"" ++ Json.dfsvcEscapeString (some clusterId) 256 ++
      ofString "\",")
  fit 1024 (ofString "\x7b\"payload\":\x7b\"capabilities\":[\"cluster_account_status\",\"connect_with_cluster_id\",\"status\",\"rename\",\"update_firmware\",\"printer_faults\",\"print_job_action\",\"print_job_action_response\"]," ++
    cluster ++ ofString "\"host_guid\":\"" ++ Json.dfsvcEscapeString (some identity.hostGuid) 128 ++
    ofString "\",\"host_internal_ip\":\"" ++ Json.dfsvcEscapeString (some identity.internalIp) 128 ++
    ofString "\",\"host_name\":\"" ++ Json.dfsvcEscapeString (some identity.hostName) 128 ++
    ofString "\",\"host_version\":\"" ++ Json.dfsvcEscapeString (some identity.hostVersion) 64 ++
    ofString "\"\x7d,\"type\":\"connection_request\"\x7d")

def openSession (c : Connector) (turn : Turn) : Connector :=
  { c with
    reconnectWaitSeconds := 1
    online               := true
    nextPing             := turn.opened + pingIntervalMs
    lastRx               := turn.opened
    lastStatusRequest    := 0
  }.recordAll [.opened, .sent (c.buildConnectionRequest turn.identity)]

-- The wait before the next attempt to connect.
def backOff (c : Connector) : Connector :=
  { c with reconnectWaitSeconds := min (2 * c.reconnectWaitSeconds) maxReconnectWait }.record
    (.waited c.reconnectWaitSeconds)

-- The end of a session, of which the cloud and the bus are told.
def leave (c : Connector) (reconnectRequested : Bool) (turn : Turn) : Connector :=
  let c := if !c.wantConnect || c.stop then c.record .closed else c
  if c.wantConnect && !reconnectRequested then c.enter .disconnected [] turn.now else c

-- What follows the loop of a session.
def endSession (c : Connector) (reconnectRequested : Bool) (turn : Turn) : Connector :=
  let c := { c.leave reconnectRequested turn with online := false }
  if c.wantConnect && !reconnectRequested then (c.enter .reconnecting [] turn.now).backOff else c

def tryOpen (c : Connector) (turn : Turn) : Connector :=
  let c := c.enter .reconnecting [] turn.now
  if turn.opens then c.openSession turn else (c.enter .reconnecting [] turn.now).backOff

-- A round of the outer loop up to the session.
def attempt (c : Connector) (turn : Turn) : Connector :=
  let c := c.poll turn
  if !c.wantConnect then c.enter .disconnected [] turn.now
  else if (parseUrl turn.url).isNone then c
  else c.tryOpen turn

def isStale (c : Connector) (now : Int) : Bool :=
  c.state = .connected && 0 < c.lastStatusRequest &&
    statusRequestStaleMs < now - c.lastStatusRequest

def checkStale (c : Connector) (now : Int) : Connector :=
  if c.isStale now then { c with lastStatusRequest := 0 }.enter .reconnecting [] now else c

def publishDue (c : Connector) (now : Int) : Connector :=
  if c.nextStatusPublish ≤ now then
    { c.publish now with nextStatusPublish := now + statusIntervalMs }
  else c

-- A message that is read, if it is a text.
def read (c : Connector) (turn : Turn) : Connector :=
  let c := { c with lastRx := turn.rx }
  if turn.read = 0 then c.handleCloudMessage turn else c

-- What follows the ping in a round of a session.
def receive (c : Connector) (turn : Turn) : Connector :=
  if pingTimeoutMs < turn.now - c.lastRx then c.endSession false turn
  else if turn.ready < 0 then c.endSession false turn
  else if turn.ready = 0 then c
  else if turn.read < 0 then c.endSession false turn
  else c.read turn

-- What follows the status in a round of a session.
def ping (c : Connector) (turn : Turn) : Connector :=
  if turn.now < c.nextPing then c.receive turn
  else if !turn.pings then c.endSession false turn
  else { c with nextPing := turn.now + pingIntervalMs }.receive turn

-- A round of the loop of a session.
def serve (c : Connector) (turn : Turn) : Connector :=
  let c := c.poll turn
  if turn.requestsConnection then c.endSession true turn
  else ((c.checkStale turn.now).publishDue turn.now).ping turn

def finish (c : Connector) (turn : Turn) : Connector :=
  { c.record (.published .disconnected [] turn.now) with finished := true }

end Sessions

-- The test of the loop that `main` is in, and a round of it or what follows it.
def turnOn (c : Connector) (turn : Turn) : Connector :=
  if c.online then
    if c.stop || !c.wantConnect then c.endSession false turn else c.serve turn
  else if c.stop then c.finish turn
  else c.attempt turn

def step (c : Connector) (turn : Turn) : Connector :=
  if c.finished then c else turnOn { c with stop := c.stop || turn.signal } turn

def run (c : Connector) (turns : List Turn) : Connector :=
  turns.foldl step c

-- What the turns are made of. A message is handled in a session that is wanted, or in the turn in
-- which it is given up.
inductive Act (turn : Turn) (c : Connector) : Connector → Prop
  | commanded (h : instruction ∈ turn.instructions) : Act turn c (c.command instruction)
  | requested (h : .commanded .connect ∈ c.log) : Act turn c (c.requestPairing turn.time)
  | lost (h : reached = .disconnected ∨ reached = .reconnecting) : Act turn c (c.enter reached [] ts)
  | stale : Act turn c ({ c with lastStatusRequest := 0 }.enter .reconnecting [] ts)
  | shown (h : c.isStale ts = false) : Act turn c (c.publish ts)
  | opened (h : c.state = .reconnecting) : Act turn c (c.openSession turn)
  | closed : Act turn c (c.record .closed)
  | backedOff : Act turn c c.backOff
  | received (h : c.wantConnect = true ∨ .disconnect ∈ turn.instructions)
      (hr : 0 < turn.ready ∧ turn.read = 0) : Act turn c (c.handleCloudMessage turn)
  | finished : Act turn c (c.finish turn)
  | moved (stop online : Bool) (nextStatusPublish nextPing lastRx : Int) :
    Act turn c { c with stop, online, nextStatusPublish, nextPing, lastRx }

def Acts (turn : Turn) : Connector → Connector → Prop :=
  Relation.ReflTransGen (Act turn)

end Connector

-- `pair_request_is_fresh`
def isFresh (pairRequest : Option Int) (time : Int) : Bool :=
  pairRequest.any (time - · ≤ pairRequestTtlSeconds)

-- The beginning of `main`, with the settings and the file it finds.
def start (clusterId : CString) (pairRequest : Option Int) (turn : Turn) : Connector :=
  let wantConnect := !(uciLine 160 clusterId).isEmpty
  Connector.publish {
    wantConnect
    clusterId
    pairRequest
    pairingRequested := isFresh pairRequest turn.time
    state            := if wantConnect then .reconnecting else .disconnected
  } turn.now

end Deneb.Cloud
