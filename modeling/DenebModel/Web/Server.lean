import DenebModel.Web.Route

-- `web/src/main.c`
namespace Deneb.Server

open CString Http

-- What a request meets besides its bytes: the clock, the random bytes of a challenge, the status
-- of the printer, and whether the body of an upload could be stored.
structure Env where
  now      : Int                           := 0
  random   : Option (List.Vector UInt8 64) := none
  status   : CString                       := "\x7b\x7d"
  uploaded : Bool                          := true

-- The token in the query of `api_deneb_events_get`.
def tokenOf (query : CString) : Option CString :=
  (search "token=" query).map fun (_, text) => ((text.drop 6).takeWhile (· != 38)).take 63

def mayWatch (auth : Auth.State) (now : Int) (req : Request) : Bool :=
  auth.isDisabled || (tokenOf req.query).any (auth.validateToken now)

-- `api_deneb_events_get`
def eventsGet (env : Env) (auth : Auth.State) (req : Request) (resp : Response) : Response :=
  if mayWatch auth env.now req then
    { resp with
      isSse       := true
      keepAlive   := true
      contentType := "text/event-stream"
      body        := some (ofString "data: " ++ env.status ++ [10, 10])
    }
  else
    { resp with statusCode := 401 }.setBody
      "event: error\ndata: \x7b\"message\":\"Unauthorized\"\x7d\n\n"

def eventsRoute : Route :=
  ⟨"GET", "/api/v1/deneb/events", false⟩

-- No handler but the one for the events sets the fields `is_sse` and `keep_alive`.
def handlers (other : Handlers) (env : Env) : Handlers := fun r req resp auth =>
  if r = eventsRoute then (eventsGet env auth req resp, auth)
  else
    let (answer, auth) := other r req resp auth
    ({ answer with keepAlive := resp.keepAlive, isSse := resp.isSse }, auth)

-- The part of `handle_client` between the first bytes of a request and the response.
def respond (other : Handlers) (env : Env) (auth : Auth.State) (data : List UInt8) :
    Response × Auth.State :=
  match parse data with
  | none =>
    let resp : Response := { statusCode := 400 }
    (resp.setBody "\x7b\"message\":\"Bad request\"\x7d", auth)
  | some req =>
    if req.isMultipart && req.method == "POST" && !env.uploaded then
      let resp : Response := { statusCode := 500 }
      (resp.setBody "\x7b\"message\":\"Upload failed\"\x7d", auth)
    else route (handlers other env) env.now env.random auth req {}

abbrev Fd := Nat

-- The events that epoll waits for on a descriptor, besides errors.
inductive Interest
  | input
  | hangup
  deriving DecidableEq

-- `interest` has a value for the descriptors of the clients that are open.
structure State where
  interest   : Fd → Option Interest := fun _ => none
  sseClients : List Fd              := []
  auth       : Auth.State           := {}

def maxSseClients : Nat := 4

def State.wait (s : State) (fd : Fd) (i : Interest) : State :=
  { s with interest := Function.update s.interest fd (some i) }

def State.close (s : State) (fd : Fd) : State :=
  { s with interest := Function.update s.interest fd none }

-- `sse_register_client`
def State.registerClient (s : State) (fd : Fd) : State :=
  if maxSseClients ≤ s.sseClients.length then s
  else { s with sseClients := s.sseClients ++ [fd] }

-- The last client takes the place of the one that is removed.
def withoutClient (fd : Fd) (clients : List Fd) : List Fd :=
  match clients.idxOf? fd, clients.getLast? with
  | some i, some last => (clients.set i last).dropLast
  | _, _              => clients

-- `sse_remove_client`
def State.removeClient (s : State) (fd : Fd) : State :=
  { s with sseClients := withoutClient fd s.sseClients }

-- The loop of `sse_push_status` from an index on, where `failed` are the descriptors on which a
-- write reports an error other than that it would block.
def State.pushFrom (failed : Fd → Bool) : Nat → Nat → State → State
  | 0, _, s        => s
  | left + 1, i, s =>
    match s.sseClients[i]? with
    | none    => s
    | some fd =>
      if failed fd then ((s.close fd).removeClient fd).pushFrom failed left i
      else s.pushFrom failed left (i + 1)

-- `sse_push_status`
def State.pushStatus (s : State) (status : CString) (failed : Fd → Bool) : State :=
  if 1056 ≤ (ofString "data: " ++ status ++ [10, 10]).length then s
  else s.pushFrom failed s.sseClients.length 0

-- What the first read of `handle_client` gives.
inductive Read
  | again
  | closed
  | data (bytes : List UInt8) (env : Env)

-- `handle_client`
def State.handleClient (other : Handlers) (s : State) (fd : Fd) : Read → State
  | .again  => s
  | .closed => (s.close fd).removeClient fd
  | .data bytes env =>
    let (resp, auth) := respond other env s.auth bytes
    let s := { s with auth }
    if resp.isSse then (s.wait fd .hangup).registerClient fd
    else if resp.keepAlive then s
    else s.close fd

-- What the main loop meets: a connection, with whether epoll could add it; an event on the
-- descriptor of a client; the time for a push.
inductive Event
  | accept (fd : Fd) (added : Bool)
  | ready (fd : Fd) (input : Bool) (read : Read)
  | push (status : CString) (failed : Fd → Bool)

-- A new descriptor is not one of the open ones, and epoll reports input only where it is waited for.
def State.step (other : Handlers) (s : State) : Event → Option State
  | .accept fd added =>
    if (s.interest fd).isSome then none
    else if added then some (s.wait fd .input)
    else some s
  | .ready fd input read =>
    match s.interest fd, input with
    | none, _             => none
    | some .hangup, true  => none
    | some .input, true   => some (s.handleClient other fd read)
    | some _, false       => some s
  | .push status failed => some (s.pushStatus status failed)

def State.run (other : Handlers) (s : State) : List Event → Option State
  | []      => some s
  | e :: es => (s.step other e).bind (·.run other es)

end Deneb.Server
