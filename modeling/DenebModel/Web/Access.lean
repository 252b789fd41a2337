import DenebModel.Objects.GcodeStream
import DenebModel.Web.JsonWriter
import DenebModel.Web.Server
import DenebModel.Wire.JsonField
import Mathlib.Data.List.TakeWhile

namespace Deneb

open CString Http

namespace Auth

theorem operator_fits : (ofString "operator").length < 64 := by decide

theorem operator_text : 0 ∉ ofString "operator" := by decide

-- The variables of authentication as they are initialised.
def initial : State where
  username_fits := operator_fits
  username_text := operator_text

end Auth

-- The user name of the digest, in its array of 64 bytes.
def Auth.State.setUsername (s : Auth.State) (text : CString) : Auth.State :=
  { s with
    digestUsername := fit 64 (cString text)
    username_fits  := Nat.lt_succ_of_le (List.length_take_le _ _)
    username_text  := fun h => by simpa using List.mem_takeWhile_imp (List.mem_of_mem_take h)
  }

-- Who may use the web interface: `web/src/api_auth.c`, and the handlers of `web/src/api_deneb.c` for
-- the setup and for sessions.
namespace Access

-- `deneb_parse_int`
def parseInt (text : CString) : Option Int :=
  match Scan.integer text with
  | none              => none
  | some (value, end') =>
    if (skipSpaces end').isEmpty && decide (-2 ^ 31 ≤ value ∧ value < 2 ^ 31) then some value else none

-- `deneb_json_get_bool_value`
def getBoolValue (json key : CString) : Option Bool :=
  let (rc, text) := Json.getValue json key 16
  if rc ≠ 0 then none
  else if text = "true" then some true
  else if text = "false" then some false
  else none

-- What is around the variables of `api_auth.c`: the `crypt` of the library, the other handlers with
-- what they work on, which are told whether access is open and whether the setup is complete, the
-- status for a stream of events, and what a new start of the process makes of the rest.
structure System (W : Type) where
  crypt   : (key salt : CString) → Option CString
  handler : Route → Request → Response → (disabled setupComplete : Bool) → (now : Int) → W → Response × W
  status  : W → CString
  restart : W → W

-- What a request meets: the clock, the random bytes, and for each time that it writes the file with
-- the configuration how many bytes get there, or that the file could not be opened.
structure Env where
  now   : Int                           := 0
  nonce : Option (List.Vector UInt8 64) := none
  id    : Option (List.Vector UInt8 64) := none
  key   : Option (List.Vector UInt8 64) := none
  salt  : Option (List.Vector UInt8 64) := none
  token : Option (List.Vector UInt8 64) := none
  saved : Nat → Option Nat

-- The variables of `api_auth.c`, the file at `AUTH_CONFIG_PATH`, and everything else.
structure State (W : Type) where
  auth         : Auth.State          := Auth.initial
  passwordHash : CString             := []
  config       : Option (List UInt8) := none
  world        : W

variable {W : Type}

def maxTokens : Nat := 8

-- `load_config`, for one line.
def State.loadLine (s : State W) (line : CString) : State W :=
  if startsWith line "setup_complete=" then
    match parseInt (line.drop 15) with
    | none        => s
    | some parsed => { s with auth.setupComplete := decide (parsed ≠ 0) }
  else if startsWith line "auth_disabled=" then
    match parseInt (line.drop 14) with
    | none        => s
    | some parsed => { s with auth.authDisabled := decide (parsed ≠ 0) }
  else if startsWith line "password=" then { s with passwordHash := fit 128 (line.drop 9) }
  else if startsWith line "digest_ha1=" then
    -- The terminator goes into the array too, and what is behind it stays.
    let text := fit 33 (line.drop 11)
    { s with auth.digestHa1 := (text ++ 0 :: s.auth.digestHa1.drop (text.length + 1)).take 32 }
  else if startsWith line "digest_user=" then { s with auth := s.auth.setUsername (line.drop 12) }
  else s

-- The lines that `fgets` makes of the file, without their ends.
def configLines (config : List UInt8) : List CString :=
  (GcodeStream.fgetsLines config []).map fun line => line.takeWhile (· != 10)

-- A configuration of an older version has a password, or open access, and no line for the setup.
def State.finishLoad (s : State W) : State W :=
  if !s.auth.setupComplete && (!s.passwordHash.isEmpty || s.auth.authDisabled) then
    { s with auth.setupComplete := true }
  else s

-- `api_auth_init` at the start of the process
def boot (config : Option (List UInt8)) (world : W) : State W :=
  config.elim { config, world } fun text =>
    ((configLines text).foldl State.loadLine { config, world }).finishLoad

def flag (b : Bool) : CString :=
  BinaryFloat.formatD (if b then 1 else 0)

-- What `save_config` writes.
def State.configText (s : State W) : List UInt8 :=
  ofString "setup_complete=" ++ flag s.auth.setupComplete ++ 10 ::
    (ofString "auth_disabled=" ++ flag s.auth.authDisabled ++ 10 ::
      (ofString "password=" ++ s.passwordHash ++ 10 ::
        (ofString "digest_ha1=" ++ cString s.auth.digestHa1 ++ 10 ::
          (ofString "digest_user=" ++ s.auth.digestUsername ++ [10]))))

-- `save_config`
def State.saveConfig (s : State W) (saved : Option Nat) : State W :=
  match saved with
  | none   => s
  | some n => { s with config := some (s.configText.take n) }

-- `set_digest_credentials`
def State.setDigestCredentials (s : State W) (username password : CString) : State W :=
  let auth := s.auth.setUsername username
  { s with auth := { auth with
      digestHa1 := Md5.hexOf [auth.digestUsername, ":", Auth.realm, ":", password] } }

-- The `$` that the code puts behind the salt is behind its terminator too.
def saltOf (random : Option (List.Vector UInt8 64)) : CString :=
  ofString "$5$" ++ Auth.randomHex 16 random

-- `api_auth_set_password`
def State.setPassword (s : State W) (sys : System W) (env : Env) (password : CString) (saved : Option Nat) :
    State W :=
  let s := match sys.crypt password (saltOf env.salt) with
    | none        => s
    | some hashed => { s with passwordHash := fit 128 hashed }
  (s.setDigestCredentials "operator" password).saveConfig saved

-- `api_auth_check_password`
def State.checkPassword (s : State W) (sys : System W) (password : CString) : Bool :=
  !s.passwordHash.isEmpty && sys.crypt password s.passwordHash == some s.passwordHash

-- `api_auth_has_password`
def State.hasPassword (s : State W) : Bool :=
  !s.passwordHash.isEmpty && s.auth.hasPassword

-- `api_auth_set_setup_complete`
def State.setSetupComplete (s : State W) (saved : Option Nat) : State W :=
  State.saveConfig { s with auth.setupComplete := true } saved

-- `api_auth_set_disabled`
def State.setDisabled (s : State W) (disabled : Bool) (saved : Option Nat) : State W :=
  State.saveConfig { s with auth.authDisabled := disabled } saved

-- `api_auth_add_session_token`
def State.addSessionToken (s : State W) (now : Int) (token : CString) (expiryDays : Int) : State W :=
  let tokens := if maxTokens ≤ s.auth.tokens.length then s.auth.tokens.drop 1 else s.auth.tokens
  let token : Auth.Token := { token := fit 64 token, expires := now + expiryDays * 86400 }
  { s with auth.tokens := tokens ++ [token] }

-- What the writer for JSON leaves in a buffer of that many bytes.
def written (cap : Nat) (calls : List JsonWriter.Call) : CString :=
  cString ((JsonWriter.init cap).run calls).len.2

-- What `api_auth_request_post` does when it does not refuse the request.
def State.pair (s : State W) (env : Env) : State W :=
  let s := s.setDigestCredentials (Auth.randomHex 33 env.id) (Auth.randomHex 33 env.key)
  if s.auth.setupComplete then s.saveConfig (env.saved 0) else s

-- `api_auth_request_post`
def requestPost (env : Env) (req : Request) (resp : Response) (s : State W) : Response × State W :=
  if !s.auth.isDisabled && !s.auth.checkAuth env.now req then
    ({ resp with statusCode := 403 }.setBody
      "\x7b\"message\":\"Pairing requires Open Access or an existing web session\"\x7d", s)
  else
    (resp.setBody (written 256 [.objOpen, .str "id" (some (Auth.randomHex 33 env.id)),
      .str "key" (some (Auth.randomHex 33 env.key)), .objClose]), s.pair env)

def checkPath : CString := "/api/v1/auth/check/"

-- `api_auth_check_get`
def checkGet (env : Env) (req : Request) (resp : Response) (s : State W) : Response :=
  let id := req.path.drop checkPath.length
  let token (header : Header) : Bool :=
    sameText header.name "Authorization" && sameText (header.value.take 7) "Bearer " &&
      s.auth.validateToken env.now (header.value.drop 7)
  if id.isEmpty then { resp with statusCode := 400 }.setBody "\x7b\"message\":\"Missing id\"\x7d"
  else if s.auth.isDisabled || (id == s.auth.digestUsername && s.auth.hasPassword) ||
      req.headers.any token then
    resp.setBody "\x7b\"message\":\"authorized\"\x7d"
  else resp.setBody "\x7b\"message\":\"unauthorized\"\x7d"

-- The value for the password in a body, for an array of 128 bytes. A body that fills its array ends
-- in the next field, 4096, the lowest byte of which is zero.
def passwordOf (req : Request) : Option CString :=
  let (rc, password) := Json.getValue (cString req.body) "password" 128
  if rc = 0 then some password else none

def requiresAuth (req : Request) : Bool :=
  (getBoolValue (cString req.body) "auth_required").getD true

-- The token for a new session.
def newToken (env : Env) : CString :=
  Auth.randomHex 64 env.token

def expiryOf (env : Env) : Int64 :=
  Int64.ofInt (env.now + 30 * 86400)

-- The password that a setup stores.
def newPassword (req : Request) : Option CString :=
  if requiresAuth req then (passwordOf req).filter (!·.isEmpty) else none

-- What `api_deneb_setup_post` does when it does not refuse the request.
def State.setUp (s : State W) (sys : System W) (env : Env) (req : Request) : State W :=
  let s := match newPassword req with
    | none          => s
    | some password => s.setPassword sys env password (env.saved 0)
  let s := s.setSetupComplete (env.saved 1)
  let s := s.setDisabled (!requiresAuth req) (env.saved 2)
  s.addSessionToken env.now (newToken env) 30

-- `api_deneb_setup_post`
def setupPost (sys : System W) (env : Env) (req : Request) (resp : Response) (s : State W) :
    Response × State W :=
  if s.auth.setupComplete && !s.auth.checkAuth env.now req then
    ({ resp with statusCode := 401 }.setBody "\x7b\"message\":\"Unauthorized\"\x7d", s)
  else if requiresAuth req && (newPassword req).isNone && !s.hasPassword then
    ({ resp with statusCode := 400 }.setBody "\x7b\"message\":\"Missing password field\"\x7d", s)
  else
    (resp.setBody (written 160 [.objOpen, .str "token" (some (newToken env)),
      .int "expires" (expiryOf env), .bool "auth_enabled" (if requiresAuth req then 1 else 0), .objClose]),
      s.setUp sys env req)

-- `api_deneb_auth_post`
def authPost (sys : System W) (env : Env) (req : Request) (resp : Response) (s : State W) :
    Response × State W :=
  match passwordOf req with
  | none => ({ resp with statusCode := 400 }.setBody "\x7b\"message\":\"Missing password\"\x7d", s)
  | some password =>
    if s.checkPassword sys password then
      (resp.setBody (written 160 [.objOpen, .str "token" (some (newToken env)),
        .int "expires" (expiryOf env), .objClose]), s.addSessionToken env.now (newToken env) 30)
    else ({ resp with statusCode := 401 }.setBody "\x7b\"message\":\"Invalid password\"\x7d", s)

def requestRoute : Route :=
  ⟨"POST", "/api/v1/auth/request", false⟩

def checkRoute : Route :=
  ⟨"GET", checkPath, false⟩

def verifyRoute : Route :=
  ⟨"GET", "/api/v1/auth/verify", true⟩

def setupRoute : Route :=
  ⟨"POST", "/api/v1/deneb/setup", false⟩

def authRoute : Route :=
  ⟨"POST", "/api/v1/deneb/auth", false⟩

-- The handlers of the routes; only these know the variables of `api_auth.c`.
def State.handle (sys : System W) (env : Env) (r : Route) (req : Request) (resp : Response) (s : State W) :
    Response × State W :=
  if r = requestRoute then requestPost env req resp s
  else if r = checkRoute then (checkGet env req resp s, s)
  else if r = verifyRoute then (resp.setBody "\x7b\"message\":\"ok\"\x7d", s)
  else if r = setupRoute then setupPost sys env req resp s
  else if r = authRoute then authPost sys env req resp s
  else if r = Server.eventsRoute then
    (Server.eventsGet { now := env.now, status := sys.status s.world } s.auth req resp, s)
  else
    let (resp, world) := sys.handler r req resp s.auth.isDisabled s.auth.setupComplete env.now s.world
    (resp, { s with world })

-- `api_http_route`
def State.route (sys : System W) (env : Env) (req : Request) (resp : Response) (s : State W) :
    Response × State W :=
  match findRoute req with
  | some r =>
    if r.requiresAuth && !s.auth.checkAuth env.now req then
      let (auth, nonce) := s.auth.createNonce env.now env.nonce
      (unauthorized resp nonce, { s with auth })
    else s.handle sys env r req resp
  | none =>
    if req.method = "OPTIONS" then ({ resp with statusCode := 204 }, s)
    else if routes.any fun r => r.pattern == req.path then (handleMethodNotAllowed resp, s)
    else (handleNotFound resp, s)

-- A request, or a new start of the process.
inductive Event
  | request (req : Request) (env : Env)
  | restart

def State.step (sys : System W) (s : State W) : Event → State W
  | .request req env => (s.route sys env req {}).2
  | .restart         => boot s.config (sys.restart s.world)

def State.run (sys : System W) (s : State W) (events : List Event) : State W :=
  events.foldl (State.step sys) s

end Access
end Deneb
