import DenebModel.Web.Auth

-- `api_http_route`
namespace Deneb.Http

open CString

-- `api_route_t`, without the handler.
structure Route where
  method       : CString
  pattern      : CString
  requiresAuth : Bool
  deriving DecidableEq

def routes : List Route := [
  ⟨"GET", "/api/v1/printer", false⟩,
  ⟨"GET", "/api/v1/printer/status", false⟩,
  ⟨"GET", "/api/v1/printer/bed", false⟩,
  ⟨"GET", "/api/v1/printer/bed/temperature", false⟩,
  ⟨"GET", "/api/v1/printer/bed/type", false⟩,
  ⟨"GET", "/api/v1/printer/bed/pre_heat", false⟩,
  ⟨"GET", "/api/v1/printer/heads", false⟩,
  ⟨"GET", "/api/v1/printer/heads/0", false⟩,
  ⟨"GET", "/api/v1/printer/heads/0/position", false⟩,
  ⟨"GET", "/api/v1/printer/heads/0/extruders", false⟩,
  ⟨"GET", "/api/v1/printer/heads/0/extruders/0", false⟩,
  ⟨"GET", "/api/v1/printer/heads/0/extruders/0/hotend", false⟩,
  ⟨"GET", "/api/v1/printer/heads/0/extruders/0/hotend/temperature", false⟩,
  ⟨"GET", "/api/v1/printer/heads/0/extruders/0/feeder", false⟩,
  ⟨"GET", "/api/v1/printer/heads/0/extruders/0/active_material", false⟩,
  ⟨"GET", "/api/v1/printer/led", false⟩,
  ⟨"GET", "/api/v1/printer/led/brightness", false⟩,
  ⟨"GET", "/api/v1/printer/led/hue", false⟩,
  ⟨"GET", "/api/v1/printer/led/saturation", false⟩,
  ⟨"GET", "/api/v1/printer/network", false⟩,
  ⟨"GET", "/api/v1/print_job", false⟩,
  ⟨"GET", "/api/v1/print_job/state", false⟩,
  ⟨"GET", "/api/v1/print_job/progress", false⟩,
  ⟨"GET", "/api/v1/print_job/time_elapsed", false⟩,
  ⟨"GET", "/api/v1/print_job/time_total", false⟩,
  ⟨"GET", "/api/v1/print_job/name", false⟩,
  ⟨"GET", "/api/v1/print_job/uuid", false⟩,
  ⟨"GET", "/api/v1/print_job/source", false⟩,
  ⟨"GET", "/api/v1/print_job/datetime_started", false⟩,
  ⟨"GET", "/api/v1/print_job/datetime_finished", false⟩,
  ⟨"GET", "/api/v1/system", false⟩,
  ⟨"GET", "/api/v1/system/name", false⟩,
  ⟨"GET", "/api/v1/system/hostname", false⟩,
  ⟨"GET", "/api/v1/system/firmware", false⟩,
  ⟨"GET", "/api/v1/system/hardware", false⟩,
  ⟨"GET", "/api/v1/system/type", false⟩,
  ⟨"GET", "/api/v1/system/variant", false⟩,
  ⟨"GET", "/api/v1/system/platform", false⟩,
  ⟨"GET", "/api/v1/system/memory", false⟩,
  ⟨"GET", "/api/v1/system/uptime", false⟩,
  ⟨"GET", "/api/v1/system/language", false⟩,
  ⟨"GET", "/api/v1/system/country", false⟩,
  ⟨"GET", "/api/v1/system/time", false⟩,
  ⟨"GET", "/api/v1/system/guid", false⟩,
  ⟨"GET", "/api/v1/system/log", false⟩,
  ⟨"GET", "/api/v1/materials", false⟩,
  ⟨"POST", "/api/v1/auth/request", false⟩,
  ⟨"GET", "/api/v1/auth/check/", false⟩,
  ⟨"GET", "/api/v1/auth/verify", true⟩,
  ⟨"GET", "/api/v1/ambient_temperature", false⟩,
  ⟨"GET", "/api/v1/airmanager", false⟩,
  ⟨"GET", "/api/v1/deneb/events", false⟩,
  ⟨"GET", "/api/v1/deneb/version", false⟩,
  ⟨"GET", "/api/v1/deneb/locale/", false⟩,
  ⟨"POST", "/api/v1/deneb/setup", false⟩,
  ⟨"POST", "/api/v1/deneb/auth", false⟩,
  ⟨"GET", "/api/v1/deneb/config", false⟩,
  ⟨"GET", "/api/v1/deneb/print_jobs", false⟩,
  ⟨"GET", "/api/v1/deneb/print_backend", false⟩,
  ⟨"GET", "/cluster-api/v1/materials", false⟩,
  ⟨"POST", "/cluster-api/v1/materials", false⟩,
  ⟨"GET", "/cluster-api/v1/materials/", false⟩,
  ⟨"POST", "/cluster-api/v1/materials/", false⟩,
  ⟨"GET", "/cluster-api/v1/printers", false⟩,
  ⟨"GET", "/cluster-api/v1/print_jobs", false⟩,
  ⟨"POST", "/cluster-api/v1/print_jobs", false⟩,
  ⟨"GET", "/cluster-api/v1/print_jobs/", false⟩,
  ⟨"POST", "/cluster-api/v1/print_jobs/", false⟩,
  ⟨"PUT", "/cluster-api/v1/print_jobs/", false⟩,
  ⟨"DELETE", "/cluster-api/v1/print_jobs/", false⟩,
  ⟨"PUT", "/api/v1/print_job/state", true⟩,
  ⟨"POST", "/api/v1/print_job", true⟩,
  ⟨"PUT", "/api/v1/printer/bed/temperature", true⟩,
  ⟨"PUT", "/api/v1/printer/heads/0/extruders/0/hotend/temperature", true⟩,
  ⟨"PUT", "/api/v1/printer/bed/pre_heat", true⟩,
  ⟨"PUT", "/api/v1/printer/heads/0/position", true⟩,
  ⟨"POST", "/api/v1/printer/heads/0/position", true⟩,
  ⟨"PUT", "/api/v1/printer/led", true⟩,
  ⟨"PUT", "/api/v1/printer/led/brightness", true⟩,
  ⟨"POST", "/api/v1/printer/validate_header", true⟩]

-- `match_path`
def matchPath (pattern path : CString) : Bool :=
  pattern == path || (pattern.getLast? == some 47 && startsWith path pattern)

def findRoute (req : Request) : Option Route :=
  routes.find? fun r => r.method == req.method && matchPath r.pattern req.path

-- What the handler of a route makes of a response, and of the variables for authentication.
abbrev Handlers := Route → Request → Response → Auth.State → Response × Auth.State

-- The text of the header with a nonce.
def challengeText (nonce : CString) : CString :=
  fit 256 (ofString "Digest realm=\"" ++ Auth.realm ++ "\", nonce=\"" ++ nonce ++ "\", qop=\"auth\"")

def unauthorized (resp : Response) (nonce : CString) : Response :=
  { resp with statusCode := 401, authChallenge := challengeText nonce }.setBody
    "\x7b\"message\":\"Unauthorized\"\x7d"

def handleNotFound (resp : Response) : Response :=
  { resp with statusCode := 404 }.setBody "\x7b\"message\":\"Not found\"\x7d"

def handleMethodNotAllowed (resp : Response) : Response :=
  { resp with statusCode := 405 }.setBody "\x7b\"message\":\"Method not allowed\"\x7d"

-- `api_http_route`, with the clock and the random bytes that a challenge takes.
def route (handlers : Handlers) (now : Int) (random : Option (List.Vector UInt8 64)) (s : Auth.State)
    (req : Request) (resp : Response) : Response × Auth.State :=
  match findRoute req with
  | some r =>
    if r.requiresAuth && !s.checkAuth now req then
      let (s, nonce) := s.createNonce now random
      (unauthorized resp nonce, s)
    else handlers r req resp s
  | none =>
    if req.method = "OPTIONS" then ({ resp with statusCode := 204 }, s)
    else if routes.any fun r => r.pattern == req.path then (handleMethodNotAllowed resp, s)
    else (handleNotFound resp, s)

end Deneb.Http
