import DenebModel.Primitives.Occurrence
import DenebModel.Primitives.Scan

-- Requests and responses of `web/src/api_http.c`
namespace Deneb.Http

open CString Occurrence

-- The text up to its NUL, as the functions for strings see it.
def cString (s : List UInt8) : CString :=
  s.takeWhile (· != 0)

-- `strstr`: what is in front of the first occurrence, and what starts with it.
def search (p s : CString) : Option (CString × CString) :=
  (index p (cString s)).map fun i => (s.take i, s.drop i)

-- `strcasecmp(s, t) == 0`
def sameText (s t : CString) : Bool :=
  s.map toLower == t.map toLower

structure Header where
  name  : CString
  value : CString
  deriving DecidableEq

-- `http_request_t`; `body` is the whole array of 4096 bytes.
structure Request where
  method            : CString      := []
  path              : CString      := []
  query             : CString      := []
  headers           : List Header  := []
  body              : List UInt8   := .replicate 4096 0
  bodyLen           : Nat          := 0
  authDigest        : CString      := []
  contentType       : CString      := []
  contentLength     : Int          := 0
  multipartBoundary : CString      := []
  isMultipart       : Bool         := false
  deriving DecidableEq

def maxHeaders : Nat := 16

def maxBody : Nat := 4096

-- The end of a line: what is in front of it and what is behind it.
def breakLine (p : List UInt8) : Option (List UInt8 × List UInt8) :=
  match search [13, 10] p with
  | some (line, rest) => some (line, rest.drop 2)
  | none =>
    match search [10] p with
    | some (line, rest) => some (line, rest.drop 1)
    | none              => none

-- The boundary in the value of a header for the content type.
def boundaryOf (value : CString) : Option CString :=
  (search "boundary=" value).map fun (_, text) =>
    let text := text.drop 9
    let text := if text.head? = some 34 then text.drop 1 else text
    let text := text.takeWhile (· != 59)
    let text := if text.getLast? = some 34 then text.dropLast else text
    text.take 127

-- The fields for the headers that the server knows.
def Request.extract (req : Request) (header : Header) : Request :=
  if sameText header.name "Authorization" then { req with authDigest := header.value.take 511 }
  else if sameText header.name "Content-Type" then
    let req := { req with contentType := header.value.take 63 }
    match boundaryOf header.value with
    | none          => req
    | some boundary => { req with multipartBoundary := boundary, isMultipart := true }
  else if sameText header.name "Content-Length" then
    let cl := Scan.strtol header.value
    { req with contentLength := if cl < 0 ∨ 52428800 < cl then 0 else cl }
  else req

-- The header in a line, if there is a colon in it.
def headerOf (line : List UInt8) : Option Header :=
  if 58 ∈ line then
    let name := line.takeWhile (· != 58)
    let value := (line.drop (name.length + 1)).dropWhile (· == 32)
    some { name := cString (name.take 63), value := cString (value.take 255) }
  else none

-- The loop over the lines, with as many rounds as there are bytes.
def headerLoop : Nat → Request → List UInt8 → Request
  | 0, req, _          => req
  | rounds + 1, req, p =>
    if p.isEmpty ∨ maxHeaders ≤ req.headers.length then req
    else
      match breakLine p with
      | none              => req
      | some ([], _)      => req
      | some (line, rest) =>
        match headerOf line with
        | none        => headerLoop rounds req rest
        | some header =>
          headerLoop rounds { req.extract header with headers := req.headers ++ [header] } rest

-- What is behind the empty line.
def bodyOf (raw : List UInt8) : Option (List UInt8) :=
  match search [13, 10, 13, 10] raw with
  | some (_, rest) => some (rest.drop 4)
  | none           => (search [10, 10] raw).map fun (_, rest) => rest.drop 2

-- The bytes in front of a blank, and those behind it.
def word (p : List UInt8) : Option (List UInt8 × List UInt8) :=
  if 32 ∈ p then
    let w := p.takeWhile (· != 32)
    some (w, p.drop (w.length + 1))
  else none

-- `api_http_parse`
def parse (raw : List UInt8) : Option Request := do
  let (method, p) ← word raw
  if 8 ≤ method.length then none
  else do
    let (target, p) ← word p
    if 256 ≤ target.length then none
    else
      let target := cString target
      let path := target.takeWhile (· != 63)
      let query := (target.drop (path.length + 1)).take 255
      let p := match breakLine p with
        | none           => p
        | some (_, rest) => rest
      let req := headerLoop p.length { method := cString method, path, query } p
      match bodyOf raw with
      | none      => some req
      | some body =>
        let body := body.take maxBody
        some { req with
          body    := body ++ .replicate (maxBody - body.length) 0
          bodyLen := body.length
        }

-- `http_response_t`, as `api_http_set_body` leaves the body.
structure Response where
  statusCode    : Int             := 200
  contentType   : CString         := "application/json"
  body          : Option CString  := none
  keepAlive     : Bool            := false
  isSse         : Bool            := false
  authChallenge : CString         := []
  deriving DecidableEq

def Response.bodyBytes (resp : Response) : CString :=
  resp.body.getD []

def statusText (code : Int) : CString :=
  if code = 200 then "OK"
  else if code = 201 then "Created"
  else if code = 204 then "No Content"
  else if code = 400 then "Bad Request"
  else if code = 401 then "Unauthorized"
  else if code = 403 then "Forbidden"
  else if code = 404 then "Not Found"
  else if code = 405 then "Method Not Allowed"
  else if code = 409 then "Conflict"
  else if code = 500 then "Internal Server Error"
  else if code = 501 then "Not Implemented"
  else if code = 503 then "Service Unavailable"
  else "OK"

def crlf : CString := [13, 10]

-- A line of the header.
def line (text : CString) : CString :=
  text ++ crlf

def commonLines : CString :=
  line "Cache-Control: no-store" ++ line "X-Content-Type-Options: nosniff" ++
    line "Access-Control-Allow-Origin: *" ++
    line "Access-Control-Allow-Methods: GET, PUT, POST, DELETE, OPTIONS" ++
    line "Access-Control-Allow-Headers: Authorization, Content-Type"

def Response.statusLine (resp : Response) : CString :=
  "HTTP/1.1 " ++ BinaryFloat.formatD resp.statusCode ++ " " ++ statusText resp.statusCode

def Response.contentTypeOr (resp : Response) (default : CString) : CString :=
  if resp.contentType.isEmpty then default else resp.contentType

-- The header with the challenge for the client, without the end of its line.
def Response.challenge (resp : Response) : CString :=
  if resp.authChallenge.isEmpty then [] else "WWW-Authenticate: " ++ resp.authChallenge

-- What the format of the header becomes.
def Response.header (resp : Response) (bodyLen : Nat) : CString :=
  if resp.isSse then
    line resp.statusLine ++ line ("Content-Type: " ++ resp.contentTypeOr "text/event-stream") ++
      line "Connection: keep-alive" ++ commonLines ++ resp.challenge ++ crlf
  else
    line resp.statusLine ++ line ("Content-Type: " ++ resp.contentTypeOr "application/json") ++
      line ("Content-Length: " ++ BinaryFloat.digits bodyLen) ++
      line ("Connection: " ++ if resp.keepAlive then ofString "keep-alive" else "close") ++
      commonLines ++ resp.challenge ++ crlf

-- `api_http_serialize`: the bytes in a buffer of `cap` bytes, of which the return value is the number.
def Response.serialize (resp : Response) (cap : Nat) : CString :=
  let maxBody := cap - 512
  let bodyLen := min resp.bodyBytes.length maxBody
  let text := fit cap (resp.header bodyLen)
  text ++ resp.bodyBytes.take bodyLen

-- `api_http_set_body_str`
def Response.setBody (resp : Response) (text : CString) : Response :=
  { resp with body := some text }

end Deneb.Http
