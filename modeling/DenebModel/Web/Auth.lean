import DenebModel.Web.Http
import DenebModel.Web.Md5
import Mathlib.Data.Vector.Defs

-- `web/src/api_auth.c`
namespace Deneb.Auth

open CString Http

-- `generate_random_hex`, where the random device cannot be opened without bytes.
def randomHex (len : Nat) (random : Option (List.Vector UInt8 64)) : CString :=
  match random with
  | none       => .replicate (len - 1) 48
  | some bytes => (bytes.toList.take (len - 1)).map fun b => Md5.hexDigit (b.toNat % 16)

def IsHex (s : CString) : Prop :=
  ∀ c ∈ s, 48 ≤ c ∧ c ≤ 57 ∨ 97 ≤ c ∧ c ≤ 102

theorem length_randomHex {random : Option (List.Vector UInt8 64)} : (randomHex 64 random).length = 63 := by
  cases random <;> simp [randomHex]

theorem isHex_randomHex {random : Option (List.Vector UInt8 64)} : IsHex (randomHex 64 random) := by
  intro c hc
  cases random
  case none =>
    obtain rfl := List.eq_of_mem_replicate hc
    decide
  case some bytes =>
    obtain ⟨b, -, rfl⟩ := List.mem_map.mp hc
    exact Md5.hexDigit_isHex (Nat.mod_lt _ (by decide))

-- `session_token_t`
structure Token where
  token   : CString
  expires : Int

-- `digest_nonce_t`; `nc` is the last used nonce count.
structure Nonce where
  nonce   : CString
  created : Int
  nc      : Int := 0
  length  : nonce.length = 63
  hex     : IsHex nonce

-- The variables of the file; `digestHa1` holds the bytes of the array that the hashes take.
structure State where
  authDisabled   : Bool       := false
  setupComplete  : Bool       := false
  digestHa1      : List UInt8 := .replicate 32 0
  digestUsername : CString    := "operator"
  tokens         : List Token := []
  nonces         : List Nonce := []
  username_fits  : digestUsername.length < 64 := by decide
  username_text  : 0 ∉ digestUsername := by decide

def maxNonces : Nat := 16

def nonceExpirySec : Int := 300

def realm : CString := "deneb"

-- `api_auth_is_disabled`
def State.isDisabled (s : State) : Bool :=
  s.authDisabled || !s.setupComplete

def Nonce.Live (nonce : Nonce) (now : Int) : Prop :=
  now - nonce.created ≤ nonceExpirySec

instance : DecidableRel Nonce.Live := fun nonce now =>
  inferInstanceAs (Decidable (now - nonce.created ≤ nonceExpirySec))

-- `create_nonce` and `api_auth_get_nonce`: the nonce is the last one of the table.
def State.createNonce (s : State) (now : Int) (random : Option (List.Vector UInt8 64)) : State × CString :=
  let live := s.nonces.filter fun nonce => nonce.Live now
  let kept := if maxNonces ≤ live.length then live.drop 1 else live
  let nonce : Nonce := {
    nonce   := randomHex 64 random
    created := now
    length  := length_randomHex
    hex     := isHex_randomHex
  }
  ({ s with nonces := kept ++ [nonce] }, nonce.nonce)

-- `validate_nonce`
def State.validateNonce (s : State) (now : Int) (text : CString) : Bool :=
  s.nonces.any fun nonce => nonce.nonce == text && decide (nonce.Live now)

-- `extract_quoted`: the value for an array of `size` bytes.
def extractQuoted (haystack field : CString) (size : Nat) : Option CString := do
  let pattern := fit 64 (field ++ "=\"")
  let (_, p) ← search pattern haystack
  let p := p.drop pattern.length
  if 34 ∈ p then some (fit size (p.takeWhile (· != 34))) else none

def isEnd (c : UInt8) : Bool :=
  c == 44 || c == 32 || c == 13 || c == 10

-- `extract_unquoted`
def extractUnquoted (haystack field : CString) (size : Nat) : Option CString := do
  let pattern := fit 64 (field ++ "=")
  let (_, p) ← search pattern haystack
  some (fit size ((p.drop pattern.length).takeWhile (!isEnd ·)))

-- The fields of a header for digest authentication.
structure Digest where
  username : CString
  realm    : CString
  nonce    : CString
  uri      : CString
  response : CString
  qop      : Option CString
  nc       : Option CString
  cnonce   : Option CString

def Digest.parse (header : CString) : Option Digest := do
  let username ← extractQuoted header "username" 64
  let realm    ← extractQuoted header "realm" 64
  let nonce    ← extractQuoted header "nonce" 64
  let uri      ← extractQuoted header "uri" 256
  let response ← extractQuoted header "response" 64
  some {
    username, realm, nonce, uri, response
    qop    := (extractQuoted header "qop" 16).or (extractUnquoted header "qop" 16)
    nc     := extractUnquoted header "nc" 16
    cnonce := extractQuoted header "cnonce" 64
  }

-- The response for these fields.
def Digest.expected (digest : Digest) (ha1 : List UInt8) (method : CString) : CString :=
  let ha2 := Md5.hexConcat method digest.uri
  match digest.qop, digest.nc, digest.cnonce with
  | some qop, some nc, some cnonce =>
    Md5.hexOf [ha1, ":", digest.nonce, ":", nc, ":", cnonce, ":", qop, ":", ha2]
  | _, _, _ => Md5.hexOf [ha1, ":", digest.nonce, ":", ha2]

-- `api_auth_validate_token`
def State.validateToken (s : State) (now : Int) (token : CString) : Bool :=
  s.isDisabled || s.tokens.any fun t => t.token == token && decide (now < t.expires)

-- `digest_ha1[0] != '\0'`
def State.hasPassword (s : State) : Bool :=
  !(cString s.digestHa1).isEmpty

-- `api_auth_validate_digest`
def State.validateDigest (s : State) (now : Int) (header method _path : CString) : Bool :=
  if s.isDisabled then true
  else if !s.hasPassword then false
  else
    match Digest.parse header with
    | none        => false
    | some digest =>
      digest.username == s.digestUsername && s.validateNonce now digest.nonce &&
        digest.response.take 32 == digest.expected s.digestHa1 method

inductive Authorization
  | bearer (token : CString)
  | digest (fields : CString)

-- What a header authorizes with.
def authorization (header : Header) : Option Authorization :=
  if sameText header.name "Authorization" then
    if sameText (header.value.take 7) "Bearer " then some (.bearer (header.value.drop 7))
    else if sameText (header.value.take 7) "Digest " then some (.digest (header.value.drop 7))
    else none
  else none

-- `api_http_check_auth`
def State.checkAuth (s : State) (now : Int) (req : Request) : Bool :=
  match req.headers.findSome? authorization with
  | some (.bearer token)  => s.validateToken now token
  | some (.digest fields) => s.validateDigest now fields req.method req.path
  | none                  => s.isDisabled

end Deneb.Auth
