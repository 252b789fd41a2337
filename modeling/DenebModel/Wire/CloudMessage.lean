import DenebModel.Primitives.CString
import DenebModel.Primitives.JsonText

-- `dfsvc/src/main.c`: the fields of a message of the cloud.
namespace Deneb.CloudMessage

open CString JsonText

-- What the loops over the text keep track of.
structure Scanner where
  depth    : Nat  := 0
  inString : Bool := false
  escape   : Bool := false

def Scanner.next (s : Scanner) (c : UInt8) : Scanner :=
  if s.inString then
    if s.escape then { s with escape := false }
    else if c = 92 then { s with escape := true }
    else if c = 34 then { s with inString := false }
    else s
  else if c = 34 then { s with inString := true }
  else if c = 123 then { s with depth := s.depth + 1 }
  else if c = 125 then { s with depth := s.depth - 1 }
  else s

-- The text behind the colon of the first top-level name. `opens` tells whether the quote of a text
-- that is no name opens a string.
def locate (opens : Bool) (needle : CString) : CString → Scanner → Option CString
  | [], _     => none
  | c :: p, s =>
    if s.inString = false ∧ c = 34 ∧ s.depth = 1 ∧ startsWith (c :: p) needle then
      let q := skip ((c :: p).drop needle.length)
      if q.head? = some 58 then some q.tail
      else locate opens needle p { s with inString := opens }
    else locate opens needle p (s.next c)

def needle (key : CString) : CString :=
  fit 64 (34 :: key ++ [34])

-- The loop that copies a value, with the bytes that are left in the buffer.
def copyValue : Nat → CString → CString
  | 0, _             => []
  | _, []            => []
  | room + 1, c :: q =>
    if c = 34 then []
    else if c = 92 ∧ q ≠ [] then q.head?.toList ++ copyValue room q.tail
    else c :: copyValue room q

-- There, the loop goes on behind the quote without being in a string.
def jsonTopLevelStrValue (json key : CString) (outSize : Nat) : Option CString :=
  if outSize = 0 then none
  else
    (locate false (needle key) json {}).bind fun q =>
      if (skip q).head? = some 34 then some (copyValue (outSize - 1) (skip q).tail) else none

def jsonHasTopLevelKey (json key : CString) : Bool :=
  (locate true (needle key) json {}).isSome

-- The text behind the colon after the first occurrence of the name, and the blanks there.
def behindName (json key : CString) : Option CString := do
  let p ← strstr json (needle key)
  let p ← strchr (p.drop (needle key).length) 58
  return p.tail.dropWhile fun c => c == 32 || c == 9

-- The byte for an escape other than `\u`.
def unescape (c : UInt8) : UInt8 :=
  if c = 98 then 8
  else if c = 102 then 12
  else if c = 110 then 10
  else if c = 114 then 13
  else if c = 116 then 9
  else c

def hexCode (a b c d : UInt8) : Option Nat := do
  return (← JsonText.hexDigit a) * 4096 + (← JsonText.hexDigit b) * 256 +
    (← JsonText.hexDigit c) * 16 + (← JsonText.hexDigit d)

-- The bytes of a value up to its quote; a character other than ASCII becomes a question mark.
def decodeValue : CString → CString
  | []                          => []
  | 34 :: _                     => []
  | 92 :: 117 :: a :: b :: c :: d :: p =>
    match hexCode a b c d with
    | some code => (if code ≤ 0x7f then code.toUInt8 else 63) :: decodeValue p
    | none      => 117 :: decodeValue (a :: b :: c :: d :: p)
  | 92 :: c :: p                => unescape c :: decodeValue p
  | c :: p                      => c :: decodeValue p

-- What `json_str_value` leaves in the buffer, and whether it returns the buffer.
structure StrValue where
  found : Bool    := false
  text  : CString := []
  deriving DecidableEq

-- The text ends at the first NUL that is decoded.
def jsonStrValue (json key : CString) (outSize : Nat) : StrValue :=
  match behindName json key with
  | some (34 :: p) =>
    let value := decodeValue p
    { found := value.length < outSize, text := (fit outSize value).takeWhile (· ≠ 0) }
  | _              => {}

def jsonBoolValue (json key : CString) : Option Bool := do
  let p ← behindName json key
  if startsWith p "true" then some true
  else if startsWith p "false" then some false
  else none

end Deneb.CloudMessage
