import DenebModel.Primitives.Scan

-- `common/print/json_field.c` and `common/print/json_string.c`
namespace Deneb.Json

open CString

def isSpace (c : UInt8) : Bool :=
  c == 32 || c == 9 || c == 13 || c == 10

-- What the loop over a quoted value puts into a buffer with room for that many bytes, and the text
-- that is left.
def stringLoop : Nat → CString → CString × CString
  | 0, p        => ([], p)
  | room + 1, p =>
    match p with
    | []           => ([], [])
    | 34 :: p      => ([], 34 :: p)
    | 92 :: c :: p =>
      let (out, rest) := stringLoop room p
      (c :: out, rest)
    | c :: p =>
      let (out, rest) := stringLoop room p
      (c :: out, rest)

def isBare (c : UInt8) : Bool :=
  c != 44 && c != 125 && !isSpace c

-- The text that is searched for.
def quoted (key : CString) : CString :=
  fit 128 (34 :: key ++ [34])

-- The value that follows a key: the return code and what is in the buffer of `size` bytes. When the
-- closing quote is missing, the bytes so far are left in the buffer without a terminator.
def readValue (p : CString) (size : Nat) : Int × CString :=
  let p := p.dropWhile fun c => isSpace c || c == 58
  match p with
  | 34 :: p =>
    let (out, rest) := stringLoop (size - 1) p
    (if rest.head? = some 34 then 0 else -1, out)
  | _ => (0, (p.takeWhile isBare).take (size - 1))

-- `deneb_json_get_value`
def getValue (json key : CString) (size : Nat) : Int × CString :=
  match strstr json (quoted key) with
  | none   => (-1, [])
  | some p => readValue (p.drop (quoted key).length) size

-- `deneb_json_get_float_value`, with the value before the call.
def getFloatValue (json key : CString) (value : BinaryFloat) : BinaryFloat :=
  let (rc, text) := getValue json key 64
  if rc ≠ 0 then value
  else
    match Scan.strtof text with
    | none                => value
    | some (parsed, rest) => if (rest.dropWhile isSpace).isEmpty then parsed else value

-- `deneb_json_get_float`
def getFloat (json key : CString) (default : BinaryFloat) : BinaryFloat :=
  let (rc, text) := getValue json key 64
  if rc ≠ 0 then default
  else
    match Scan.strtof text with
    | none             => .zero
    | some (parsed, _) => parsed

-- `deneb_json_get_int`
def getInt (json key : CString) (default : Int) : Int :=
  let (rc, text) := getValue json key 64
  if rc ≠ 0 then default else Scan.strtol text

-- `deneb_json_get_int_value`, with the value before the call.
def getIntValue (json key : CString) (value : Int) : Int :=
  let (rc, text) := getValue json key 64
  if rc ≠ 0 then value
  else
    match Scan.integer text with
    | none           => value
    | some (_, rest) => if (rest.dropWhile isSpace).isEmpty then Scan.strtol text else value

-- `deneb_json_value_is_truthy`
def isTruthy (value : CString) : Bool :=
  value == "true" || value == "t" || value == "yes" || value == "1"

-- `deneb_json_get_truthy_value`
def getTruthy (json key : CString) : Option Bool :=
  let (rc, text) := getValue json key 32
  if rc ≠ 0 then none else some (isTruthy text)

-- The bytes that stand for a byte of a string.
def escapeByte (c : UInt8) : CString :=
  if c = 34 ∨ c = 92 then [92, c] else if 32 ≤ c then [c] else []

def escape (s : CString) : CString :=
  s.flatMap escapeByte

-- The loop of `deneb_json_escape_string` over a buffer with room for that many bytes besides the
-- terminator. When there is no room for both bytes, a quote is written without its backslash.
def escapeLoop : Nat → CString → CString
  | _, []              => []
  | 0, _               => []
  | 1, c :: s          => if 32 ≤ c then c :: escapeLoop 0 s else escapeLoop 1 s
  | room + 2, c :: s =>
    if c = 34 ∨ c = 92 then 92 :: c :: escapeLoop room s
    else if 32 ≤ c then c :: escapeLoop (room + 1) s
    else escapeLoop (room + 2) s

-- `deneb_json_escape_string`
def escapeString (s : CString) (size : Nat) : CString :=
  escapeLoop (size - 1) s

-- `json_escape_string` of `dfsvc/src/main.c`, the same loop; without a source it writes nothing.
def dfsvcEscapeString (src : Option CString) (size : Nat) : CString :=
  escapeLoop (size - 1) (src.getD [])

end Deneb.Json
