import DenebModel.Wire.JsonField

-- `deneb_json_get_value` with the bytes of its buffer.
namespace Deneb.Json

open CString

-- The text behind the quoted key, and behind the blanks and colons that follow it.
def valuePlace (json key : CString) : Option CString :=
  (strstr json (quoted key)).map fun p =>
    (p.drop (quoted key).length).dropWhile fun c => isSpace c || c == 58

-- The loop over a quoted value, from the index `i` of the buffer: the text that is left, and the
-- index and the buffer behind the last byte.
def copyQuoted : CString → (i : Nat) → (buffer : List UInt8) → CString × Nat × List UInt8
  | [], i, buffer           => ([], i, buffer)
  | 34 :: p, i, buffer      => (34 :: p, i, buffer)
  | 92 :: c :: p, i, buffer =>
    if i < buffer.length - 1 then copyQuoted p (i + 1) (buffer.set i c) else (92 :: c :: p, i, buffer)
  | c :: p, i, buffer       =>
    if i < buffer.length - 1 then copyQuoted p (i + 1) (buffer.set i c) else (c :: p, i, buffer)

-- The loop over any other value.
def copyBare : CString → (i : Nat) → (buffer : List UInt8) → Nat × List UInt8
  | [], i, buffer     => (i, buffer)
  | c :: p, i, buffer =>
    if isBare c && i < buffer.length - 1 then copyBare p (i + 1) (buffer.set i c) else (i, buffer)

-- The return code, and the buffer after the call.
def getValueInto (json key : CString) (buffer : List UInt8) : Int × List UInt8 :=
  if buffer.isEmpty then (-1, buffer)
  else
    let buffer := buffer.set 0 0
    match valuePlace json key with
    | none   => (-1, buffer)
    | some p =>
      match p with
      | 34 :: p =>
        let (rest, i, buffer) := copyQuoted p 0 buffer
        if rest.head? = some 34 then (0, buffer.set i 0) else (-1, buffer)
      | p =>
        let (i, buffer) := copyBare p 0 buffer
        (0, buffer.set i 0)

end Deneb.Json
