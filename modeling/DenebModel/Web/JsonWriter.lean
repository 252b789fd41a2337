import DenebModel.Primitives.BinaryFloat

-- `web/src/json_writer.c`
namespace Deneb

open CString BinaryFloat

-- `json_writer_t`, with the bytes of the buffer up to `pos`.
structure JsonWriter where
  buf       : List UInt8 := []
  cap       : Nat
  depth     : Int        := 0
  needComma : Bool       := false
  deriving DecidableEq

namespace JsonWriter

-- `json_init`
def init (cap : Nat) : JsonWriter :=
  { cap := cap }

def put (w : JsonWriter) (c : UInt8) : JsonWriter :=
  if w.buf.length < w.cap - 1 then { w with buf := w.buf ++ [c] } else w

-- `puts_s`
def puts (w : JsonWriter) (s : CString) : JsonWriter :=
  s.foldl put w

def comma (w : JsonWriter) : JsonWriter :=
  { if w.needComma then w.put 44 else w with needComma := true }

-- The bytes that are put for a byte of a string.
def escaped (c : UInt8) : CString :=
  if c = 34 ∨ c = 92 then [92, c]
  else if c = 10 then [92, 110]
  else if c = 13 then [92, 114]
  else if c = 9 then [92, 116]
  else [c]

def writeEscapedStr (w : JsonWriter) (s : CString) : JsonWriter :=
  (s.foldl (fun w c => w.puts (escaped c)) (w.put 34)).put 34

def writeKey (w : JsonWriter) (key : CString) : JsonWriter :=
  (w.comma.writeEscapedStr key).put 58

-- `json_obj_open` and `json_arr_open`
def opened (w : JsonWriter) (c : UInt8) : JsonWriter :=
  let w := w.comma.put c
  { w with depth := w.depth + 1, needComma := false }

-- `json_obj_close` and `json_arr_close`
def closed (w : JsonWriter) (c : UInt8) : JsonWriter :=
  let w := w.put c
  { w with depth := w.depth - 1, needComma := true }

-- The texts of the buffers that `snprintf` fills.
def integerText (val : Int64) : CString :=
  fit 32 (formatD val.toInt)

def floatText (val : BinaryFloat) : CString :=
  fit 48 (formatF 1 val)

-- The functions of the writer; a string may be a null pointer.
inductive Call
  | objOpen
  | objClose
  | arrOpen
  | arrClose
  | str (key : CString) (val : Option CString)
  | int (key : CString) (val : Int64)
  | float (key : CString) (val : BinaryFloat)
  | bool (key : CString) (val : Int)
  | null (key : CString)
  | raw (key rawJson : CString)
  | key (key : CString)
  | arrStr (val : Option CString)
  | arrInt (val : Int64)
  | arrFloat (val : BinaryFloat)
  | bareStr (val : Option CString)
  deriving DecidableEq

def step (w : JsonWriter) : Call → JsonWriter
  | .objOpen       => w.opened 123
  | .objClose      => w.closed 125
  | .arrOpen       => w.opened 91
  | .arrClose      => w.closed 93
  | .str key val   => (w.writeKey key).writeEscapedStr (val.getD [])
  | .int key val   => (w.writeKey key).puts (integerText val)
  | .float key val => (w.writeKey key).puts (floatText val)
  | .bool key val  => (w.writeKey key).puts (if val ≠ 0 then "true" else "false")
  | .null key      => (w.writeKey key).puts "null"
  | .raw key text  => (w.writeKey key).puts text
  | .key key       => { w.writeKey key with needComma := false }
  | .arrStr val    => w.comma.writeEscapedStr (val.getD [])
  | .arrInt val    => w.comma.puts (integerText val)
  | .arrFloat val  => w.comma.puts (floatText val)
  | .bareStr val   => w.writeEscapedStr (val.getD [])

def run (w : JsonWriter) (calls : List Call) : JsonWriter :=
  calls.foldl step w

-- `json_len`: the length, and the bytes of the buffer with the terminator behind them.
def len (w : JsonWriter) : Nat × List UInt8 :=
  (w.buf.length, w.buf ++ [0])

end JsonWriter
end Deneb
