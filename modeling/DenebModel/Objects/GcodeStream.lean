import DenebModel.Primitives.Scan
import DenebModel.Objects.MarlinPacket
import DenebModel.Objects.MotionPolicy

namespace Deneb

open CString BinaryFloat

structure GcodeRewrite where
  commands      : List CString := []
  waitForBed    : Bool         := false
  waitForNozzle : Bool         := false
  waitTarget    : BinaryFloat  := zero
  deriving DecidableEq

namespace GcodeRewrite

def retractDistance : BinaryFloat := literal 65 10
def coldZoneDistance : BinaryFloat := literal 165 10
def primeDistance : BinaryFloat := literal 85 10
def slowWipeSpeed : BinaryFloat := ofNat 1200

def commandStartsWith (line p : CString) : Bool :=
  let line := skipSpaces line
  startsWith line p &&
    match line.drop p.length with
    | []     => true
    | c :: _ => isSpace c

def scanFloatParam (param : UInt8) : CString → Option BinaryFloat
  | []     => none
  | c :: s =>
    let here := if toUpper c = toUpper param then Scan.float single s else none
    match here with
    | some (value, _) => some value
    | none            => scanFloatParam param s

-- The target of a wait command: its `S` parameter, and 0 for a missing or negative one.
def waitTargetOf (line : CString) : BinaryFloat :=
  let target := (scanFloatParam 83 line).getD zero
  if lt target zero then zero else target

def waitCommand (line : CString) : Option GcodeRewrite :=
  if commandStartsWith line "M190" then
    let target := waitTargetOf line
    some { commands := [formatValue "M140 S" target []], waitForBed := true, waitTarget := target }
  else if commandStartsWith line "M109" then
    let target := waitTargetOf line
    some { commands := [formatValue "M104 S" target []], waitForNozzle := true, waitTarget := target }
  else none

def primeSequence : List CString :=
  let e := mul single primeDistance (literal 9 10)
  let e' := add single e (mul single primeDistance (literal 1 10))
  let waitSpeed := fun x => mul single (mul single x (literal 1 10)) (ofNat 60)
  ["G0 Z2 F9000",
   formatValue "G10 S" (neg retractDistance) " F1500",
   "G10 S0 F300",
   "G92 E0",
   formatValue "G1 E" e " F75",
   formatValue "G1 E" e' " Z6 F150",
   formatValue "G0 Z6.1 F" (waitSpeed (literal 2 10)) [],
   "G92 E0",
   formatValue "G1 E" (neg retractDistance) " F600",
   formatValue "G0 Z6.2 F" (waitSpeed (literal 4 10)) [],
   "G91",
   formatValue "G0 Y10 F" slowWipeSpeed [],
   "G90",
   formatValue "G0 Z2 F" slowWipeSpeed [],
   "G0 F9000"]

def primeCommand (line : CString) : Option GcodeRewrite :=
  if !commandStartsWith line "G280" then none
  else if ((scanFloatParam 83 line).getD zero).toInt ≠ 0 then
    some { commands := [formatValue "G92 E" (neg coldZoneDistance) []] }
  else some { commands := primeSequence }

-- `deneb_gcode_rewrite_line`, which fails for null pointers only.
def line (line : CString) : GcodeRewrite :=
  if commandStartsWith line "M117" then {}
  else
    match waitCommand line with
    | some rewrite => rewrite
    | none =>
      match primeCommand line with
      | some rewrite => rewrite
      | none         => { commands := [fit maxGcodeLine line] }

end GcodeRewrite

-- The line buffer of a caller of `deneb_gcode_stream_next`, with whatever it held before.
structure LineBuffer where
  bytes        : List UInt8
  bytes_length : bytes.length = maxGcodeLine

namespace LineBuffer

def setAll (bytes : List UInt8) : Nat → List UInt8 → List UInt8
  | _, []      => bytes
  | i, b :: bs => setAll (bytes.set i b) (i + 1) bs

theorem length_setAll {bytes : List UInt8} {i : Nat} {bs : List UInt8} :
    (setAll bytes i bs).length = bytes.length := by
  induction bs generalizing bytes i
  case nil          => rfl
  case cons b bs ih => rw [setAll, ih, List.length_set]

def write (buffer : LineBuffer) (i : Nat) (bs : List UInt8) : LineBuffer where
  bytes        := setAll buffer.bytes i bs
  bytes_length := length_setAll.trans buffer.bytes_length

def text (buffer : LineBuffer) : CString :=
  buffer.bytes.takeWhile (· ≠ 0)

def blank : LineBuffer where
  bytes        := List.replicate maxGcodeLine 0
  bytes_length := List.length_replicate

end LineBuffer

-- A G-code file that is being read. `reads` are the results of the reads that are left, byte by byte
-- (`none` is a failed read), and the file ends where they end.
structure GcodeStream where
  isOpen               : Bool                := false
  reads                : List (Option UInt8) := []
  lineNumber           : Nat                 := 0
  hasPrimeCmd          : Bool                := false
  pending              : List CString        := []
  lastWaitForBed       : Bool                := false
  lastWaitForNozzle    : Bool                := false
  lastWaitTarget       : BinaryFloat         := zero
  lastLayerZero        : Bool                := false
  lastTimeElapsedValid : Bool                := false
  lastTimeElapsed      : BinaryFloat         := zero
  deriving DecidableEq

-- A file as the service sees it: the reads through its descriptor, and the bytes that `fgets` yields
-- when the file is opened once more.
structure JobFile where
  reads : List (Option UInt8)
  text  : List UInt8

namespace GcodeStream

-- The lines that `fgets` makes of the bytes, with a buffer of 256 bytes.
def fgetsLines : List UInt8 → List UInt8 → List CString
  | [], read      => if read.isEmpty then [] else [read.takeWhile (· ≠ 0)]
  | b :: bs, read =>
    let read := read ++ [b]
    if b = 10 ∨ read.length = maxGcodeLine - 1 then read.takeWhile (· ≠ 0) :: fgetsLines bs []
    else fgetsLines bs read

def primeLoop : List CString → Nat → Bool
  | [], _             => false
  | line :: lines, nr =>
    if 50 < nr then false
    else
      let p := skipSpaces line
      if p.head? = some 59 then primeLoop lines nr
      else if startsWith p "G280" && ((p.drop 4).head?.all isSpace) then true
      else primeLoop lines (nr + 1)

def hasFilePrimeCommand (file : JobFile) : Bool :=
  primeLoop (fgetsLines file.text []) 0

-- `deneb_gcode_stream_open`, with the file if it can be opened.
def «open» (file : JobFile) : GcodeStream where
  isOpen      := true
  reads       := file.reads
  hasPrimeCmd := hasFilePrimeCommand file

def close (stream : GcodeStream) : GcodeStream :=
  { lineNumber := stream.lineNumber }

-- The loop of `stream_read_line`: its return value, the buffer and the reads that are left. At the end
-- of the file the line in the buffer is not terminated.
def readLoop : List (Option UInt8) → Nat → LineBuffer → Int × LineBuffer × List (Option UInt8)
  | [], len, buffer             => (if 0 < len then 1 else 0, buffer, [])
  | none :: reads, _, buffer    => (-1, buffer, reads)
  | some c :: reads, len, buffer =>
    if c = 13 then readLoop reads len buffer
    else if c = 10 then (1, buffer.write len [0], reads)
    else if len + 1 < maxGcodeLine then readLoop reads (len + 1) (buffer.write len [c])
    else readLoop reads len buffer

def readLine (reads : List (Option UInt8)) (buffer : LineBuffer) :
    Int × LineBuffer × List (Option UInt8) :=
  readLoop reads 0 (buffer.write 0 [0])

def clearLast (stream : GcodeStream) : GcodeStream :=
  { stream with
    lastWaitForBed       := false
    lastWaitForNozzle    := false
    lastWaitTarget       := zero
    lastLayerZero        := false
    lastTimeElapsedValid := false
    lastTimeElapsed      := zero }

-- The command of a line without blanks around it and without its comment.
def commandOf (p : CString) : CString :=
  trimRight (p.takeWhile (· ≠ 59))

-- What cutting the comment, trimming and moving the command to the front leave in the buffer.
def isolate (buffer : LineBuffer) : LineBuffer :=
  let text := buffer.text
  let p := skipSpaces text
  let body := p.takeWhile (· ≠ 59)
  let command := commandOf p
  let start := text.length - p.length
  let cut := if body.length < p.length then buffer.write (start + body.length) [0] else buffer
  let trimmed := cut.write (start + command.length)
    (List.replicate (body.length - command.length) 0)
  if start = 0 then trimmed else trimmed.write 0 (command ++ [0])

-- The loop of `deneb_gcode_stream_next`. Every round takes at least one read.
def nextLoop : Nat → GcodeStream → LineBuffer → Int × CString × GcodeStream
  | 0, stream, _           => (0, [], stream)
  | rounds + 1, stream, buffer =>
    let (rc, buffer, reads) := readLine stream.reads buffer
    let stream := { stream with reads := reads }
    if rc ≤ 0 then (0, [], stream)
    else
      let stream := { stream with lineNumber := stream.lineNumber + 1 }
      let p := skipSpaces buffer.text
      if startsWith p ";LAYER:0" then
        nextLoop rounds { stream with lastLayerZero := true } buffer
      else if startsWith p ";TIME_ELAPSED:" then
        match Scan.strtod (p.drop 14) with
        | some elapsed =>
          if le zero elapsed then
            nextLoop rounds { stream with
              lastTimeElapsedValid := true
              lastTimeElapsed      := elapsed.convert single } buffer
          else nextLoop rounds stream buffer
        | none => nextLoop rounds stream buffer
      else if p.isEmpty || p.head? = some 59 then nextLoop rounds stream buffer
      else
        let rewrite := GcodeRewrite.line (commandOf p)
        match rewrite.commands with
        | []            => nextLoop rounds stream (isolate buffer)
        | command :: rest => (1, fit maxGcodeLine command, { stream with
            lastWaitForBed    := rewrite.waitForBed
            lastWaitForNozzle := rewrite.waitForNozzle
            lastWaitTarget    := rewrite.waitTarget
            pending           := rest.map (fit maxGcodeLine) })

def next (stream : GcodeStream) (buffer : LineBuffer) : Int × CString × GcodeStream :=
  if !stream.isOpen then (-1, [], stream)
  else
    let stream := stream.clearLast
    match stream.pending with
    | line :: rest => (1, fit maxGcodeLine line, { stream with pending := rest })
    | []           => nextLoop (stream.reads.length + 1) stream buffer

-- The successive outputs of `next`, whatever the line buffers held, and the stream after them.
inductive Emits (stream₀ : GcodeStream) : List CString → GcodeStream → Prop
  | nil : Emits stream₀ [] stream₀
  | next (buffer : LineBuffer) :
    Emits stream₀ lines stream → stream.next buffer = (rc, line, stream') → 0 < rc →
    Emits stream₀ (lines ++ [line]) stream'

-- The last line that was read asks for a heater wait.
def asksWait (stream : GcodeStream) : Bool :=
  stream.lastWaitForBed || stream.lastWaitForNozzle

end GcodeStream
end Deneb
