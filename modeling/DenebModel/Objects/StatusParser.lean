import DenebModel.Primitives.Scan
import DenebModel.Objects.Status

namespace Deneb

open CString BinaryFloat

inductive ParseResult
  | noMatch
  | fault
  | version
  | temperature
  | homeDistance
  | position
  deriving DecidableEq

namespace StatusParser

-- What `sscanf` reads with `%f` from a position of the line.
def scanFloat (s : CString) : Option (BinaryFloat × CString) :=
  Scan.float single s

-- `sscanf(p, "%f /%f%n", ...)`: the current temperature and, if the whole format matched, the target.
def scanPair (p : CString) : Option (BinaryFloat × Option BinaryFloat) := do
  let (current, rest) ← scanFloat p
  let target := do
    let rest ← Scan.text "/" (Scan.blank rest)
    let (target, _) ← scanFloat rest
    return target
  return (current, target)

-- The temperatures after the first `key` of the line; the second one is kept if it is missing.
def parseTemperaturePair (line key : CString) (temps : BinaryFloat × BinaryFloat) :
    Option (BinaryFloat × BinaryFloat) := do
  let p ← strstr line key
  let (current, target) ← scanPair (p.drop key.length)
  return (current, target.getD temps.2)

def headKeys : List CString :=
  ["T:", "T0:", "T1:", "T2:", "T3:", "T4:", "T5:", "T6:", "T7:", "T8:", "T9:"]

def parseHeadTemperature (line : CString) (temps : BinaryFloat × BinaryFloat) :
    Option (BinaryFloat × BinaryFloat) :=
  headKeys.findSome? fun key => parseTemperaturePair line key temps

-- The compact form `B<current>/<target>@` at some `B` of the line.
def parseCompactBed : CString → Option (BinaryFloat × BinaryFloat)
  | []     => none
  | c :: v =>
    let here := do
      let d ← v.head?
      guard (c = 66 ∧ (d = 45 ∨ d = 43 ∨ isDigit d))
      let (current, rest) ← scanFloat v
      let rest ← Scan.text "/" rest
      let (target, rest) ← scanFloat rest
      guard (rest.head? = some 64)
      return (current, target)
    match here with
    | some temps => some temps
    | none       => parseCompactBed v

def parseBedTemperature (line : CString) (temps : BinaryFloat × BinaryFloat) :
    Option (BinaryFloat × BinaryFloat) :=
  (parseTemperaturePair line "B:" temps) <|> parseCompactBed line

def parseTopcapTemperature : CString → Option (Bool × BinaryFloat)
  | []     => none
  | c :: v =>
    let here := do
      let d ← v.head?
      guard (c = 116 ∧ isDigit d)
      let (present, rest) ← Scan.int v
      let rest ← Scan.text "/" rest
      let (current, _) ← scanFloat rest
      return (present == 1, current)
    match here with
    | some topcap => some topcap
    | none        => parseTopcapTemperature v

def containsHomeDistanceMarker (line : CString) : Bool :=
  let compact := ((line.filter isAlnum).take 63).map toLower
  contains compact "homedistance" || contains compact "g28distance"

def parseAxisValue (axis : UInt8) : CString → Option BinaryFloat
  | []     => none
  | c :: v =>
    let here := do
      guard (c = axis)
      match skipSpaces v with
      | d :: v => guard (d = 58 ∨ d = 61); (scanFloat (skipSpaces v)).map (·.1)
      | []     => none
    match here with
    | some value => some value
    | none       => parseAxisValue axis v

def parsePrefixedValue (line key : CString) : Option BinaryFloat := do
  let p ← strstr line key
  let p := p.drop key.length
  let p := match p with
    | c :: rest => if c = 58 ∨ c = 61 then rest else p
    | []        => p
  let (value, _) ← scanFloat (skipSpaces p)
  return value

def parseHomeDistance (line : CString) (status : Status) : Option Status :=
  if !containsHomeDistanceMarker line then none
  else
    let axis := fun upper lower => (parseAxisValue lower line) <|> parseAxisValue upper line
    let x := axis 88 120
    let y := axis 89 121
    let z := axis 90 122
    if x.isNone && y.isNone && z.isNone then none
    else some { status with
      homeX             := x.getD status.homeX
      homeY             := y.getD status.homeY
      homeZ             := z.getD status.homeZ
      homeDistanceValid := true }

-- The part of `src` before `marker` in a buffer of `size` bytes.
def copyUntilMarker (src marker : CString) (size : Nat) : CString :=
  let len := match strstr src marker with
    | some rest => src.length - rest.length
    | none      => src.length
  fit size (trimRight (src.take len))

def scanMachineType (line : CString) : Option (CString × Int × CString) := do
  let rest ← strstr line "MACHINE_TYPE:"
  let rest ← Scan.text "MACHINE_TYPE:" rest
  let (type, rest) ← Scan.word 15 rest
  let rest ← Scan.text "PCB_ID:" (Scan.blank rest)
  let (pcbId, rest) ← Scan.int rest
  let rest ← Scan.text "BUILD:\"" (Scan.blank rest)
  let (build, _) ← Scan.upTo 63 34 rest
  return (type, pcbId, build)

def parseVersionLine (line : CString) (status : Status) : Option Status :=
  match scanMachineType line with
  | some (type, pcbId, build) => some { status with
      machineType := fit 16 type
      pcbId       := pcbId
      pcbIdValid  := true
      firmware    := fit 64 build }
  | none =>
    match strstr line "FIRMWARE_NAME:" with
    | some rest => some { status with
        firmware := copyUntilMarker (rest.drop 14) " SOURCE_CODE_URL:" 64 }
    | none => if contains line "Cap:" then some status else none

-- The temperature parsers in their order; each of them may match.
def parseTemperatures (line : CString) (status : Status) : Option Status :=
  let head := parseHeadTemperature line (status.headTCur, status.headTSet)
  let bed := parseBedTemperature line (status.bedTCur, status.bedTSet)
  let topcap := parseTopcapTemperature line
  if head.isNone && bed.isNone && topcap.isNone then none
  else some { status with
    headTCur      := (head.map (·.1)).getD status.headTCur
    headTSet      := (head.map (·.2)).getD status.headTSet
    bedTCur       := (bed.map (·.1)).getD status.bedTCur
    bedTSet       := (bed.map (·.2)).getD status.bedTSet
    topcapPresent := (topcap.map (·.1)).getD status.topcapPresent
    topcapTCur    := (topcap.map (·.2)).getD status.topcapTCur }

-- `sscanf(line, "X:%f Y:%f Z:%f E:%f", ...)`
def scanPosition (line : CString) :
    Option (BinaryFloat × BinaryFloat × BinaryFloat × BinaryFloat) := do
  let rest ← Scan.text "X:" line
  let (x, rest) ← scanFloat rest
  let rest ← Scan.text "Y:" (Scan.blank rest)
  let (y, rest) ← scanFloat rest
  let rest ← Scan.text "Z:" (Scan.blank rest)
  let (z, rest) ← scanFloat rest
  let rest ← Scan.text "E:" (Scan.blank rest)
  let (e, _) ← scanFloat rest
  return (x, y, z, e)

-- Whether a line reports a fault.
def isFaultLine (line : CString) : Bool :=
  (contains line "Error:" || contains line "!!" || contains line "Fault") &&
    !Error.lineIsRecoverableSerial line

def parseMarlinLine (status : Status) (line : CString) : ParseResult × Status :=
  if line.isEmpty then (.noMatch, status)
  else if isFaultLine line then
    (.fault, { status with
      fault := true
      error := Error.fromMarlinLine line
      state := .error
      req   := PrintControl.reqForPhase .error })
  else
    match parseVersionLine line status with
    | some status => (.version, status)
    | none =>
      match parseTemperatures line status with
      | some status => (.temperature, status)
      | none =>
        match parseHomeDistance line status with
        | some status => (.homeDistance, status)
        | none =>
          match scanPosition line with
          | some (x, y, z, e) => (.position, { status with
              x := x, y := y, z := z, e := e
              r0 := (parsePrefixedValue line "R0").getD status.r0
              positionReportCount := status.positionReportCount + 1 })
          | none => (.noMatch, status)

end StatusParser
end Deneb
