import DenebModel.Primitives.BinaryFloat

namespace Deneb

open CString BinaryFloat

-- `DENEB_PRINTSVC_MAX_COMMANDS`; no policy below is longer.
def maxCommands : Nat := 16

abbrev MotionPolicy := List CString

-- `snprintf` of a format with one `%.3g`.
def formatValue (before : CString) (value : BinaryFloat) (after : CString) : CString :=
  before ++ formatG 3 value ++ after

namespace MotionPolicy

def maxPositionX : BinaryFloat := ofNat 223
def maxPositionY : BinaryFloat := ofNat 220
def maxPositionZ : BinaryFloat := ofNat 205
def maxNozzleTemp : BinaryFloat := ofNat 260

inductive Axis
  | x | y | z
  deriving DecidableEq

def Axis.max : Axis → BinaryFloat
  | x => maxPositionX
  | y => maxPositionY
  | z => maxPositionZ

def isFinite : BinaryFloat → Bool
  | .fin .. => true
  | _       => false

-- `deneb_gcode_valid_position_value`
def validPositionValue (axis : Axis) (value : BinaryFloat) : Bool :=
  isFinite value && le zero value && le value axis.max

def clampPosition (axis : Axis) (value : BinaryFloat) : BinaryFloat :=
  if lt value zero then zero
  else if !validPositionValue axis value then axis.max
  else value

def abort : MotionPolicy :=
  ["G91", "G1 X20 Y20 E-6.5 F9000", "G1 Z3", "G90", "G10 S-16.5", "G28 X Y", "G28 Z", "M104 S0",
   "M140 S0", "M106 S0", "M400", "M84"]

def finish : MotionPolicy :=
  ["M400", "G91", "G1 Z3", "G90", "G28 X Y", "G28 Z", "M104 S0", "M140 S0", "M106 S0", "M400",
   "M84"]

def pause (x _y z : BinaryFloat) : MotionPolicy :=
  let x := clampPosition .x x
  let z := clampPosition .z z
  let wipeX := clampPosition .x <|
    add single x (if le x (ofNat 100) then ofNat 50 else neg (ofNat 50))
  let liftZ := clampPosition .z (if le z (ofNat 200) then add single z (ofNat 10) else z)
  ["M83", "G0 F9000", formatValue "G1 E-6.5 X" wipeX [], formatValue "G0 Z" liftZ [], "G0 X5 Y10",
   "M82", "G10 S-16.5 F1500", formatValue "G0 Z" maxPositionZ " F9000", "M400", "M104 S0"]

-- The nozzle temperature a resume heats to; 0 means a resume without heating.
def resumeSetpoint (nozzleSetpoint : BinaryFloat) : BinaryFloat :=
  let setpoint := if lt nozzleSetpoint zero then zero else nozzleSetpoint
  if lt maxNozzleTemp setpoint then maxNozzleTemp else setpoint

def resume (x y z e r0 nozzleSetpoint : BinaryFloat) : MotionPolicy :=
  let x := clampPosition .x x
  let y := clampPosition .y y
  let z := clampPosition .z z
  let setpoint := resumeSetpoint nozzleSetpoint
  let heated := lt zero setpoint
  let before : MotionPolicy :=
    [formatValue "M104 S" setpoint [], formatValue "M109 S" setpoint [], "M83", "G0 E10 F1500"]
  let move : MotionPolicy :=
    ["G0 F9000", formatValue "G0 X" x " Y" ++ formatG 3 y, formatValue "G0 Z" z []]
  let after : MotionPolicy :=
    ["G0 E6.5 F1500", "M82", formatValue "G10 S" r0 [], formatValue "G92 E" e []]
  let probe : MotionPolicy := ["M105"]
  (if heated then before else []) ++ move ++ (if heated then after else []) ++ probe

end MotionPolicy

-- The four command lists that the service works off, one command after the other.
inductive PolicyKind
  | abort
  | finish
  | pause
  | resume
  deriving DecidableEq

-- A policy with the index of its next command.
structure PolicyRun where
  pending : Bool         := false
  policy  : MotionPolicy := []
  index   : Nat          := 0
  deriving DecidableEq

end Deneb
