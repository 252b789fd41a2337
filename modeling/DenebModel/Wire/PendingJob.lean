import DenebModel.Wire.JsonField

-- `printsvc/src/pending_job.c` and `common/print/pending_job_file.c`
namespace Deneb

open CString Json BinaryFloat

-- `deneb_print_is_cluster_guid`
def isClusterGuid (uuid : CString) : Bool :=
  uuid.length = 36 ∧ ∀ p ∈ uuid.zipIdx,
    if p.2 = 8 ∨ p.2 = 13 ∨ p.2 = 18 ∨ p.2 = 23 then p.1 = 45 else (Scan.hexValue p.1).isSome

-- `DENEB_PRINT_DEFAULT_CLUSTER_JOB_UUID` and `DENEB_PRINTER_DEFAULT_GUID`
def defaultGuid : CString := "00000000-0000-0000-0000-000000000000"

-- `deneb_print_cluster_job_uuid_or_default`
def clusterJobUuidOrDefault (uuid : CString) : CString :=
  if isClusterGuid uuid then uuid else defaultGuid

-- `deneb_printer_identity_copy_line_or_default`
def copyLineOrDefault (value fallback : CString) (size : Nat) : CString :=
  let out := fit size (if value.isEmpty then fallback else value)
  let out := (out.reverse.dropWhile Json.isSpace).reverse
  if out.isEmpty then fit size fallback else out

-- `deneb_printer_identity_guid` into a buffer of 64 bytes, for the line that `uci` prints.
def printerIdentityGuid (line : CString) : CString :=
  let out := (copyLineOrDefault line defaultGuid 64).map toLower
  if isClusterGuid out then out else defaultGuid

-- `deneb_pending_job_t`
structure PendingJob where
  path                    : CString
  name                    : CString
  uuid                    : CString
  source                  : CString
  cloudJobId              : CString
  owner                   : CString
  machineVariant          : CString
  machineFamily           : CString
  materialGuid            : CString
  originMaterialGuid      : CString
  originMaterialName      : CString
  targetMaterialName      : CString
  materialBrand           : CString
  materialType            : CString
  materialColor           : CString
  nozzleId                : CString
  originNozzleId          : CString
  tracker                 : Int
  materialChangeRequired  : Bool
  printCoreChangeRequired : Bool
  deriving DecidableEq

namespace PendingJob

-- Every text fits its array.
structure Fits (job : PendingJob) : Prop where
  path               : job.path.length < 256
  name               : job.name.length < 128
  uuid               : job.uuid.length < 64
  source             : job.source.length < 32
  cloudJobId         : job.cloudJobId.length < 96
  owner              : job.owner.length < 32
  machineVariant     : job.machineVariant.length < 64
  machineFamily      : job.machineFamily.length < 64
  materialGuid       : job.materialGuid.length < 64
  originMaterialGuid : job.originMaterialGuid.length < 64
  originMaterialName : job.originMaterialName.length < 64
  targetMaterialName : job.targetMaterialName.length < 64
  materialBrand      : job.materialBrand.length < 32
  materialType       : job.materialType.length < 32
  materialColor      : job.materialColor.length < 16
  nozzleId           : job.nozzleId.length < 24
  originNozzleId     : job.originNozzleId.length < 24

-- `deneb_pending_job_change_count`
def changeCount (job : PendingJob) : Nat :=
  job.materialChangeRequired.toNat + job.printCoreChangeRequired.toNat

-- The date of a day that many days after 1 January 1970.
def civil (days : Nat) : Nat × Nat × Nat :=
  let z := days + 719468
  let era := z / 146097
  let doe := z % 146097
  let yoe := (doe - doe / 1460 + doe / 36524 - doe / 146096) / 365
  let doy := doe - (365 * yoe + yoe / 4 - yoe / 100)
  let mp := (5 * doy + 2) / 153
  let month := if mp < 10 then mp + 3 else mp - 9
  let year := yoe + era * 400
  (if month ≤ 2 then year + 1 else year, month, doy - (153 * mp + 2) / 5 + 1)

-- `format_pending_created_at` for a time in seconds.
def createdAt (time : Nat) : CString :=
  let (year, month, day) := civil (time / 86400)
  let two := fun n => padLeft 2 (digits n)
  padLeft 4 (digits year) ++ "-" ++ two month ++ "-" ++ two day ++ "T" ++
    two (time / 3600 % 24) ++ ":" ++ two (time / 60 % 60) ++ ":" ++ two (time % 60) ++ ".000Z"

-- A field with a text, and one with anything else.
def field (key value : CString) : CString :=
  "\"" ++ key ++ "\":\"" ++ value ++ "\""

def bareField (key value : CString) : CString :=
  "\"" ++ key ++ "\":" ++ value

-- One entry of the changes that are required.
def change (kind originId originName targetId targetName : CString) : CString :=
  "\x7b" ++ field "type_of_change" kind ++ "," ++ bareField "index" "0" ++ "," ++
    field "origin_id" originId ++ "," ++ field "origin_name" originName ++ "," ++
    field "target_id" targetId ++ "," ++ field "target_name" targetName ++ "\x7d"

-- The text in the buffer `changes`.
def changes (job : PendingJob) : CString :=
  let originGuid := escapeString job.originMaterialGuid 128
  let originName := escapeString job.originMaterialName 128
  let targetName := escapeString job.targetMaterialName 128
  let nozzle := escapeString job.nozzleId 48
  let originNozzle := escapeString job.originNozzleId 48
  let out :=
    if job.materialChangeRequired then
      fit 1024 <| change "material_change" originGuid
        (if originName.isEmpty then originGuid else originName) (escapeString job.materialGuid 128)
        (if targetName.isEmpty then escapeString job.materialType 80 else targetName)
    else []
  if job.printCoreChangeRequired then
    out ++ fit (1024 - out.length) ((if out.isEmpty then [] else ",") ++
      change "print_core_change" originNozzle originNozzle nozzle nozzle)
  else out

-- The format of the first `snprintf` of `deneb_pending_job_serialize`, in four pieces.
def pathText (uuid createdAt name path : CString) : CString :=
  "[\x7b" ++ field "uuid" uuid ++ "," ++ field "created_at" createdAt ++ "," ++
    field "name" name ++ "," ++ field "path" path

def statusText (cloudBinding status started variant : CString) : CString :=
  "," ++ cloudBinding ++ field "status" status ++ "," ++ bareField "time_total" "0" ++ "," ++
    bareField "time_elapsed" "0" ++ "," ++ bareField "started" started ++ "," ++
    bareField "force" "false" ++ "," ++ field "machine_variant" variant

def ownerText (owner printerBinding printerUuid nozzle : CString) : CString :=
  "," ++ field "owner" owner ++ "," ++ printerBinding ++ field "assigned_to" printerUuid ++ "," ++
    bareField "build_plate" "\x7b" ++ field "type" "glass" ++ "\x7d," ++
    bareField "configuration" "[\x7b" ++ bareField "extruder_index" "0" ++ "," ++
    field "print_core_id" nozzle

def materialText (guidBinding brand material color family variant : CString) : CString :=
  "," ++ bareField "material" "\x7b" ++ guidBinding ++ field "brand" brand ++ "," ++
    field "material" material ++ "," ++ field "color" color ++ "\x7d\x7d]," ++
    bareField "constraints" "\x7b\x7d" ++ "," ++ bareField "compatible_machine_families" "[" ++
    "\"" ++ family ++ "\",\"" ++ variant ++ "\"]," ++ bareField "impediments_to_printing" "[]"

-- A field with the comma behind it in a buffer of its own, or nothing for an empty value.
def binding (size : Nat) (key value : CString) : CString :=
  if value.isEmpty then [] else fit size (field key value ++ ",")

-- `material_guid` is written only if it is a GUID.
def guid (job : PendingJob) : CString :=
  if isClusterGuid job.materialGuid then escapeString job.materialGuid 128 else []

def hasChanges (job : PendingJob) : Bool :=
  0 < job.changeCount

-- The text of the first `snprintf`. The printer's own identity is the line that `uci` prints, and the
-- time is needed for a job without a tracker.
def head (job : PendingJob) (line : CString) (now : Nat) : CString :=
  let variant := escapeString job.machineVariant 128
  let printerUuid := escapeString (printerIdentityGuid line) 128
  let printerBinding := if job.hasChanges then [] else fit 192 (field "printer_uuid" printerUuid ++ ",")
  pathText (escapeString (clusterJobUuidOrDefault job.uuid) 128)
      (fit 40 (createdAt (if 0 ≤ job.tracker then job.tracker.toNat else now)))
      (escapeString job.name 256) (escapeString job.path 512) ++
    statusText (binding 224 "cloud_job_id" (escapeString job.cloudJobId 192))
      (if job.hasChanges then "wait_user_action" else "pre_print")
      (if job.hasChanges then "false" else "true") variant ++
    ownerText (escapeString job.owner 80) printerBinding printerUuid (escapeString job.nozzleId 48) ++
    materialText (binding 160 "guid" job.guid) (escapeString job.materialBrand 80)
      (escapeString job.materialType 80) (escapeString job.materialColor 40)
      (escapeString job.machineFamily 128) variant

-- `snprintf` behind what is already in a buffer of `size` bytes.
def appendTo (size : Nat) (text out : CString) : Option CString :=
  if text.length < size - out.length then some (out ++ text) else none

-- `deneb_pending_job_serialize`
def serialize (job : PendingJob) (line : CString) (now size : Nat) : Option CString :=
  if size = 0 ∨ job.path.isEmpty then none
  else do
    let out ← appendTo size (job.head line now) []
    let out ←
      if 0 ≤ job.tracker then appendTo size ("," ++ bareField "deneb_tracker" (formatD job.tracker)) out
      else some out
    let out ←
      if job.changes.isEmpty then some out
      else appendTo size ("," ++ bareField "configuration_changes_required" ("[" ++ job.changes ++ "]")) out
    if size ≤ out.length + 3 then none else some (out ++ "\x7d]\n")

-- What the calls to the file system return.
structure WriteResults where
  opened  : Bool
  written : Bool
  closed  : Bool
  renamed : Bool

-- `deneb_pending_job_write_file`: the new content of the file, if it succeeds.
def writeFile (job : PendingJob) (line : CString) (now : Nat) (target : CString)
    (results : WriteResults) : Option CString :=
  if target.isEmpty then none
  else do
    let json ← job.serialize line now 4096
    if 320 ≤ target.length + 4 then none
    else if results.opened ∧ results.written ∧ results.closed ∧ results.renamed then some json
    else none

end PendingJob

-- `deneb_pending_job_file_t`
structure PendingJobFile where
  path                    : CString := []
  name                    : CString := []
  uuid                    : CString := []
  source                  : CString := []
  cloudJobId              : CString := []
  originName              : CString := []
  targetName              : CString := []
  tracker                 : Int     := -1
  hasConfigurationChanges : Bool    := false
  hasMaterialChange       : Bool    := false
  hasPrintCoreChange      : Bool    := false
  deriving DecidableEq

namespace PendingJobFile

-- `read_file`: the end of the file has to be reached before the buffer is full.
def readFile (content : CString) (size : Nat) : Option CString :=
  if content.isEmpty ∨ size - 1 ≤ content.length then none
  else some (content.takeWhile (· != 0))

-- `deneb_pending_job_file_read_raw_array`
def readRawArray (content : CString) (size : Nat) : Option CString := do
  let buf ← readFile content size
  if (skipSpaces buf).head? = some 91 then some buf else none

-- `deneb_pending_job_file_load` of a file with that content.
def load (content : CString) : Option PendingJobFile := do
  let buf ← readRawArray content 8192
  return {
    path                    := (getValue buf "path" 1024).2
    name                    := (getValue buf "name" 128).2
    uuid                    := (getValue buf "uuid" 64).2
    source                  := (getValue buf "source" 32).2
    cloudJobId              := (getValue buf "cloud_job_id" 96).2
    originName              := (getValue buf "origin_name" 96).2
    targetName              := (getValue buf "target_name" 96).2
    tracker                 := getIntValue buf "deneb_tracker" (-1)
    hasConfigurationChanges := contains buf "\"configuration_changes_required\""
    hasMaterialChange       := contains buf "\"material_change\""
    hasPrintCoreChange      := contains buf "\"print_core_change\""
  }

-- `deneb_pending_job_file_is_pending`
def isPending (file : PendingJobFile) : Bool :=
  0 ≤ file.tracker

-- `deneb_pending_job_file_has_conflict`
def hasConflict (file : PendingJobFile) : Bool :=
  file.isPending && file.hasConfigurationChanges && (file.hasMaterialChange || file.hasPrintCoreChange)

end PendingJobFile

end Deneb
