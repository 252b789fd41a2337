import DenebModel.Files.Ufp
import DenebModel.Primitives.BinaryFloat
import DenebModel.Wire.CloudMessage
import DenebModel.Wire.JsonField

-- `dfsvc/src/main.c`: the requests of the cloud that the printer works off, and the answers.
namespace Deneb.Cloud

open CString CloudMessage Json

-- `df_is_guid`
def isGuid (uuid : CString) : Bool :=
  uuid.length = 36 ∧ ∀ p ∈ uuid.zipIdx,
    if p.2 = 8 ∨ p.2 = 13 ∨ p.2 = 18 ∨ p.2 = 23 then p.1 = 45
    else isDigit p.1 ∨ (97 ≤ p.1 ∧ p.1 ≤ 102)

def guidOrEmpty (uuid : CString) : CString :=
  if isGuid uuid then uuid else []

-- What is done for a request besides the answer, with the result of each operation. The first is
-- the question whether the printer is idle.
inductive Operation
  | status (idle : Bool)
  | download (url path : CString) (rc : Int)
  | extract (source target : CString) (rc : Int)
  | prepend (path material printCore : CString) (rc : Int)
  | validate (path : CString) (rc : Int)
  | upload (path name uuid jobId : CString) (code : Int)
  | unlink (path : CString)
  | action (body : CString) (code : Int)
  | rename (name : CString) (rc : Int)
  | update (printer : CString) (schedule : Bool) (actionId : Option CString) (rc : Int)
  deriving DecidableEq

-- What the rest of the printer says while a message is handled: the status of the printer (the
-- code of the local interface and its text), the clock at both names of a file, and the results of
-- the operations.
structure Answers where
  status        : Int × CString := (200, "idle")
  time          : Int           := 0
  extractedTime : Int           := 0
  download      : Int           := 0
  extract       : Int           := 0
  prepend       : Int           := 0
  validate      : Int           := 0
  upload        : Int           := 200
  action        : Int           := 200
  rename        : Int           := 0
  update        : Int           := 0
  response      : CString       := []

def isEnd (c : UInt8) : Bool :=
  c == 13 || c == 10 || c == 32 || c == 9

-- The text between the quotes, if the status is quoted.
def unquote (status : CString) : CString :=
  if status.head? = some 34 ∧ 2 ≤ status.length ∧ status.getLast? = some 34 then
    status.tail.dropLast
  else status

-- `df_printer_is_idle`
def Answers.isIdle (answers : Answers) : Bool :=
  answers.status.1 = 200 ∧ unquote (answers.status.2.takeWhile (!isEnd ·)) = "idle"

def isAccepted (code : Int) : Bool :=
  200 ≤ code && code < 300

section Print

def isFileByte (c : UInt8) : Bool :=
  isAlnum c || c == 46 || c == 95 || c == 45

def fileByte (c : UInt8) : Option UInt8 :=
  if isFileByte c then some c else if c = 32 then some 95 else none

-- `filename_has_print_extension`
def hasPrintExtension (name : CString) : Bool :=
  Ufp.hasExtension name ".gcode" || Ufp.hasExtension name ".gco" || Ufp.hasExtension name ".ufp"

-- `sanitize_filename`
def sanitizeFilename (name : CString) (size : Nat) : CString :=
  let given : CString := if name.isEmpty then "digital_factory.gcode" else name
  let kept := fit size (given.filterMap fileByte)
  let out := if kept.isEmpty then fit size "digital_factory.gcode" else kept
  if !hasPrintExtension out && out.length + 6 < size then out ++ ofString ".gcode" else out

-- `replace_file_extension`
def replaceFileExtension (name extension : CString) (size : Nat) : CString :=
  if name.isEmpty then fit size (ofString "digital_factory" ++ extension)
  else
    let front := ((strrchr (fit size name) 46).map (·.1)).getD (fit size name)
    if extension.length < size - front.length then front ++ extension else front

def downloadPath (time : Int) (name : CString) : CString :=
  fit 256 (ofString "/tmp/deneb-df-" ++ BinaryFloat.formatD time ++ 45 :: name)

-- The fields of a print request.
structure PrintRequest where
  jobId     : CString
  uuid      : CString
  jobName   : CString
  url       : StrValue
  material  : CString
  printCore : CString

def PrintRequest.read (msg : CString) : PrintRequest where
  jobId     := (jsonStrValue msg "job_id" 96).text
  uuid      := (jsonStrValue msg "job_instance_uuid" 96).text
  jobName   := (jsonStrValue msg "job_name" 160).text
  url       := jsonStrValue msg "download_url" 4096
  material  := guidOrEmpty (jsonStrValue msg "guid" 96).text
  printCore := (jsonStrValue msg "print_core_id" 32).text

def PrintRequest.fileName (req : PrintRequest) : CString :=
  sanitizeFilename req.jobName 192

def PrintRequest.path (req : PrintRequest) (answers : Answers) : CString :=
  downloadPath answers.time req.fileName

def PrintRequest.isUfp (req : PrintRequest) : Bool :=
  Ufp.hasExtension req.fileName ".ufp"

def PrintRequest.uploadName (req : PrintRequest) : CString :=
  if req.isUfp then replaceFileExtension req.fileName ".gcode" 192 else req.fileName

-- The path of the file to be uploaded, once it is extracted.
def PrintRequest.uploadPath (req : PrintRequest) (answers : Answers) : CString :=
  if req.isUfp then downloadPath answers.extractedTime req.uploadName else req.path answers

-- The reason to refuse a request before anything is downloaded.
def PrintRequest.refusal (req : PrintRequest) (answers : Answers) : Option CString :=
  if !answers.isIdle then some "printer_not_idle"
  else if req.jobId.isEmpty then some "missing_job_id"
  else if req.jobName.isEmpty then some "missing_job_name"
  else if req.uuid.isEmpty then some "missing_job_instance_uuid"
  else if !isGuid req.uuid then some "invalid_job_instance_uuid"
  else if !req.url.found || req.url.text.isEmpty then
    some (if req.url.text.isEmpty then "missing_download_url" else "download_url_too_long")
  else none

-- `prepend_file_metadata`, which has nothing to write without metadata.
def PrintRequest.prepend (req : PrintRequest) (answers : Answers) : List Operation × Int :=
  if req.material.isEmpty && req.printCore.isEmpty then ([], 0)
  else
    ([.prepend (req.uploadPath answers) req.material req.printCore answers.prepend],
      answers.prepend)

def PrintRequest.submit (req : PrintRequest) (answers : Answers) : List Operation × CString :=
  let path := req.uploadPath answers
  let (prepended, rc) := req.prepend answers
  if rc ≠ 0 then (prepended, "metadata_prepend_failed")
  else if answers.validate ≠ 0 then
    (prepended ++ [.validate path answers.validate], "build_volume_validation_failed")
  else
    (prepended ++ [.validate path 0, .upload path req.uploadName req.uuid req.jobId answers.upload],
      if isAccepted answers.upload then "queued" else "local_upload_failed")

def PrintRequest.extract (req : PrintRequest) (answers : Answers) : List Operation × CString :=
  if req.isUfp then
    let extracted := .extract (req.path answers) (req.uploadPath answers) answers.extract
    if answers.extract ≠ 0 then ([extracted], "ufp_extract_failed")
    else
      let (operations, reason) := req.submit answers
      (extracted :: operations, reason)
  else req.submit answers

-- What is done for the request, and the reason that is logged. Without a download, the path of the
-- upload is still the one of the download.
def PrintRequest.work (req : PrintRequest) (answers : Answers) : List Operation × CString × CString :=
  let path := req.path answers
  match req.refusal answers with
  | some reason => ([], reason, path)
  | none        =>
    let downloaded := .download req.url.text path answers.download
    if answers.download ≠ 0 then ([downloaded], "download_failed", path)
    else
      let (operations, reason) := req.extract answers
      (downloaded :: operations, reason, req.uploadPath answers)

def removals (path uploadPath : CString) : List Operation :=
  if uploadPath = path then [.unlink path] else [.unlink path, .unlink uploadPath]

def printResponse (jobId status : CString) : CString :=
  fit 512 (ofString "\x7b\"payload\":\x7b\"job_id\":\"" ++ dfsvcEscapeString (some jobId) 192 ++
    ofString "\",\"status\":\"" ++ status ++ ofString "\"\x7d,\"type\":\"print_response\"\x7d")

-- `handle_print_request`
def handlePrintRequest (msg : CString) (answers : Answers) : List Operation × CString :=
  let req := PrintRequest.read msg
  let (operations, reason, uploadPath) := req.work answers
  (.status answers.isIdle :: operations ++ removals (req.path answers) uploadPath,
    printResponse req.jobId (if reason = "queued" then "queued" else "failed"))

end Print

section Actions

-- The answer to an action, which names the action only by a GUID.
def actionResponse (idKey id actionId status type : CString) : CString :=
  let named : CString :=
    if actionId.isEmpty then []
    else ofString "\"action_id\":\"" ++ dfsvcEscapeString (some actionId) 192 ++ ofString "\","
  fit 512 (ofString "\x7b\"payload\":\x7b\"" ++ idKey ++ ofString "\":\"" ++
    dfsvcEscapeString (some id) 192 ++ ofString "\"," ++ named ++ ofString "\"status\":\"" ++ status ++
    ofString "\"\x7d,\"type\":\"" ++ type ++ ofString "\"\x7d")

def statusText (succeeded : Bool) : CString :=
  if succeeded then "success" else "failed"

-- `is_supported_print_job_action`
def isSupportedAction (action : CString) : Bool :=
  action == "abort" || action == "remove" || action == "pause" || action == "resume" ||
  action == "force"

-- `local_print_job_action`
def localAction (action : CString) : CString :=
  if action = "remove" then "abort" else action

-- `handle_print_job_action_request`
def handlePrintJobActionRequest (msg : CString) (answers : Answers) : List Operation × CString :=
  let id := (jsonStrValue msg "cluster_job_id" 96).text
  let actionId := guidOrEmpty (jsonStrValue msg "action_id" 96).text
  let action := (jsonStrValue msg "action" 32).text
  let supported := isSupportedAction action
  (if supported then [.action (localAction action) answers.action] else [],
    actionResponse "cluster_job_id" id actionId (statusText (supported && isAccepted answers.action))
      "print_job_action_response")

-- `sanitize_hostname`
def sanitizeHostname (name : CString) (size : Nat) : CString :=
  let given : CString := if name.isEmpty then "Ultimaker" else name
  let kept := fit size (given.filterMap fun c =>
    if isAlnum c || c == 45 || c == 95 then some c else if c = 32 then some 45 else none)
  if kept.isEmpty then fit size "Ultimaker" else kept

-- The fields of `publish_update_firmware_request`.
def updateOf (msg : CString) (rc : Int) : Option Operation := do
  let printer := jsonStrValue msg "cluster_printer_id" 96
  let schedule ← jsonBoolValue msg "schedule_update"
  let actionId := jsonStrValue msg "action_id" 96
  if printer.found then
    some (.update printer.text schedule
      (if actionId.found && isGuid actionId.text then some actionId.text else none) rc)
  else none

-- What is done for an action on the printer, and whether it succeeds.
def printerAction (msg : CString) (answers : Answers) : List Operation × Bool :=
  let action := (jsonStrValue msg "action" 48).text
  let name := jsonStrValue msg "name" 96
  if action = "rename" then
    if name.found then
      ([.rename (sanitizeHostname name.text 64) answers.rename], answers.rename = 0)
    else ([], false)
  else if action = "update_firmware" then
    if !answers.isIdle then ([.status false], false)
    else
      match updateOf msg answers.update with
      | some operation => ([.status true, operation], answers.update = 0)
      | none           => ([.status true], false)
  else ([], false)

-- `handle_printer_action_request`
def handlePrinterActionRequest (msg : CString) (answers : Answers) : List Operation × CString :=
  let id := (jsonStrValue msg "cluster_printer_id" 96).text
  let actionId := guidOrEmpty (jsonStrValue msg "action_id" 96).text
  let (operations, succeeded) := printerAction msg answers
  (operations, actionResponse "cluster_printer_id" id actionId (statusText succeeded)
    "printer_action_response")

end Actions

end Deneb.Cloud
