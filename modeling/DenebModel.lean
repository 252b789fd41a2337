import DenebModel.Primitives.CString
import DenebModel.Primitives.BinaryFloat
import DenebModel.Primitives.Scan
import DenebModel.Primitives.JsonText
import DenebModel.Primitives.GoBackN
import DenebModel.Primitives.Labelled
import DenebModel.Primitives.Occurrence
import DenebModel.Primitives.JsonTree
import DenebModel.Primitives.Theorems.Decimal
import DenebModel.Primitives.Theorems.Rounding
import DenebModel.Primitives.Theorems.Numeral
import DenebModel.Primitives.Theorems.JsonText
import DenebModel.Primitives.Theorems.JsonTree
import DenebModel.Objects.MarlinPacket
import DenebModel.Objects.FlowControl
import DenebModel.Objects.MotionSender
import DenebModel.Objects.Status
import DenebModel.Objects.StatusParser
import DenebModel.Objects.HeaterWait
import DenebModel.Objects.MotionPolicy
import DenebModel.Objects.GcodeStream
import DenebModel.Objects.ReadBuffer
import DenebModel.Objects.Theorems.FlowControl
import DenebModel.Objects.Theorems.MotionSender
import DenebModel.Objects.Theorems.GcodeStream
import DenebModel.Objects.Theorems.GcodeOutput
import DenebModel.Objects.Theorems.ReadError
import DenebModel.Objects.Theorems.PrimeScan
import DenebModel.Objects.Theorems.ResumePosition
import DenebModel.Objects.Theorems.WaitTarget
import DenebModel.Link.Basic
import DenebModel.Link.Theorems.Tracks
import DenebModel.Link.Theorems.Agreement
import DenebModel.Link.Theorems.FlowRun
import DenebModel.Link.Theorems.PlainOk
import DenebModel.Link.Theorems.Resend
import DenebModel.Execution.Service
import DenebModel.Execution.JobControl
import DenebModel.Execution.PauseResumeControl
import DenebModel.Execution.GcodeControl
import DenebModel.Execution.MotionRuntime
import DenebModel.Execution.JobStreamer
import DenebModel.Execution.Basic
import DenebModel.Execution.Step
import DenebModel.Execution.Lifecycle
import DenebModel.Execution.Theorems.Service
import DenebModel.Execution.Theorems.WaitSpelling
import DenebModel.Execution.Theorems.Step
import DenebModel.Execution.Theorems.Lifecycle
import DenebModel.Execution.Theorems.Run
import DenebModel.Execution.Theorems.Producers
import DenebModel.Execution.Theorems.Apart
import DenebModel.Execution.Theorems.Flags
import DenebModel.Execution.Theorems.Exclusive
import DenebModel.Execution.Theorems.Held
import DenebModel.Execution.Theorems.Cleanup
import DenebModel.Execution.Theorems.Fault
import DenebModel.Execution.Theorems.Ledger
import DenebModel.Execution.Theorems.Complete
import DenebModel.Execution.Theorems.HandOff
import DenebModel.Execution.Theorems.Timing
import DenebModel.Execution.Theorems.Publish
import DenebModel.Wire.Msgpack
import DenebModel.Wire.Theorems.Msgpack
import DenebModel.Wire.JsonField
import DenebModel.Wire.Status
import DenebModel.Wire.CommandFormat
import DenebModel.Wire.Command
import DenebModel.Wire.Theorems.CommandFormat
import DenebModel.Wire.Theorems.Gcode
import DenebModel.Wire.Theorems.JsonField
import DenebModel.Wire.Theorems.JsonString
import DenebModel.Wire.Theorems.Status
import DenebModel.Wire.PrintAction
import DenebModel.Wire.Theorems.PrintAction
import DenebModel.Wire.Theorems.Job
import DenebModel.Wire.PendingJob
import DenebModel.Wire.Theorems.PendingJob
import DenebModel.Wire.Theorems.PendingJobFile
import DenebModel.Wire.PendingDispatch
import DenebModel.Wire.Theorems.PendingDispatch
import DenebModel.Wire.PrintHistory
import DenebModel.Wire.Theorems.PrintHistory
import DenebModel.Wire.Theorems.PendingMark
import DenebModel.Web.Md5
import DenebModel.Web.Http
import DenebModel.Web.Auth
import DenebModel.Web.Route
import DenebModel.Web.Multipart
import DenebModel.Web.Cluster
import DenebModel.Web.Server
import DenebModel.Web.Theorems.Request
import DenebModel.Web.Theorems.Response
import DenebModel.Web.Theorems.Digest
import DenebModel.Web.Theorems.Replay
import DenebModel.Web.Theorems.Multipart
import DenebModel.Web.Theorems.Cluster
import DenebModel.Web.Theorems.Server
import DenebModel.Wire.WebSocket
import DenebModel.Wire.Theorems.WebSocket
import DenebModel.Wire.MsgpackSkip
import DenebModel.Wire.Theorems.MsgpackSkip
import DenebModel.Primitives.Octets
import DenebModel.Primitives.PngFormat
import DenebModel.Primitives.Shell
import DenebModel.Primitives.ZipFormat
import DenebModel.Primitives.JsonSpelling
import DenebModel.Primitives.Dns
import DenebModel.Primitives.ShiftRegister
import DenebModel.Primitives.BlockHash
import DenebModel.Primitives.DigestStandards
import DenebModel.Primitives.Theorems.DigestStandards
import DenebModel.Objects.MaterialWorkflow
import DenebModel.Objects.Theorems.MaterialWorkflow
import DenebModel.Objects.Theorems.MarlinPacket
import DenebModel.Files.JobFile
import DenebModel.Files.Png
import DenebModel.Files.Thumbnail
import DenebModel.Files.Ufp
import DenebModel.Files.Theorems.JobFile
import DenebModel.Files.Theorems.Png
import DenebModel.Files.Theorems.Thumbnail
import DenebModel.Files.Theorems.Ufp
import DenebModel.Setup.Wifi
import DenebModel.Setup.Theorems.Wifi
import DenebModel.Web.Mdns
import DenebModel.Web.Theorems.Mdns
import DenebModel.Objects.Sha256
import DenebModel.Objects.Theorems.Sha256
import DenebModel.Web.Md5Buffer
import DenebModel.Web.Theorems.Md5
import DenebModel.Web.Theorems.Digests
import DenebModel.Wire.CloudMessage
import DenebModel.Wire.Theorems.CloudMessage
import DenebModel.Objects.Theorems.FailedPacket
import DenebModel.Wire.JsonBuffer
import DenebModel.Wire.Theorems.JsonBuffer
import DenebModel.Primitives.LineStream
import DenebModel.Execution.Theorems.Framing
import DenebModel.Primitives.Theorems.JsonNumber
import DenebModel.Primitives.JsonValue
import DenebModel.Primitives.JsonUnicode
import DenebModel.Web.JsonWriter
import DenebModel.Web.Theorems.JsonWriter
import DenebModel.Web.Theorems.JsonMeaning
import DenebModel.Setup.LevelScreen
import DenebModel.Setup.Locale
import DenebModel.Setup.Theorems.LevelScreen
import DenebModel.Setup.Theorems.Locale
import DenebModel.Setup.Theorems.LocaleFile
import DenebModel.Primitives.History
import DenebModel.Execution.Channel
import DenebModel.Execution.Traffic
import DenebModel.Execution.Theorems.Traffic
import DenebModel.Execution.Theorems.Replay
import DenebModel.Execution.Theorems.Window
import DenebModel.Execution.Theorems.Whole
import DenebModel.Execution.Theorems.Delivery
import DenebModel.Primitives.Ranking
import DenebModel.Execution.Progress
import DenebModel.Execution.Theorems.Progress
import DenebModel.Execution.Theorems.Advance
import DenebModel.Execution.Theorems.Liveness
import DenebModel.Cloud.Requests
import DenebModel.Cloud.Connector
import DenebModel.Cloud.Record
import DenebModel.Cloud.Theorems.Acts
import DenebModel.Cloud.Theorems.Shown
import DenebModel.Cloud.Theorems.Sign
import DenebModel.Cloud.Theorems.Wish
import DenebModel.Cloud.Theorems.Work
import DenebModel.Primitives.Noninterference
import DenebModel.Primitives.Table
import DenebModel.Web.Access
import DenebModel.Web.Theorems.Access
import DenebModel.Web.Theorems.Outsider
import DenebModel.Web.Theorems.Sessions
import DenebModel.Web.Theorems.Configuration
