import FirmwareUpdater.Library.Run
import FirmwareUpdater.Library.Channel
import FirmwareUpdater.Library.Circular
import FirmwareUpdater.Library.Chunked
import FirmwareUpdater.Library.ChunkedGrammar
import FirmwareUpdater.Library.Ranking
import FirmwareUpdater.Library.Deadline
import FirmwareUpdater.Library.LineCuts
import FirmwareUpdater.Library.Calendar
import FirmwareUpdater.Library.Pump
import FirmwareUpdater.Library.BoundedTable
import FirmwareUpdater.Library.Iteration
import FirmwareUpdater.Library.CellReads
import FirmwareUpdater.Library.MaximalRuns
import FirmwareUpdater.Library.FallibleStore
import FirmwareUpdater.Core.Memory
import FirmwareUpdater.Core.CLib
import FirmwareUpdater.Core.Types
import FirmwareUpdater.Core.Hex
import FirmwareUpdater.Core.HexCodec
import FirmwareUpdater.Core.Backoff
import FirmwareUpdater.Core.TopicResolver
import FirmwareUpdater.Core.Iso8601
import FirmwareUpdater.Core.CivilTime
import FirmwareUpdater.Core.TimeText
import FirmwareUpdater.Core.TimestampGrammar
import FirmwareUpdater.Core.DeviceStore
import FirmwareUpdater.Core.Json
import FirmwareUpdater.Core.Url
import FirmwareUpdater.Core.TextReads
import FirmwareUpdater.Core.OrderCodec
import FirmwareUpdater.Core.VersionLoop
import FirmwareUpdater.Core.VersionOrder
import FirmwareUpdater.Core.DottedVersions
import FirmwareUpdater.Core.BuildSuffix
import FirmwareUpdater.Core.OrderRouting
import FirmwareUpdater.Core.ProvisioningCodec
import FirmwareUpdater.Core.RemoteConfigCodec
import FirmwareUpdater.Core.PingBuilder
import FirmwareUpdater.Core.HardwareModel
import FirmwareUpdater.Core.SpscRing
import FirmwareUpdater.Core.SpscRefinement
import FirmwareUpdater.Core.ChunkedDecoder
import FirmwareUpdater.Core.ChunkedAcceptance
import FirmwareUpdater.Core.ResponseHead
import FirmwareUpdater.Core.ContentRange
import FirmwareUpdater.Esp32.OtaSink
import FirmwareUpdater.Esp32.BootSafety
import FirmwareUpdater.Esp32.EspMqttClient
import FirmwareUpdater.Esp32.MessageAssembly
import FirmwareUpdater.Esp32.TopicFidelity
import FirmwareUpdater.Esp32.MessageAccounting
import FirmwareUpdater.Esp32.FragmentedArrivals
import FirmwareUpdater.Gprs.GsmLink
import FirmwareUpdater.Gprs.Identity
import FirmwareUpdater.Gprs.LinkSteps
import FirmwareUpdater.Gprs.LinkParametricity
import FirmwareUpdater.Gprs.GsmMqttClient
import FirmwareUpdater.Gprs.InboundQueue
import FirmwareUpdater.Gprs.Arbitration
import FirmwareUpdater.Gprs.SessionDelivery
import FirmwareUpdater.Gprs.SessionSteps
import FirmwareUpdater.Gprs.RetryDeadlines
import FirmwareUpdater.Gprs.RefusedSession
import FirmwareUpdater.Gprs.PendingOpen
import FirmwareUpdater.Gprs.RecoveryLadder
import FirmwareUpdater.Gprs.ResetAlternation
import FirmwareUpdater.Gprs.GsmHttpClient
import FirmwareUpdater.Gprs.ReadingLoops
import FirmwareUpdater.Gprs.Exchanges
import FirmwareUpdater.Gprs.UrlSplitting
import FirmwareUpdater.Gprs.DownloadStream
import FirmwareUpdater.Gprs.HttpLease
import FirmwareUpdater.Gprs.HeadReading
import FirmwareUpdater.Gprs.ClockIndependence
import FirmwareUpdater.Gprs.HeadFields
import FirmwareUpdater.Gprs.RangeStart
import FirmwareUpdater.Gprs.BodyArrival
import FirmwareUpdater.Gprs.SmallBody
import FirmwareUpdater.Gprs.CompleteBody
import FirmwareUpdater.Esp32.Esp32HttpClient
import FirmwareUpdater.Esp32.Platform
import FirmwareUpdater.Core.Config
import FirmwareUpdater.Links.ExtraHeaders
import FirmwareUpdater.Links.ResumeAlignment
import FirmwareUpdater.Links.SmallResponses
import FirmwareUpdater.Links.StreamedPost
import FirmwareUpdater.Links.TopicReservation
import FirmwareUpdater.Updater.Impl
import FirmwareUpdater.Updater.Steps
import FirmwareUpdater.Updater.Machine
import FirmwareUpdater.Updater.Frames
import FirmwareUpdater.Updater.UpdateMoves
import FirmwareUpdater.Updater.PassMoves
import FirmwareUpdater.Updater.ImageIntegrity
import FirmwareUpdater.Updater.OrderAcceptance
import FirmwareUpdater.Updater.AntiRollback
import FirmwareUpdater.Updater.Confirmation
import FirmwareUpdater.Updater.Credentials
import FirmwareUpdater.Updater.ConfigHistory
import FirmwareUpdater.Updater.SessionOwnership
import FirmwareUpdater.Updater.SecondOrder
import FirmwareUpdater.Library.Spacing
import FirmwareUpdater.Updater.Completion
import FirmwareUpdater.Updater.OrderHistory
import FirmwareUpdater.Updater.PingPacing
import FirmwareUpdater.Updater.Report
import FirmwareUpdater.Updater.Sleep
import FirmwareUpdater.Updater.Subscriptions
import FirmwareUpdater.Updater.Trial
