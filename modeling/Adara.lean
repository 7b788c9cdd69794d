import Adara.Spec.Framing
import Adara.Spec.PulseCache
import Adara.Spec.PendingSources
import Adara.Spec.Recreation
import Adara.Spec.PulseIdentity
import Adara.Spec.PulseCompletion
import Adara.Spec.MultVariable
import Adara.Spec.BankedFormat
import Adara.Spec.EventFiling
import Adara.Spec.BankedEvent
import Adara.Spec.BankTable
import Adara.Spec.EventIndex
import Adara.Spec.PixelMapping
import Adara.Spec.LiveClient
import Adara.Spec.STCClient
import Adara.Spec.RunQueue
import Adara.Spec.RecordedFirst
import Adara.Spec.WakeUp
import Adara.Spec.DeviceIds
import Adara.Spec.Prologue
import Adara.ForStd.Timespec
import Adara.Native.TimedContainer
import Adara.Spec.TimedContainer
import Adara.Spec.Publication
import Adara.Spec.RunMarkers
import Adara.ForStd.Timeline
import Adara.Spec.PauseRanges
import Adara.Spec.PauseLookup
import Adara.Spec.PausePartition
import Adara.Native.StorageManager
import Adara.Spec.ContainerStack
import Adara.Spec.LookupCache
import Adara.Spec.ContainerCalls
import Adara.Spec.ContainerPartition
import Adara.Native.Purge
import Adara.Spec.PurgeSafety
import Adara.Spec.LivePurge
import Adara.Native.BlockAccount
import Adara.ForStd.ListSum
import Adara.Spec.PurgeCount
import Adara.Spec.BlockAccount
import Adara.ForStd.CrashFS
import Adara.Native.RunNumber
import Adara.Spec.RunNumber
import Adara.ForStd.InUseBuffer
import Adara.Native.EventStream
import Adara.Spec.BankEvents
import Adara.Spec.MonitorEvents
import Adara.Spec.EventConservation
import Adara.Spec.PulseLog
import Adara.Native.EventPackets
import Adara.Spec.MonitorPacket
import Adara.Native.QuickCounter
import Adara.Spec.QuickCounter
import Adara.ForStd.TextLines
import Adara.Native.AutoSave
import Adara.Spec.AutoSave
import Adara.Spec.StateFiling
import Adara.Spec.BankedState
import Adara.Spec.PulseAccount
import Adara.Native.FastMeta
import Adara.Spec.FastMeta
import Adara.ForStd.QueueMerge
import Adara.Native.Markers
import Adara.Spec.MarkerQueues
import Adara.Spec.MarkerSteps
import Adara.Spec.QueuedMarkers
import Adara.Spec.RunNotes
import Adara.Native.PixelPacket
import Adara.Spec.PixelPacket
import Adara.Native.PVInfo
import Adara.Native.PVLog
import Adara.Spec.PVLog
import Adara.Spec.PVStatistics
import Adara.Native.PVRegistry
import Adara.Spec.PVRegistry
import Adara.ForStd.Retry
import Adara.Native.Recording
import Adara.Spec.Recording
import Adara.Spec.ParserProgress
import Adara.Native.POSIXParser
import Adara.Spec.ParserStop
import Adara.ForStd.Traced
import Adara.Native.SizedPackets
import Adara.Spec.SizedPackets
import Adara.Spec.CompletionRule
import Adara.Spec.PulseCorrection
import Adara.Native.QuickCounts
import Adara.Spec.QuickCounts
import Adara.Native.SubsumeValues
import Adara.Spec.SubsumeValues
import Adara.Native.FileWrite
import Adara.Spec.FileWrite
import Adara.Spec.CapturedPrologue
import Adara.Native.ScannedContainer
import Adara.Spec.ScannedContainer
import Adara.Spec.FileOrder
import Adara.Spec.FileSeries
import Adara.Spec.ReadBack
import Adara.Native.MarkerLogs
import Adara.Spec.MarkerLogs
import Adara.Spec.PVTimes
import Adara.Spec.BankedSources
import Adara.Native.PixelMapFile
import Adara.Spec.PixelRanges
import Adara.Spec.PixelMapFile
import Adara.Spec.PixelShorthand
import Adara.Spec.PixelExpansion
import Adara.ForStd.ArrayWrites
import Adara.Native.PixelTables
import Adara.Spec.PixelTables
import Adara.Spec.PixelAccount
import Adara.Native.ConfigPackets
import Adara.Spec.ConfigPackets
import Adara.Spec.CursorWalks
import Adara.Spec.MonitorWalks
import Adara.Spec.EventWalks
import Adara.Spec.PixelDecoder
import Adara.ForStd.WrappingTally
import Adara.Native.BankHistogram
import Adara.Spec.HistogramBins
import Adara.ForStd.LoggedSteps
import Adara.Spec.BankHistogram
import Adara.Spec.Histograms
import Adara.Native.TextUtils
import Adara.ForStd.MaximalRuns
import Adara.Spec.SanitizeString
import Adara.Spec.ArrayString
import Adara.Native.RateLimitedLogging
import Adara.Spec.RateLimitedLogging
import Adara.Native.StateIndex
import Adara.Spec.StateIndex
import Adara.Native.SourceTimes
import Adara.Spec.SplitTime
import Adara.Native.PulseTiming
import Adara.Spec.PulseTiming
import Adara.ForStd.ListClasses
import Adara.Spec.BankedWalk
import Adara.Native.RecordPulse
import Adara.Spec.TableRoom
import Adara.Spec.RecordedPulses
import Adara.Spec.EventLedger
import Adara.Spec.RunDelivery
import Adara.Native.RuleEngine
import Adara.ForStd.Acyclic
import Adara.Spec.RuleMoves
import Adara.Spec.RuleSettling
import Adara.Spec.RuleGraph
import Adara.Spec.RuleDepth
import Adara.Spec.RuleCalls
import Adara.Spec.RuleSheet
import Adara.Spec.RuleRuns
import Adara.Spec.RuleListeners
import Adara.Spec.FileBytes
import Adara.Spec.RunStream
