import TfAnalytics.Lib.OrderedMap
import TfAnalytics.Lib.Multimap
import TfAnalytics.Lib.Grouped
import TfAnalytics.Lib.Transition
import TfAnalytics.Lib.Delimited
import TfAnalytics.Lib.Redis
import TfAnalytics.Lib.Like
import TfAnalytics.Lib.LexRange
import TfAnalytics.Lib.Words
import TfAnalytics.Lib.SortedCut
import TfAnalytics.Lib.RingBuffer
import TfAnalytics.Lib.Overwrite
import TfAnalytics.Lib.JsonValue
import TfAnalytics.Collector.StructuredSyslog
import TfAnalytics.Collector.SessionCounters
import TfAnalytics.Collector.NetworksMap
import TfAnalytics.Collector.SyslogTurns
import TfAnalytics.Collector.SyslogBounds
import TfAnalytics.Collector.SyslogUnframed
import TfAnalytics.Collector.SiteLookup
import TfAnalytics.Collector.UveStore
import TfAnalytics.Collector.StatTable
import TfAnalytics.QueryEngine.Window
import TfAnalytics.QueryEngine.TimeText
import TfAnalytics.QueryEngine.Slicing
import TfAnalytics.QueryEngine.ChunkList
import TfAnalytics.QueryEngine.StatsSelect
import TfAnalytics.QueryEngine.StatsMerge
import TfAnalytics.QueryEngine.StatsDistribution
import TfAnalytics.QueryEngine.StatsLimit
import TfAnalytics.QueryEngine.StatsGroups
import TfAnalytics.QueryEngine.StatsDropped
import TfAnalytics.QueryEngine.CountDistinct
import TfAnalytics.QueryEngine.StatsTopN
import TfAnalytics.QueryEngine.SetOperation
import TfAnalytics.QueryEngine.WhereQuery
import TfAnalytics.QueryEngine.StatTags
import TfAnalytics.QueryEngine.WhereVectors
import TfAnalytics.QueryEngine.ObjectIds
import TfAnalytics.QueryEngine.ResultFolding
import TfAnalytics.QueryEngine.Pipeline
import TfAnalytics.QueryEngine.ReplyStatus
import TfAnalytics.QueryEngine.ResultLimit
import TfAnalytics.QueryEngine.Filters
import TfAnalytics.QueryEngine.ResultOrder
import TfAnalytics.QueryEngine.StatsOrder
import TfAnalytics.QueryEngine.StatsEntries
import TfAnalytics.QueryEngine.StatsAsserts
import TfAnalytics.QueryEngine.RedisConnection
import TfAnalytics.QueryEngine.FlowTerms
import TfAnalytics.QueryEngine.FlowSlices
import TfAnalytics.QueryEngine.SessionTerms
import TfAnalytics.QueryEngine.SessionWhere
import TfAnalytics.QueryEngine.SessionTexts
import TfAnalytics.QueryEngine.StatTerms
import TfAnalytics.QueryEngine.StatRanges
import TfAnalytics.QueryEngine.FlowWhere
import TfAnalytics.QueryEngine.WhereFilters
import TfAnalytics.QueryEngine.ObjectLog
import TfAnalytics.QueryEngine.ObjectReport
import TfAnalytics.Collector.FieldNames
import TfAnalytics.Collector.SessionRecords
import TfAnalytics.Collector.GeneratorSession
import TfAnalytics.OpServer.Rbac
import TfAnalytics.OpServer.VncCfgApiClient
import TfAnalytics.OpServer.UveServer
import TfAnalytics.OpServer.AlarmGen
import TfAnalytics.OpServer.AlarmStateMachine
import TfAnalytics.OpServer.AlarmFrequency
import TfAnalytics.OpServer.AlarmTimers
import TfAnalytics.OpServer.AlarmOperands
import TfAnalytics.OpServer.AlarmOperations
import TfAnalytics.OpServer.AlarmRules
import TfAnalytics.OpServer.AlarmMatches
import TfAnalytics.OpServer.AlarmController
import TfAnalytics.OpServer.AlarmUpdates
import TfAnalytics.OpServer.AlarmPartitions
import TfAnalytics.OpServer.UveStreamPart
import TfAnalytics.OpServer.UveStream
import TfAnalytics.OpServer.UveCacheProcessor
import TfAnalytics.OpServer.UveStreamer
import TfAnalytics.OpServer.ConsistentScheduler
import TfAnalytics.Topology.Controller
import TfAnalytics.OpServer.UveStreamProc
import TfAnalytics.OpServer.UveNotif
import TfAnalytics.OpServer.AlarmConfig
import TfAnalytics.Lib.FirstBy
import TfAnalytics.OpServer.ListAppend
import TfAnalytics.OpServer.ParallelAggregator
import TfAnalytics.Lib.Dict
import TfAnalytics.OpServer.GetUve
import TfAnalytics.OpServer.AckFilter
import TfAnalytics.Collector.SyslogGrammar
import TfAnalytics.Collector.SyslogTimestamp
import TfAnalytics.Collector.StructuredPart
import TfAnalytics.Collector.LinkData
import TfAnalytics.Collector.StatWalker
import TfAnalytics.Collector.DomTags
import TfAnalytics.OpServer.WhereText
import TfAnalytics.OpServer.WhereRoundTrip
import TfAnalytics.Lib.SlidingWindow
import TfAnalytics.SnmpCollector.MaxNinTtime
import TfAnalytics.SnmpCollector.SnmpUve
import TfAnalytics.SnmpCollector.InterfaceStatus
import TfAnalytics.Collector.SearchPattern
import TfAnalytics.Collector.UserDefinedCounters
import TfAnalytics.Lib.Glob
import TfAnalytics.OpServer.UveRegex
import TfAnalytics.OpServer.RbacRewrite
import TfAnalytics.Lib.Outcome
import TfAnalytics.OpServer.OverlayToUnderlay
import TfAnalytics.Lib.JsonText
import TfAnalytics.QueryEngine.ResultTransport
import TfAnalytics.QueryEngine.RowFetch
import TfAnalytics.Collector.SyslogSplice
import TfAnalytics.Collector.DecoratedForward
