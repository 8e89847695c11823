import AerugoCache.KeyedMap
import AerugoCache.ByteText
import AerugoCache.ByteReader
import AerugoCache.RespFrame
import AerugoCache.RespParser
import AerugoCache.RespRoundTrip
import AerugoCache.Storage
import AerugoCache.StoreReports
import AerugoCache.AppendOnlyFile
import AerugoCache.Client
import AerugoCache.Server
import AerugoCache.StoreCells
import AerugoCache.StoreMemory
import AerugoCache.StoreRun
import AerugoCache.CommandCodec
import AerugoCache.LogScan
import AerugoCache.Replay
import AerugoCache.Effects
import AerugoCache.ReplayUndated
import AerugoCache.RespReply
import AerugoCache.ReplyWire
import AerugoCache.CommandErrors
import AerugoCache.ClientErrors
import AerugoCache.RedoLog
import AerugoCache.Concurrent
import AerugoCache.LogOrder
import AerugoCache.KeyTouch
import AerugoCache.ReplayDeadlines
import AerugoCache.ReplayExpired
import AerugoCache.TornLog
import AerugoCache.ErrorReplies
import AerugoCache.FailedAppends
import AerugoCache.KeyCounts
import AerugoCache.LogLedger
import AerugoCache.EagerStore
import AerugoCache.LazyExpiration
import AerugoCache.ExpiredWeight
import AerugoCache.DeadlineHistory
import AerugoCache.NonemptyLists
import AerugoCache.Deque
import AerugoCache.ListDeque
import AerugoCache.HeaderLines
import AerugoCache.DecodeProgress
import AerugoCache.DecodeSteps
import AerugoCache.InlineCommand
import AerugoCache.LengthHeaders
import AerugoCache.ListSlice
import AerugoCache.LongerTtl
import AerugoCache.Eviction
import AerugoCache.LoggedTtl
import AerugoCache.CommandLog
import AerugoCache.ReportTotals
import AerugoCache.TextLines
import AerugoCache.Dashboard
import AerugoCache.DashboardCodec
import AerugoCache.SocketReader
import AerugoCache.StepSystem
import AerugoCache.DecodedFrames
import AerugoCache.Network
import AerugoCache.NetworkRuns
import AerugoCache.Linearizable
import AerugoCache.NetworkProgress
import AerugoCache.ClientView
import AerugoCache.TornConnection
import AerugoCache.StoreLocks
import AerugoCache.StoreTasks
import AerugoCache.VisibleStore
import AerugoCache.Indistinguishable
import AerugoCache.CleanupTask
import AerugoCache.RefusedWrites
import AerugoCache.Isolation
import AerugoCache.Recovery
import AerugoCache.EvictedKeys
import AerugoCache.Coherence
import AerugoCache.AbstractServer
import AerugoCache.Snapshot
import AerugoCache.WorkQueue
import AerugoCache.Options
import AerugoCache.StartedServer
import AerugoCache.Numerals
import AerugoCache.CommandGrammar
import AerugoCache.Residues
import AerugoCache.FairEviction
import AerugoCache.NestingDepth
import AerugoCache.ServerTurns
import AerugoCache.ServerHistory
import AerugoCache.SocketTasks
import AerugoCache.TurnsTogether
