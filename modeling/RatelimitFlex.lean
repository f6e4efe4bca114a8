import RatelimitFlex.Library.TimedRun
import RatelimitFlex.Library.InsertionMap
import RatelimitFlex.Library.HitLog
import RatelimitFlex.Library.TokenBucket
import RatelimitFlex.Library.BucketExpiry
import RatelimitFlex.Library.RowTable
import RatelimitFlex.Library.LinkedList
import RatelimitFlex.Program.Clamp
import RatelimitFlex.Program.Types
import RatelimitFlex.Program.KeyTable
import RatelimitFlex.Program.MemoryStore
import RatelimitFlex.Program.RateLimitEngine
import RatelimitFlex.Program.MemoryEngine
import RatelimitFlex.Program.StoreBank
import RatelimitFlex.Program.MemorySlots
import RatelimitFlex.Program.ComposedStore
import RatelimitFlex.Program.ComposedBank
import RatelimitFlex.Program.ComposedConcurrency
import RatelimitFlex.Program.RaceConcurrency
import RatelimitFlex.Program.ExpressMiddleware
import RatelimitFlex.Program.CircuitBreaker
import RatelimitFlex.Program.RedisResilience
import RatelimitFlex.Program.RedisTokenBucket
import RatelimitFlex.Program.RedisWindows
import RatelimitFlex.Program.StoreUtils
import RatelimitFlex.Program.PgStore
import RatelimitFlex.Program.PgTransactions
import RatelimitFlex.Program.MongoStore
import RatelimitFlex.Program.RowOps
import RatelimitFlex.Program.DynamoTokenBucket
import RatelimitFlex.Program.DynamoWindows
import RatelimitFlex.Model.Charges
import RatelimitFlex.Model.SlidingLog
import RatelimitFlex.Model.HeldHits
import RatelimitFlex.Analysis.MemoryCells
import RatelimitFlex.Analysis.MemorySliding
import RatelimitFlex.Analysis.MemoryTokenBucket
import RatelimitFlex.Analysis.GroupedWindows
import RatelimitFlex.Analysis.SkipAccounting
import RatelimitFlex.Analysis.DraftNeutrality
import RatelimitFlex.Analysis.InsuranceProbes
import RatelimitFlex.Analysis.PgSlidingSweep
import RatelimitFlex.Analysis.MongoPipelines
import RatelimitFlex.Analysis.MongoSliding
import RatelimitFlex.Analysis.RedisBucketExpiry
import RatelimitFlex.Analysis.RowExpiry
import RatelimitFlex.Analysis.PgBucketConcurrency
import RatelimitFlex.Analysis.DynamoBucketCommits
import RatelimitFlex.Analysis.DynamoSlidingCommits
import RatelimitFlex.Analysis.DynamoFixedCounts
import RatelimitFlex.Analysis.StoreCells
import RatelimitFlex.Analysis.PurgeUnobservable
import RatelimitFlex.Analysis.ProbeRollback
import RatelimitFlex.Analysis.GroupedRollback
import RatelimitFlex.Analysis.ComposedRollback
import RatelimitFlex.Analysis.BucketRefills
import RatelimitFlex.Analysis.CellCounts
import RatelimitFlex.Analysis.ConcurrentAll
import RatelimitFlex.Analysis.ComposedSteps
import RatelimitFlex.Analysis.ComposedUndo
import RatelimitFlex.Analysis.RedisSlidingGet
import RatelimitFlex.Analysis.RedisWindowRuns
import RatelimitFlex.Analysis.ComposedRetry
import RatelimitFlex.Analysis.DynamoWeighted
import RatelimitFlex.Analysis.FailedAttempts
import RatelimitFlex.Analysis.FrameUsage
import RatelimitFlex.Model.OverflowLogs
import RatelimitFlex.Analysis.OverflowRuns
import RatelimitFlex.Program.InMemoryShield
import RatelimitFlex.Analysis.SetThenGet
import RatelimitFlex.Model.WindowCounter
import RatelimitFlex.Analysis.RowInterchange
import RatelimitFlex.Program.MetricsCollector
import RatelimitFlex.Program.MetricsExporters
import RatelimitFlex.Program.MetricsPipeline
import RatelimitFlex.Library.UntimedRun
import RatelimitFlex.Library.RecentList
import RatelimitFlex.Library.TopRanked
import RatelimitFlex.Analysis.ExportedTotals
import RatelimitFlex.Analysis.PublishedWindows
import RatelimitFlex.Analysis.HotKeyRanking
import RatelimitFlex.Model.BucketTable
import RatelimitFlex.Analysis.BucketInterchange
import RatelimitFlex.Analysis.ShieldInterleavings
import RatelimitFlex.Analysis.BlockedRemaining
import RatelimitFlex.Analysis.QueueShutdown
import RatelimitFlex.Analysis.KeyedQueues
import RatelimitFlex.Analysis.PoolShutdown
import RatelimitFlex.Analysis.ClusterShutdown
import RatelimitFlex.Analysis.RaceCharges
import RatelimitFlex.Analysis.SlidingUnderAll
import RatelimitFlex.Program.ShieldedMemory
import RatelimitFlex.Analysis.ShieldTransparent
import RatelimitFlex.Program.RateLimiterQueue
import RatelimitFlex.Program.KeyedRateLimiterQueue
import RatelimitFlex.Analysis.QueueSettlement
import RatelimitFlex.Analysis.QueueProgress
import RatelimitFlex.Program.QueuedMemory
import RatelimitFlex.Analysis.QueueQuota
import RatelimitFlex.Program.ClusterStore
import RatelimitFlex.Model.SharedStore
import RatelimitFlex.Analysis.ClusterMessages
import RatelimitFlex.Program.ClusterPrimary
import RatelimitFlex.Analysis.PrimaryReplies
import RatelimitFlex.Analysis.WorkerIsolation
import RatelimitFlex.Model.PenaltyLog
import RatelimitFlex.Analysis.PenaltyBox
import RatelimitFlex.Program.EngineMetrics
import RatelimitFlex.Analysis.MetricsBalance
import RatelimitFlex.Program.RedisSync
import RatelimitFlex.Analysis.SyncConservation
import RatelimitFlex.Program.InsuredRedis
import RatelimitFlex.Analysis.RedisCounts
import RatelimitFlex.Analysis.UndoRouting
import RatelimitFlex.Program.KeyManager
import RatelimitFlex.Program.KeyManagerRuns
import RatelimitFlex.Analysis.BlockLifecycle
import RatelimitFlex.Analysis.BlockAtomicity
import RatelimitFlex.Analysis.AdjustmentRaces
import RatelimitFlex.Program.SharedBlocks
import RatelimitFlex.Analysis.BlockSync
import RatelimitFlex.Program.LimitsOptions
import RatelimitFlex.Analysis.BindingWindow
import RatelimitFlex.Library.RecencyOrder
import RatelimitFlex.Analysis.StoreOrder
import RatelimitFlex.Analysis.LaterDecisions
import RatelimitFlex.Analysis.CellDecisions
import RatelimitFlex.Analysis.PeekNeutrality
import RatelimitFlex.Analysis.WeightedAdmission
import RatelimitFlex.Analysis.Evictions
import RatelimitFlex.Analysis.KeyOrder
import RatelimitFlex.Analysis.KeyIsolation
import RatelimitFlex.Analysis.ComposedIsolation
import RatelimitFlex.Library.Slices
import RatelimitFlex.Analysis.MemoryFixed
import RatelimitFlex.Analysis.BucketPurge
import RatelimitFlex.Analysis.CircuitRuns
import RatelimitFlex.Program.KeyManagerOps
import RatelimitFlex.Analysis.AdjustmentWindows
import RatelimitFlex.Program.AdminCommon
import RatelimitFlex.Analysis.AdminBlock
import RatelimitFlex.Library.UriComponent
import RatelimitFlex.Program.AdminKeys
import RatelimitFlex.Analysis.AdminKeys
import RatelimitFlex.Library.StructuredFields
import RatelimitFlex.Program.FormatHeaders
import RatelimitFlex.Analysis.StructuredHeaders
import RatelimitFlex.Program.Percentile
import RatelimitFlex.Analysis.PercentileRanks
import RatelimitFlex.Library.PartitionPoint
import RatelimitFlex.Program.Histogram
import RatelimitFlex.Analysis.HistogramCounts
import RatelimitFlex.Library.RingBuffer
import RatelimitFlex.Program.LatencyRings
import RatelimitFlex.Analysis.RingSnapshots
import RatelimitFlex.Program.PrometheusLabel
import RatelimitFlex.Analysis.LabelEscapes
import RatelimitFlex.Program.AuditLog
import RatelimitFlex.Analysis.AuditBounds
import RatelimitFlex.Program.ShieldedLimits
import RatelimitFlex.Analysis.ShieldBlocks
import RatelimitFlex.Analysis.LimitsShield
import RatelimitFlex.Program.ShieldedRedis
import RatelimitFlex.Analysis.RedisShield
import RatelimitFlex.Analysis.HeldBlocks
import RatelimitFlex.Analysis.HeldItems
import RatelimitFlex.Analysis.BlockPersistence
import RatelimitFlex.Library.ExpositionText
import RatelimitFlex.Program.MetricsText
import RatelimitFlex.Analysis.ExportedLatencies
import RatelimitFlex.Analysis.ScrapedText
