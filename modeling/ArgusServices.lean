import ArgusServices.AcceptSequence
import ArgusServices.AdminApi
import ArgusServices.AdminIsolation
import ArgusServices.AdminListing
import ArgusServices.AdvanceEffect
import ArgusServices.AggregateEffect
import ArgusServices.Aggregation
import ArgusServices.Alerts
import ArgusServices.AnalyzeEffect
import ArgusServices.Analyzer
import ArgusServices.AuditTrail
import ArgusServices.ClaimTimes
import ArgusServices.ClientFrames
import ArgusServices.ColumnRange
import ArgusServices.ConcurrentResolve
import ArgusServices.ConfigEffect
import ArgusServices.ConfigStore
import ArgusServices.Configuration
import ArgusServices.ConnectionAccounting
import ArgusServices.Conservation
import ArgusServices.DecisionList
import ArgusServices.DeliveryLog
import ArgusServices.DetailView
import ArgusServices.Domain
import ArgusServices.DuplicateAnswer
import ArgusServices.Effect
import ArgusServices.Escalation
import ArgusServices.EvidenceTimes
import ArgusServices.EvidenceWindow
import ArgusServices.ExpiringKeys
import ArgusServices.FailedAggregate
import ArgusServices.FrameDelivery
import ArgusServices.FrameStorage
import ArgusServices.FrontDoor
import ArgusServices.Gateway
import ArgusServices.GreedyWindows
import ArgusServices.HexText
import ArgusServices.HintSpelling
import ArgusServices.Idempotency
import ArgusServices.InOrder
import ArgusServices.Independent
import ArgusServices.IngestEffect
import ArgusServices.IngestRetry
import ArgusServices.IngestRun
import ArgusServices.Ingestion
import ArgusServices.Interleaving
import ArgusServices.Json
import ArgusServices.KeptWindows
import ArgusServices.KeyedTable
import ArgusServices.LensVersions
import ArgusServices.LinkTable
import ArgusServices.LiveFeed
import ArgusServices.LostUpdate
import ArgusServices.MergeOrder
import ArgusServices.NoTrace
import ArgusServices.Notifier
import ArgusServices.NotifyEffect
import ArgusServices.OneDecision
import ArgusServices.OpenKeyRace
import ArgusServices.OwnPlace
import ArgusServices.OwnTurns
import ArgusServices.PartialCalls
import ArgusServices.Pipeline
import ArgusServices.Place
import ArgusServices.PlaybackKeys
import ArgusServices.Provenance
import ArgusServices.Publication
import ArgusServices.Purge
import ArgusServices.RagFeedback
import ArgusServices.Recency
import ArgusServices.RedisClock
import ArgusServices.References
import ArgusServices.Refetch
import ArgusServices.RegionRules
import ArgusServices.ResolutionTerminal
import ArgusServices.Resolvable
import ArgusServices.ResolveEffect
import ArgusServices.RoomDelivery
import ArgusServices.RowPolicy
import ArgusServices.RowSecurity
import ArgusServices.RuleCreation
import ArgusServices.ScheduleEnd
import ArgusServices.Scheduler
import ArgusServices.SchedulerEffect
import ArgusServices.SchedulerIsolation
import ArgusServices.SchedulerSpec
import ArgusServices.ScopedRows
import ArgusServices.Scopes
import ArgusServices.ScoringSpec
import ArgusServices.Segments
import ArgusServices.SerialInterleaving
import ArgusServices.SerialRun
import ArgusServices.Serializable
import ArgusServices.SeverityScore
import ArgusServices.SingleLink
import ArgusServices.StaleResolution
import ArgusServices.Store
import ArgusServices.StrandedEvidence
import ArgusServices.StreamEncoding
import ArgusServices.StreamPolls
import ArgusServices.SummaryInvariant
import ArgusServices.TenantAlike
import ArgusServices.TenantClosed
import ArgusServices.TenantIsolation
import ArgusServices.TenantView
import ArgusServices.Threads
import ArgusServices.Token
import ArgusServices.TokenClaims
import ArgusServices.Transition
import ArgusServices.Triage
import ArgusServices.TwoRuns
import ArgusServices.Unordered
import ArgusServices.Uuid
import ArgusServices.WarningDelivery
import ArgusServices.WarningOnce
import ArgusServices.WeeklyCycle
import ArgusServices.WindowOverlap
