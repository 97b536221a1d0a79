import AgenticLocalApp.Library.Program
import AgenticLocalApp.Library.Table
import AgenticLocalApp.Domain.States
import AgenticLocalApp.Domain.Shell
import AgenticLocalApp.Domain.Records
import AgenticLocalApp.Domain.JsonSize
import AgenticLocalApp.Domain.JsonText
import AgenticLocalApp.Persistence.Store
import AgenticLocalApp.Persistence.BlobStores
import AgenticLocalApp.Observability.AuditStores
import AgenticLocalApp.Persistence.DatetimeText
import AgenticLocalApp.Persistence.ColumnCodec
import AgenticLocalApp.Persistence.RecordTables
import AgenticLocalApp.Observability.AuditLog
import AgenticLocalApp.Observability.AuditChain
import AgenticLocalApp.Observability.AuditIntegrity
import AgenticLocalApp.Observability.AuditRuns
import AgenticLocalApp.Persistence.IsoText
import AgenticLocalApp.Observability.TamperEvidence
import AgenticLocalApp.Execution.ResultCollector
import AgenticLocalApp.Runtime.World
import AgenticLocalApp.Resilience.FailureRecords
import AgenticLocalApp.Lifecycle.ConversationLifecycle
import AgenticLocalApp.Library.Kahn
import AgenticLocalApp.Execution.ChunkReassembly
import AgenticLocalApp.Execution.PlanRunner
import AgenticLocalApp.Execution.PlanResult
import AgenticLocalApp.Execution.PlanState
import AgenticLocalApp.Execution.PlanStatuses
import AgenticLocalApp.Execution.ScratchManager
import AgenticLocalApp.Execution.PlanWrites
import AgenticLocalApp.Execution.PlanEnds
import AgenticLocalApp.Execution.PlanFinish
import AgenticLocalApp.Execution.PlanDrain
import AgenticLocalApp.Execution.PlanLaunch
import AgenticLocalApp.Execution.PlanRuns
import AgenticLocalApp.Execution.PlanOutcomes
import AgenticLocalApp.Library.CycleSearch
import AgenticLocalApp.Protocol.PlanContent
import AgenticLocalApp.Persistence.SqliteRecords
import AgenticLocalApp.Execution.PlanAdmission
import AgenticLocalApp.Execution.DependencyCycles
import AgenticLocalApp.Protocol.Adapter
import AgenticLocalApp.Resilience.CircuitBreaker
import AgenticLocalApp.Resilience.FailureManager
import AgenticLocalApp.Resilience.SharedBreaker
import AgenticLocalApp.Resilience.TrialSlots
import AgenticLocalApp.Resilience.BreakerEvidence
import AgenticLocalApp.Context.Window
import AgenticLocalApp.Context.Rotation
import AgenticLocalApp.Orchestration.Recovery
import AgenticLocalApp.Orchestration.RecoveryPolicy
import AgenticLocalApp.Orchestration.RecoveryWrites
import AgenticLocalApp.Orchestration.Resumability
import AgenticLocalApp.Orchestration.RecoveryPasses
import AgenticLocalApp.Orchestration.RecoverySettling
import AgenticLocalApp.Orchestration.RecoverySessions
import AgenticLocalApp.Orchestration.RecoveryRuns
import AgenticLocalApp.Orchestration.CrashRecovery
import AgenticLocalApp.Orchestration.PendingOutbound
import AgenticLocalApp.Orchestration.ConversationManager
import AgenticLocalApp.Orchestration.Resumption
import AgenticLocalApp.Orchestration.SessionRun
import AgenticLocalApp.Orchestration.FinishRecovery
import AgenticLocalApp.Orchestration.ProtocolLoop
import AgenticLocalApp.Orchestration.LoopRules
import AgenticLocalApp.Orchestration.MessageCap
import AgenticLocalApp.Orchestration.SessionIsolation
import AgenticLocalApp.Protocol.AdapterErrors
import AgenticLocalApp.Orchestration.ReplyHandling
import AgenticLocalApp.Orchestration.RotationStages
import AgenticLocalApp.Orchestration.RotationTable
import AgenticLocalApp.Orchestration.UnusableReplies
import AgenticLocalApp.Orchestration.RotateRequests
import AgenticLocalApp.Orchestration.Obligations
import AgenticLocalApp.Orchestration.StandingRuns
import AgenticLocalApp.Orchestration.RotatesOrFails
import AgenticLocalApp.Orchestration.HeedingRuns
import AgenticLocalApp.Orchestration.RotateOutcomes
import AgenticLocalApp.Context.PendingOutputs
import AgenticLocalApp.Library.Ascending
import AgenticLocalApp.Interfaces.SseBroker
import AgenticLocalApp.Interfaces.SseDelivery
import AgenticLocalApp.Transport.JsonTextCodec
import AgenticLocalApp.Transport.Fences
import AgenticLocalApp.Transport.JsonSpans
import AgenticLocalApp.Transport.TextRoundTrip
import AgenticLocalApp.Domain.ModelFields
import AgenticLocalApp.Lifecycle.LifecycleManager
import AgenticLocalApp.Lifecycle.RecordRows
import AgenticLocalApp.Lifecycle.StateChanges
import AgenticLocalApp.Observability.ExecutionTracker
import AgenticLocalApp.Observability.SnapshotRuns
import AgenticLocalApp.Observability.CallSnapshots
import AgenticLocalApp.Execution.OutputBudget
import AgenticLocalApp.Execution.TextCuts
import AgenticLocalApp.Execution.TextHalving
import AgenticLocalApp.Execution.FitMessage
import AgenticLocalApp.Execution.OutputRanges
import AgenticLocalApp.Execution.OutputPump
import AgenticLocalApp.Protocol.CorrectionRequest
import AgenticLocalApp.Context.ContextReducer
import AgenticLocalApp.Shell.CountTexts
import AgenticLocalApp.Transport.HttpErrors
import AgenticLocalApp.Shell.ReadsOnly
import AgenticLocalApp.Shell.SameObjects
import AgenticLocalApp.Transport.JsonDocuments
import AgenticLocalApp.Library.Replace
import AgenticLocalApp.Transport.Templates
import AgenticLocalApp.Transport.RedactedUrls
import AgenticLocalApp.Shell.VerdictCommands
import AgenticLocalApp.Library.Transactions
import AgenticLocalApp.Persistence.StoreTransactions
import AgenticLocalApp.Persistence.StoreQueries
import AgenticLocalApp.Persistence.InsertionOrder
import AgenticLocalApp.Persistence.StoreAgreement
import AgenticLocalApp.Persistence.StorePrograms
import AgenticLocalApp.Library.RowChanges
import AgenticLocalApp.Library.Contracts
import AgenticLocalApp.Interruption.InterruptionHandler
import AgenticLocalApp.Interruption.SweepRules
import AgenticLocalApp.Interruption.Sweeps
import AgenticLocalApp.Interruption.SessionInterruption
import AgenticLocalApp.Observability.Telemetry
import AgenticLocalApp.Transport.InFlightGuard
import AgenticLocalApp.Library.EventStream
import AgenticLocalApp.Interfaces.SseWire
import AgenticLocalApp.Observability.EventBus
import AgenticLocalApp.Interfaces.SseReplay
import AgenticLocalApp.Execution.Supervision
import AgenticLocalApp.Transport.ToolCallCodec
import AgenticLocalApp.Transport.ReplyPolling
