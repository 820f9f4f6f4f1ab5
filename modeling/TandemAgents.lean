import TandemAgents.ActionPlan
import TandemAgents.ActiveCoderRuns
import TandemAgents.AdmissionCapacity
import TandemAgents.AdmissionFairness
import TandemAgents.AdmissionIsolation
import TandemAgents.AdmissionLoop
import TandemAgents.ApprovedContent
import TandemAgents.AuthenticatedStream
import TandemAgents.AutoMerge
import TandemAgents.BackupSource
import TandemAgents.BackupStream
import TandemAgents.Base64
import TandemAgents.BlockerAgreement
import TandemAgents.Blocks
import TandemAgents.BoardSync
import TandemAgents.ByteFields
import TandemAgents.Calls
import TandemAgents.Chunks
import TandemAgents.ClaimExclusion
import TandemAgents.CoderLease
import TandemAgents.CoderReaders
import TandemAgents.CoderRun
import TandemAgents.CompleteRuns
import TandemAgents.Comprehensions
import TandemAgents.ContractSections
import TandemAgents.CoordinationStore
import TandemAgents.DedupeTable
import TandemAgents.DependencyAgreement
import TandemAgents.DependencyGate
import TandemAgents.DiffSections
import TandemAgents.DispatchTick
import TandemAgents.DocumentRows
import TandemAgents.Effects
import TandemAgents.EventLog
import TandemAgents.ExportableBundles
import TandemAgents.ExternalActions
import TandemAgents.FailedResults
import TandemAgents.FeedbackSignature
import TandemAgents.FencedCommands
import TandemAgents.Fences
import TandemAgents.FileTree
import TandemAgents.FinishedWork
import TandemAgents.FrontMatter
import TandemAgents.GitRefs
import TandemAgents.GitStatus
import TandemAgents.Guarantees
import TandemAgents.GuardedRuns
import TandemAgents.HealthyLeases
import TandemAgents.HeartbeatRace
import TandemAgents.IndexReplay
import TandemAgents.Interference
import TandemAgents.IssueSpend
import TandemAgents.JsonCanonical
import TandemAgents.JsonData
import TandemAgents.JsonHooks
import TandemAgents.JsonNesting
import TandemAgents.JsonRoundTrip
import TandemAgents.JsonText
import TandemAgents.KeyedTable
import TandemAgents.Keyring
import TandemAgents.KeyringHistory
import TandemAgents.KnowledgeAgreement
import TandemAgents.KnowledgeEdits
import TandemAgents.KnowledgeFiles
import TandemAgents.KnowledgeIndex
import TandemAgents.KnowledgeLinks
import TandemAgents.KnowledgeMirror
import TandemAgents.KnowledgeTables
import TandemAgents.KnowledgeText
import TandemAgents.LeaseEffects
import TandemAgents.LeaseFencing
import TandemAgents.LeaseHolding
import TandemAgents.LeaseOperations
import TandemAgents.LeaseRelease
import TandemAgents.LeaseWorkers
import TandemAgents.LinearComments
import TandemAgents.LinearIntake
import TandemAgents.LinearIssues
import TandemAgents.LinearTool
import TandemAgents.LinearUpdates
import TandemAgents.NoChangeGuard
import TandemAgents.NonceUse
import TandemAgents.OffsiteExport
import TandemAgents.OperationRuns
import TandemAgents.Outbox
import TandemAgents.OutboxDelivery
import TandemAgents.OutboxDrain
import TandemAgents.OutboxExclusion
import TandemAgents.OutboxOutcomes
import TandemAgents.OwnDependencies
import TandemAgents.PathReaders
import TandemAgents.Pieces
import TandemAgents.PlanCommands
import TandemAgents.PlanScope
import TandemAgents.PrFiles
import TandemAgents.PrOutcome
import TandemAgents.PrRefresh
import TandemAgents.PrSupervision
import TandemAgents.ProjectDrift
import TandemAgents.ProjectSelection
import TandemAgents.ProjectStatus
import TandemAgents.ProposedChanges
import TandemAgents.Provisioning
import TandemAgents.PullRequests
import TandemAgents.PurePath
import TandemAgents.PythonText
import TandemAgents.ReleaseCrash
import TandemAgents.RepairBound
import TandemAgents.RepairBreaker
import TandemAgents.RepairGate
import TandemAgents.RepairRetries
import TandemAgents.RepoGuard
import TandemAgents.RepoHealing
import TandemAgents.RetryBudget
import TandemAgents.RoundRobin
import TandemAgents.RunContext
import TandemAgents.RunFinalize
import TandemAgents.RunOnce
import TandemAgents.RunRecovery
import TandemAgents.RunStatus
import TandemAgents.Scheduler
import TandemAgents.ScopeOverlap
import TandemAgents.SecurityBundle
import TandemAgents.SecurityRoots
import TandemAgents.SelectedUpdates
import TandemAgents.Sessions
import TandemAgents.SharedCalls
import TandemAgents.ShellWords
import TandemAgents.SingleExecution
import TandemAgents.SnapshotGuards
import TandemAgents.SpendLedger
import TandemAgents.StaleBoard
import TandemAgents.Statements
import TandemAgents.StoreHistories
import TandemAgents.StoreSessions
import TandemAgents.StreamRoundTrip
import TandemAgents.SupervisionRound
import TandemAgents.SweepSpellings
import TandemAgents.TaskContract
import TandemAgents.TaskIntake
import TandemAgents.TaskOperations
import TandemAgents.TerminalOutcome
import TandemAgents.TextLines
import TandemAgents.TimedOutWorkers
import TandemAgents.TornIndex
import TandemAgents.TornLog
import TandemAgents.Transactions
import TandemAgents.Verification
import TandemAgents.VerificationGate
import TandemAgents.WatchedRequests
import TandemAgents.WorkerAttempts
import TandemAgents.WorkerOperations
import TandemAgents.WorkerPool
import TandemAgents.WorkerResults
import TandemAgents.WorkspaceFile
import TandemAgents.WorktreeReset
import TandemAgents.WorktreeSync
import TandemAgents.WriteOutcomes
