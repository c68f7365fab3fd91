import SovaVerified.Text.Text
import SovaVerified.Regex.Regex
import SovaVerified.Regex.Proofs.SearchProofs
import SovaVerified.Review.Format
import SovaVerified.Runs.Runs
import SovaVerified.Dashboard.WorkState
import SovaVerified.Review.Proofs.FormatProofs
import SovaVerified.Dashboard.Proofs.WorkStateProofs
import SovaVerified.Dashboard.Proofs.CachesProofs
import SovaVerified.Supervisor.PrThrottle
import SovaVerified.Supervisor.Proofs.PrThrottleProofs
import SovaVerified.Supervisor.Proofs.QuotaProofs
import SovaVerified.Supervisor.QueueMaintenance
import SovaVerified.Supervisor.TaskQueue
import SovaVerified.Supervisor.Proofs.TaskQueueProofs
import SovaVerified.Core.Workflow
import SovaVerified.Core.Proofs.RetryProofs
import SovaVerified.Core.Proofs.WorkflowProofs
import SovaVerified.Core.Usage
import SovaVerified.Shares.Shares
import SovaVerified.Core.Proofs.UsageProofs
import SovaVerified.Loops.Loops
import SovaVerified.Review.Findings
import SovaVerified.Review.Panel
import SovaVerified.Review.Reviewer
import SovaVerified.Review.Proofs.PanelProofs
import SovaVerified.Review.Proofs.ReviewerProofs
import SovaVerified.Dashboard.Lifecycle
import SovaVerified.Dashboard.Proofs.LifecycleProofs
import SovaVerified.Core.MonitorCi
import SovaVerified.Core.Proofs.MonitorCiProofs
import SovaVerified.Dashboard.AgentRuns
import SovaVerified.Dashboard.StartAgent
import SovaVerified.Dashboard.Approval
import SovaVerified.Dashboard.Proofs.StartAgentProofs
import SovaVerified.Dashboard.Proofs.ApprovalProofs
import SovaVerified.Dashboard.Recovery
import SovaVerified.Dashboard.Proofs.RecoveryProofs
import SovaVerified.Dashboard.PrTracker
import SovaVerified.Dashboard.Proofs.PrTrackerProofs
import SovaVerified.Adapters.GitHub
import SovaVerified.Adapters.Proofs.GitHubProofs
import SovaVerified.Dashboard.MergeQueueMonitor
import SovaVerified.Dashboard.Proofs.MergeQueueMonitorProofs
import SovaVerified.Core.Proofs.IssueBudgetProofs
import SovaVerified.Dashboard.AgentPool
import SovaVerified.Dashboard.Proofs.AgentPoolProofs
import SovaVerified.Dashboard.SelfHeal
import SovaVerified.Dashboard.Proofs.SelfHealProofs
import SovaVerified.Dashboard.Finalize
import SovaVerified.Dashboard.Proofs.FinalizeProofs
import SovaVerified.Git.Worktree
import SovaVerified.Git.Proofs.WorktreeProofs
import SovaVerified.Dashboard.Settings
import SovaVerified.Dashboard.Proofs.SettingsProofs
import SovaVerified.Generations.Generations
import SovaVerified.Dashboard.Caches
import SovaVerified.Supervisor.Suitability
import SovaVerified.Supervisor.Proofs.GraphCacheProofs
import SovaVerified.Review.Handoff
import SovaVerified.Review.Proofs.HandoffProofs
import SovaVerified.Supervisor.Progression
import SovaVerified.Supervisor.Proofs.ProgressionProofs
import SovaVerified.Supervisor.Proofs.OneActionProofs
import SovaVerified.Config.ConfigCache
import SovaVerified.Config.Proofs.ConfigCacheProofs
import SovaVerified.Supervisor.PrMonitor
import SovaVerified.Supervisor.Proofs.PrMonitorProofs
import SovaVerified.Files.Files
import SovaVerified.Commands.Distribution
import SovaVerified.Commands.Proofs.TurnProofs
import SovaVerified.Commands.Proofs.DistributionProofs
import SovaVerified.Selection.Selection
import SovaVerified.Supervisor.Proofs.QueueMaintenanceProofs
import SovaVerified.Precedence.Precedence
import SovaVerified.Precedence.Kahn
import SovaVerified.Precedence.Components
import SovaVerified.Core.Dag
import SovaVerified.Core.Proofs.DagProofs
import SovaVerified.Nested.Nested
import SovaVerified.Config.ConfigRows
import SovaVerified.Config.Proofs.ConfigRowsProofs
import SovaVerified.Json.Json
import SovaVerified.Review.Proofs.UntypedFindingsProofs
import SovaVerified.Outside.Outside
import SovaVerified.Git.Rebase
import SovaVerified.Git.Proofs.RebaseProofs
import SovaVerified.Git.Proofs.RebaseCleanupProofs
import SovaVerified.Text.Reading
import SovaVerified.Git.Diff
import SovaVerified.Core.TestBaseline
import SovaVerified.Core.Proofs.TestBaselineProofs
import SovaVerified.Dashboard.Proofs.ReviewHistoryProofs
import SovaVerified.Git.Proofs.DiffProofs
import SovaVerified.Review.AddressReview
import SovaVerified.Review.Proofs.AddressReviewProofs
import SovaVerified.Review.Proofs.RoundTripProofs
import SovaVerified.Review.InlineComments
import SovaVerified.Supervisor.Proofs.QueueResultProofs
import SovaVerified.Precedence.Layers
import SovaVerified.Supervisor.DependencyGraph
import SovaVerified.Supervisor.Proofs.DependencyGraphProofs
import SovaVerified.Review.Proofs.InlineCommentsProofs
import SovaVerified.Precedence.Walk
import SovaVerified.Supervisor.Proofs.ReadinessProofs
import SovaVerified.Supervisor.Proofs.RankingProofs
import SovaVerified.Supervisor.AutoRebase
import SovaVerified.Supervisor.Proofs.AutoRebaseProofs
import SovaVerified.Json.Decoding
import SovaVerified.Json.Proofs.DecodingProofs
import SovaVerified.Review.PaginatedJson
import SovaVerified.Review.Proofs.PaginatedJsonProofs
import SovaVerified.Utils.ExtractJson
import SovaVerified.Utils.Proofs.ExtractJsonProofs
import SovaVerified.Git.CommitChecks
import SovaVerified.Git.Proofs.CommitChecksProofs
import SovaVerified.Core.PrDiffGuard
import SovaVerified.Core.Proofs.PrDiffGuardProofs
import SovaVerified.Config.EnvOverrides
import SovaVerified.Config.Proofs.EnvOverridesProofs
import SovaVerified.Text.LineLists
import SovaVerified.Utils.Proofs.MaskProofs
import SovaVerified.Utils.Proofs.PreambleProofs
import SovaVerified.Regex.Proofs.LineProofs
import SovaVerified.Scanning.Scanning
import SovaVerified.Utils.Proofs.SectionProofs
import SovaVerified.Utils.Proofs.UpsertProofs
import SovaVerified.Utils.Proofs.SectionFrameProofs
import SovaVerified.Utils.Proofs.UpsertTwiceProofs
import SovaVerified.Utils.Proofs.RemoveSectionProofs
import SovaVerified.Core.PrBody
import SovaVerified.Core.Proofs.PrBodyProofs
import SovaVerified.Regex.Proofs.FinditerProofs
import SovaVerified.Git.PrLookup
import SovaVerified.Utils.Proofs.GhProofs
import SovaVerified.Git.Proofs.PrLookupProofs
import SovaVerified.Llm.Models
import SovaVerified.Llm.Proofs.ModelsProofs
import SovaVerified.Llm.ModelAliases
import SovaVerified.Llm.Proofs.ModelAliasesProofs
import SovaVerified.Llm.ModelChain
import SovaVerified.Llm.Proofs.ModelChainProofs
import SovaVerified.Hashing.Sha256
import SovaVerified.Core.SpecStamp
import SovaVerified.Core.Proofs.SpecStampProofs
import SovaVerified.Core.CommitFold
import SovaVerified.Core.Proofs.CommitFoldProofs
import SovaVerified.Core.Validate
import SovaVerified.Core.Proofs.ValidateProofs
import SovaVerified.Git.Merge
import SovaVerified.Git.Proofs.MergeProofs
import SovaVerified.Git.Proofs.MergedCallProofs
import SovaVerified.Core.CommitConvention
import SovaVerified.Core.Proofs.CommitLineProofs
import SovaVerified.Core.Proofs.CommitTitleProofs
import SovaVerified.Llm.Egress
import SovaVerified.Llm.Proofs.EgressLineProofs
import SovaVerified.Supervisor.NetworkHealth
import SovaVerified.Supervisor.Proofs.NetworkHealthProofs
import SovaVerified.Review.Proofs.ChunkProofs
import SovaVerified.Llm.PhaseUsage
import SovaVerified.Llm.Proofs.PhaseUsageProofs
import SovaVerified.Core.SpecText
import SovaVerified.Dashboard.SpecService
import SovaVerified.Dashboard.Proofs.SpecServiceProofs
import SovaVerified.Supervisor.CoderabbitReview
import SovaVerified.Supervisor.Proofs.CoderabbitReviewProofs
import SovaVerified.Core.Proofs.SpecFilesProofs
import SovaVerified.Core.Proofs.RevisionHashProofs
import SovaVerified.Core.Proofs.WriteBackProofs
import SovaVerified.Dashboard.Proofs.WriteAnswersProofs
import SovaVerified.Ipc.Control
import SovaVerified.Ipc.Proofs.ControlProofs
import SovaVerified.Ipc.Codex
import SovaVerified.Ipc.Proofs.CodexProofs
import SovaVerified.Dashboard.AgentOutput
import SovaVerified.Dashboard.Proofs.AgentOutputProofs
import SovaVerified.Dashboard.LogViewer
import SovaVerified.Dashboard.Proofs.LogViewerProofs
