import Daruma.Core.BulkStatus
import Daruma.Routes.RepoScopes
import Daruma.Ai.Untrusted
import Daruma.Auth.Admission
import Daruma.Core.AutoClose
import Daruma.Core.Conflict
import Daruma.Core.RuleDecisions
import Daruma.Core.ContestedRuns
import Daruma.Core.ExternalRefs
import Daruma.Core.FeedProjects
import Daruma.Core.FencedWrites
import Daruma.Core.Handoffs
import Daruma.Core.LiveAnchors
import Daruma.Core.OpenPlans
import Daruma.Core.OwnedFields
import Daruma.Core.PipelineRuns
import Daruma.Core.PlanTree
import Daruma.Core.ProjectAliases
import Daruma.Core.ProjectScopes
import Daruma.Core.RetiredArtifacts
import Daruma.Core.SnapshotCuts
import Daruma.Core.SourceChains
import Daruma.Core.UnblockHints
import Daruma.Core.WorkUnitDrain
import Daruma.Domain.DraftPatch
import Daruma.Desktop.LostEvents
import Daruma.Desktop.ReplicaBinding
import Daruma.Mcp.ConfirmTokens
import Daruma.Mcp.EchoProjection
import Daruma.Mcp.ScopeResolution
import Daruma.Routes.CommandIds
import Daruma.Routes.DrainRuns
import Daruma.Routes.GraphCatchUp
import Daruma.Routes.Pagination
import Daruma.Routes.Pairing
import Daruma.Routes.ProjectDeletions
import Daruma.Routes.ReplicaGuard
import Daruma.Routes.ReplicaIngest
import Daruma.Routes.RollbackRestores
import Daruma.Routes.SelfVerification
import Daruma.Routes.WorkspaceStability
import Daruma.Storage.ClaimGenerations
import Daruma.Storage.EventStore
import Daruma.Storage.FindingLifecycle
import Daruma.Storage.GraphTraversal
import Daruma.Sync.DevicePresence
import Daruma.Sync.SubscriptionDelivery
import Daruma.Sync.WsRevocation
import Daruma.Core.PlanConcurrency
import Daruma.Core.StoredInstants
