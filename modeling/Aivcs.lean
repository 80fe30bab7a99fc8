import Aivcs.Cas.FsCasStore
import Aivcs.Cas.Puts
import Aivcs.Lib.AgeCutoff
import Aivcs.Lib.Bytes
import Aivcs.Lib.Checked
import Aivcs.Lib.Collection
import Aivcs.Lib.Decimal
import Aivcs.Lib.Digest
import Aivcs.Lib.Digraph
import Aivcs.Lib.Entries
import Aivcs.Lib.Float64
import Aivcs.Lib.Fs
import Aivcs.Lib.Hash
import Aivcs.Lib.IpAddr
import Aivcs.Lib.Json
import Aivcs.Lib.JsonDoc
import Aivcs.Lib.JsonNulls
import Aivcs.Lib.JsonPointer
import Aivcs.Lib.JsonText
import Aivcs.Lib.JsonValue
import Aivcs.Lib.Kahn
import Aivcs.Lib.Lcs
import Aivcs.Lib.Lexicographic
import Aivcs.Lib.Map
import Aivcs.Lib.MultiKahn
import Aivcs.Lib.Ndjson
import Aivcs.Lib.Log
import Aivcs.Lib.Packing
import Aivcs.Lib.Pairing
import Aivcs.Lib.Proc
import Aivcs.Lib.QueueSearch
import Aivcs.Lib.Regex
import Aivcs.Lib.Register
import Aivcs.Lib.RelPath
import Aivcs.Lib.Run
import Aivcs.Lib.SortBy
import Aivcs.Lib.Splits
import Aivcs.Lib.StackSearch
import Aivcs.Lib.Text
import Aivcs.Lib.Ustar
import Aivcs.Lib.Wildcard
import Aivcs.Forge.Types
import Aivcs.Forge.Store
import Aivcs.Forge.Sqlx
import Aivcs.Forge.Source
import Aivcs.Forge.Handlers
import Aivcs.Forge.Router
import Aivcs.Forge.Integrity
import Aivcs.Forge.CommitIdentity
import Aivcs.Forge.SourceRoundTrip
import Aivcs.Forge.Servable
import Aivcs.Forge.SourceSize
import Aivcs.Forge.SourcePaths
import Aivcs.Forge.DataMesh
import Aivcs.Cli.Walk
import Aivcs.Cli.IgnorePatterns
import Aivcs.Cli.ForgeUrlPolicy
import Aivcs.Cli.Publish
import Aivcs.Cli.NoLostPublish
import Aivcs.Cli.Fetch
import Aivcs.Cli.PublishFetch
import Aivcs.Cli.FetchModes
import Aivcs.Cli.TreeIdentity
import Aivcs.CargoRegistry.Index
import Aivcs.CargoRegistry.Requirements
import Aivcs.CargoRegistry.Routes
import Aivcs.CargoRegistry.Framing
import Aivcs.CargoRegistry.Consistency
import Aivcs.CargoRegistry.Concurrency
import Aivcs.CargoRegistry.Repair
import Aivcs.CargoRegistry.RepairAgreement
import Aivcs.CargoRegistry.RepairIdempotent
import Aivcs.CargoRegistry.RepairAccounting
import Aivcs.MultiRepo.Graph
import Aivcs.MultiRepo.GraphInvariant
import Aivcs.MultiRepo.ParallelGroups
import Aivcs.MultiRepo.ExecutionPlan
import Aivcs.MultiRepo.Sequencer
import Aivcs.MultiRepo.Sequencing
import Aivcs.MultiRepo.Backport
import Aivcs.MultiRepo.Health
import Aivcs.MultiRepo.CrossRepoGraph
import Aivcs.State.Types
import Aivcs.State.ReleaseRegistry
import Aivcs.State.Rollback
import Aivcs.State.ReleaseAgreement
import Aivcs.State.RunLedger
import Aivcs.State.LedgerRows
import Aivcs.State.LedgerEquivalence
import Aivcs.State.LedgerConcurrency
import Aivcs.State.DynLedger
import Aivcs.State.Handle
import Aivcs.State.History
import Aivcs.Domain.Digest
import Aivcs.Domain.CanonicalJson
import Aivcs.Domain.Event
import Aivcs.Domain.Eval
import Aivcs.Domain.Recording
import Aivcs.Domain.EventAdapter
import Aivcs.Domain.LedgerSummary
import Aivcs.Domain.Validation
import Aivcs.Diff.LcsDiff
import Aivcs.Diff.ToolCalls
import Aivcs.Diff.Accounting
import Aivcs.Diff.Emptiness
import Aivcs.Diff.Pointers
import Aivcs.SemanticMerge.Merge
import Aivcs.SemanticMerge.Completeness
import Aivcs.SemanticMerge.Failure
import Aivcs.Ci.Gate
import Aivcs.Ci.Rule
import Aivcs.Ci.Pipeline
import Aivcs.Ci.Agreement
import Aivcs.Hitl.Engine
import Aivcs.Hitl.Runs
import Aivcs.Hitl.Quorum
import Aivcs.Hitl.Artifact
import Aivcs.Actions.Admission
import Aivcs.Orchestration.Merge
import Aivcs.Orchestration.MergeOrder
import Aivcs.RoleOrchestration.Router
import Aivcs.RoleOrchestration.ParallelVerdict
import Aivcs.RoleOrchestration.Senders
import Aivcs.Memory.Context
import Aivcs.MemoryContext.Assembler
import Aivcs.Memory.Retention
import Aivcs.MemoryContext.Compaction
import Aivcs.TraceArtifact.Retention
import Aivcs.TraceArtifact.LongerRetention
import Aivcs.TraceArtifact.Artifact
import Aivcs.Sandbox.Execution
import Aivcs.Sandbox.ToolExecutor
import Aivcs.SelfHealing.Recovery
import Aivcs.Planning.ExecutionDag
import Aivcs.Planning.Validate
import Aivcs.Planning.Scheduling
import Aivcs.Planning.Execution
import Aivcs.IssueGraph.Edges
import Aivcs.IssueGraph.Acyclic
import Aivcs.IssueGraph.Branches
import Aivcs.IssueGraph.History
import Aivcs.Release.Guardrails
import Aivcs.Release.Semver
import Aivcs.Release.VersionOrder
import Aivcs.Release.PublishGate
import Aivcs.Release.SemverLock
import Aivcs.Release.Pipeline
import Aivcs.Release.Gates
import Aivcs.Release.Published
import Aivcs.Runs.Store
import Aivcs.Runs.Claims
import Aivcs.Runs.Agreement
import Aivcs.Runs.Listings
import Aivcs.Gateway.CallTool
import Aivcs.Gateway.Approvals
import Aivcs.SourceController.Reconcile
import Aivcs.SourceController.NoLostTrigger
import Aivcs.SourceController.EventId
import Aivcs.Git.Remote
import Aivcs.Ci.Snapshot
import Aivcs.DataGateway.RecordStep
import Aivcs.DataGateway.RunDag
import Aivcs.DataGateway.Checkpoints
import Aivcs.DataGateway.Traversal
import Aivcs.Repo.Response
import Aivcs.Repo.Discovery
import Aivcs.Gateway.AuthorityRecords
import Aivcs.Infra.CloudflareLb
import Aivcs.Forge.SourceSplit
import Aivcs.Ci.SpecDigest
import Aivcs.NixEnv.Normalize
import Aivcs.NixEnv.Logic
import Aivcs.NixEnv.Directory
import Aivcs.Diff.SemanticGraph
import Aivcs.NixEnv.Flake
import Aivcs.Deploy.DeployByDigest
import Aivcs.Deploy.Resume
import Aivcs.Brains.ProviderRouter
import Aivcs.Cli.VersionControl
import Aivcs.Cli.CommitRuns
