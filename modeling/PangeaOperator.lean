import PangeaOperator.Lib.Json
import PangeaOperator.Lib.JsonText
import PangeaOperator.Lib.Codec
import PangeaOperator.Lib.Run
import PangeaOperator.Lib.Text
import PangeaOperator.Lib.SipHash
import PangeaOperator.Crd
import PangeaOperator.StatusRecord
import PangeaOperator.Pass
import PangeaOperator.PassStore
import PangeaOperator.PhaseUpdate
import PangeaOperator.PassRun
import PangeaOperator.Settling
import PangeaOperator.StatusPatch
import PangeaOperator.Plan
import PangeaOperator.Handler
import PangeaOperator.Ready
import PangeaOperator.DriftRun
import PangeaOperator.Retry
import PangeaOperator.Policy
import PangeaOperator.Approval
import PangeaOperator.Planning
import PangeaOperator.Applying
import PangeaOperator.Protection
import PangeaOperator.Dependency
import PangeaOperator.Render
import PangeaOperator.Projection
import PangeaOperator.CycleReceipt
import PangeaOperator.CycleRecord
import PangeaOperator.Import
import PangeaOperator.Adoption
import PangeaOperator.Escalation
import PangeaOperator.Conflict
import PangeaOperator.BareApply
import PangeaOperator.Verdict
import PangeaOperator.Reactive
import PangeaOperator.ReactiveStore
import PangeaOperator.ReactiveRun
import PangeaOperator.ForceReset
import PangeaOperator.PhaseAgreement
import PangeaOperator.StateLock
import PangeaOperator.Leader
import PangeaOperator.LeaderRun
import PangeaOperator.ExecutorMigration
import PangeaOperator.ReconcileQueue
import PangeaOperator.GemCache
import PangeaOperator.StateBackend
import PangeaOperator.RetryingBackend
import PangeaOperator.BackendAgreement
import PangeaOperator.Lib.Yields
import PangeaOperator.StateDocument
import PangeaOperator.StateSplit
import PangeaOperator.StateMerge
import PangeaOperator.Lib.DepthFirst
import PangeaOperator.LeafQueue
import PangeaOperator.LeafQueueRun
import PangeaOperator.LeafRollup
import PangeaOperator.ScopeCaps
import PangeaOperator.LeafAdmit
import PangeaOperator.LeafGate
import PangeaOperator.LeafGateRun
import PangeaOperator.LeafWake
import PangeaOperator.LeafAddress
import PangeaOperator.MoveClaims
import PangeaOperator.LeafMigration
import PangeaOperator.LeafMigrationRun
import PangeaOperator.Lib.SortedMap
import PangeaOperator.Lib.UnionFind
import PangeaOperator.LeafPartition
import PangeaOperator.LeafNames
import PangeaOperator.TemplateDag
import PangeaOperator.LeafPlan
import PangeaOperator.Lib.Components
import PangeaOperator.LeafComponents
import PangeaOperator.AddressGrammar
import PangeaOperator.DataSources
import PangeaOperator.AdmitCaps
import PangeaOperator.Lib.Spread
import PangeaOperator.LeafDrift
import PangeaOperator.DriftSlots
import PangeaOperator.Lib.TrailingText
import PangeaOperator.InputsDigest
import PangeaOperator.LeafSchedule
import PangeaOperator.PgIdent
import PangeaOperator.Lib.Grounded
import PangeaOperator.TemplateCycles
import PangeaOperator.LeafTransitions
import PangeaOperator.Ratchet
import PangeaOperator.LeafSlice
import PangeaOperator.Lib.Wildcard
import PangeaOperator.Glob
import PangeaOperator.PolicyFold
import PangeaOperator.ConditionTimes
import PangeaOperator.DependencyNames
import PangeaOperator.ImportPriorities
import PangeaOperator.CycleAccount
import PangeaOperator.CreateDiscovery
import PangeaOperator.BundleReaders
import PangeaOperator.ImportRendering
import PangeaOperator.ConflictRun
import PangeaOperator.Diagnostics
import PangeaOperator.Lib.CountedOrder
import PangeaOperator.FlowOrder
import PangeaOperator.FlowScheduler
import PangeaOperator.Lib.Worklist
import PangeaOperator.FailureCascade
import PangeaOperator.Lib.Cut
import PangeaOperator.FlowVariables
import PangeaOperator.FlowStatuses
import PangeaOperator.FlowReadiness
import PangeaOperator.Lib.Numeral
import PangeaOperator.SerialNumber
import PangeaOperator.Lib.Tlv
import PangeaOperator.Certificate
import PangeaOperator.RubyLiteral
import PangeaOperator.BoundedWriter
import PangeaOperator.Lib.JsonPath
import PangeaOperator.Lib.LastWins
import PangeaOperator.ConfigCascade
import PangeaOperator.OrgCatalogue
import PangeaOperator.OrgRecords
import PangeaOperator.OrgMoves
import PangeaOperator.FlowGate
import PangeaOperator.Lib.Contested
import PangeaOperator.FlowRun
import PangeaOperator.Network
import PangeaOperator.Durations
import PangeaOperator.RateLimit
import PangeaOperator.GithubRead
import PangeaOperator.Lib.Scanner
import PangeaOperator.ErrorSignature
import PangeaOperator.Lib.Prog
import PangeaOperator.ImagePipeline
import PangeaOperator.ImagePipelineRun
import PangeaOperator.ImageRollback
import PangeaOperator.Lib.EpochCache
import PangeaOperator.RubyModules
import PangeaOperator.RubyDispatch
import PangeaOperator.RubyDispatchRun
import PangeaOperator.Lib.Succession
import PangeaOperator.RubySuper
import PangeaOperator.RubyParams
import PangeaOperator.Lib.JsonReader
import PangeaOperator.RubyJson
import PangeaOperator.PassRegistry
import PangeaOperator.PassWatchdog
import PangeaOperator.Lib.Signals
import PangeaOperator.RubySyntax
import PangeaOperator.RubyEval
import PangeaOperator.RubyCalls
import PangeaOperator.RubyScoping
import PangeaOperator.RubyControl
import PangeaOperator.RubySession
