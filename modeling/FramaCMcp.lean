import FramaCMcp.Proof.CheckVerdict
import FramaCMcp.Proof.ProfileDoors
import FramaCMcp.Proof.CoverageCounts
import FramaCMcp.Proof.TopologicalOrder
import FramaCMcp.Proof.TableFetch
import FramaCMcp.Proof.RacePairs
import FramaCMcp.Proof.GoalDiffOrder
import FramaCMcp.Proof.SessionFreeDigest
import FramaCMcp.Proof.LockSummaries
import FramaCMcp.Proof.DeadlockReport
import FramaCMcp.Proof.ContractGate
import FramaCMcp.Proof.OptionInjection
import FramaCMcp.Proof.ParseRecord
import FramaCMcp.Proof.SettingsInForce
import FramaCMcp.Proof.GoalTableGate
import FramaCMcp.Proof.EquivalentAnnotations
import FramaCMcp.Proof.ReloadRequest
import FramaCMcp.Proof.SandboxRegistry
import FramaCMcp.Proof.SandboxRoutes
import FramaCMcp.Proof.LoopFrames
import FramaCMcp.Proof.ClauseEnds
import FramaCMcp.Proof.ProbeGates
import FramaCMcp.Proof.VariantVerdict
import FramaCMcp.Proof.MergedHypotheses
import FramaCMcp.Proof.HypothesisNames
import FramaCMcp.Proof.PrintedGoals
import FramaCMcp.Proof.SharedRecords
import FramaCMcp.Proof.DirectiveSpellings
import FramaCMcp.Proof.ResponseLimit
import FramaCMcp.Proof.OutputLinks
import FramaCMcp.Proof.WriteTest
import FramaCMcp.Proof.LoopRemap
import FramaCMcp.Proof.LockNames
import FramaCMcp.Proof.LoopMarks
import FramaCMcp.Proof.RepeatedFunctions
import FramaCMcp.Proof.NoiseMask
import FramaCMcp.Proof.SentKinds
import FramaCMcp.Proof.ExistingClauses
import FramaCMcp.Proof.FileScopeLocks
import FramaCMcp.Proof.CallChain
import FramaCMcp.Proof.GoalAdvice
import FramaCMcp.Proof.CompileEntry
import FramaCMcp.Proof.CppArguments
import FramaCMcp.Proof.AnnotationOrigins
import FramaCMcp.Proof.TypeCollection
import FramaCMcp.Proof.CalleeCollection
import FramaCMcp.Proof.ScopeResolution
import FramaCMcp.Proof.InsertedCode
import FramaCMcp.Proof.WarningCounts
import FramaCMcp.Proof.RuntimeCheck
import FramaCMcp.Proof.ContractFrontier
import FramaCMcp.Proof.CompleteDump
import FramaCMcp.Proof.ExportedClauses
import FramaCMcp.Proof.RecursiveLogic
import FramaCMcp.Proof.BatchMessages
import FramaCMcp.Proof.ParenPairs
import FramaCMcp.Proof.InstanceVacuity
import FramaCMcp.Proof.ContractReadings
import FramaCMcp.Proof.ExprMeaning
import FramaCMcp.Proof.StreamRequests
import FramaCMcp.Proof.ParallelVerification
import FramaCMcp.Proof.Restarts
