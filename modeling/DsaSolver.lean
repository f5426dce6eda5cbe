import DsaSolver.Model
import DsaSolver.Theory.Word
import DsaSolver.Theory.Accumulate
import DsaSolver.Theory.Forest
import DsaSolver.Theory.Packing
import DsaSolver.DisjointSet
import DsaSolver.Validator
import DsaSolver.ValidatorFacts
import DsaSolver.PlacementEngine
import DsaSolver.PrepareFacts
import DsaSolver.ClassView
import DsaSolver.ReuseSearch
import DsaSolver.SearchView
import DsaSolver.NodePacking
import DsaSolver.NodeCost
import DsaSolver.NodeSteps
import DsaSolver.StructuredProblem
import DsaSolver.Pairs
import DsaSolver.CrossPipe
import DsaSolver.PipelineIntent
import DsaSolver.Theory.Text
import DsaSolver.Peaks
import DsaSolver.Theory.Json
import DsaSolver.CoreRelaxation
import DsaSolver.StructuredJson
import DsaSolver.JsonRoundTrip
import DsaSolver.JsonExact
import DsaSolver.Architecture
import DsaSolver.ArchitectureBinding
import DsaSolver.Theory.Topological
import DsaSolver.PenaltyEdges
import DsaSolver.HappensBefore
import DsaSolver.SyncDerivation
import DsaSolver.Compatibility
import DsaSolver.Theory.GridRounding
import DsaSolver.Theory.Sweep
import DsaSolver.ScaleSolver
import DsaSolver.GridSweep
import DsaSolver.WithoutCaps
import DsaSolver.GridCost
import DsaSolver.SmallBand
import DsaSolver.TrackLayout
import DsaSolver.ScalePools
import DsaSolver.ScaleGuarantee
import DsaSolver.Theory.Lines
import DsaSolver.MiniMallocCsv
import DsaSolver.MiniMallocRoundTrip
import DsaSolver.PoolRenumbering
import DsaSolver.CanonicalProgram
import DsaSolver.Theory.BellmanFord
import DsaSolver.Theory.MatchingDuality
import DsaSolver.CardinalityMatching
import DsaSolver.FlowNetwork
import DsaSolver.ResidualFlow
import DsaSolver.ShortestPaths
import DsaSolver.Augmentation
import DsaSolver.MatchingFlow
import DsaSolver.MatchingReach
import DsaSolver.MatchingOptimal
import DsaSolver.Theory.BranchAndBound
import DsaSolver.Supports
import DsaSolver.CanonicalSearch
import DsaSolver.ColocationClasses
import DsaSolver.CypressReserved
import DsaSolver.Theory.RangeUnion
import DsaSolver.ArchitectureIdentity
import DsaSolver.Theory.RankCompression
import DsaSolver.StandardShape
import DsaSolver.StandardPlacements
import DsaSolver.SuiteInstances
import DsaSolver.Theory.EventSweep
import DsaSolver.LiveBytes
import DsaSolver.RawResults
import DsaSolver.Theory.PairSums
import DsaSolver.ReuseGeometry
import DsaSolver.ReuseClasses
import DsaSolver.ReuseNodes
import DsaSolver.SparseReference
import DsaSolver.AddressSearch
import DsaSolver.EngineSoundness
import DsaSolver.Theory.FreeGaps
import DsaSolver.FreeAddresses
import DsaSolver.HittingSet
import DsaSolver.TreewidthSolver
import DsaSolver.Theory.Elimination
import DsaSolver.MinFill
import DsaSolver.EliminationScopes
import DsaSolver.Theory.RestrictedGrowth
import DsaSolver.Partitions
import DsaSolver.CanonicalGreedy
import DsaSolver.GreedyDominance
import DsaSolver.PromotedEdges
import DsaSolver.PromoteRepair
import DsaSolver.RepairSoundness
import DsaSolver.PoolPlacements
import DsaSolver.CanonicalExactness
import DsaSolver.WholeSearch
import DsaSolver.PromoteAll
import DsaSolver.Theory.Cores
import DsaSolver.PromotedOracle
import DsaSolver.ImplicitHittingSet
import DsaSolver.HittingSetLoop
import DsaSolver.HittingSetExact
import DsaSolver.PoolScores
import DsaSolver.CanonicalSolver
import DsaSolver.CanonicalOptimum
import DsaSolver.Theory.MinSum
import DsaSolver.TreewidthTables
import DsaSolver.TreewidthElimination
import DsaSolver.UnitPools
import DsaSolver.TreewidthPotentials
import DsaSolver.TreewidthOptimum
import DsaSolver.CapacityTwoSolver
import DsaSolver.Theory.Bipartition
import DsaSolver.CapacityTwoComponents
import DsaSolver.CapacityTwoSearch
import DsaSolver.CapacityTwoOptimum
import DsaSolver.SpanOneOptimum
import DsaSolver.PortfolioSolver
import DsaSolver.StructuredSearchSolver
import DsaSolver.HillClimbSolver
import DsaSolver.ReuseLocalSearch
import DsaSolver.ReuseLocalSearchBest
import DsaSolver.DerivedPenalties
