import Std.Data.TreeMap.Lemmas
import Std.Data.TreeSet.Lemmas

/-! # The data model

The portable problem and solution records of `model.h`.  Sizes, offsets, capacities and costs
are `UInt64`, buffer and pool identifiers `UInt32`, lifetime points `Int64`, exactly the
widths of the source; `std::vector` is `List`, `std::map` and `std::unordered_map` are
`Std.TreeMap`, `std::set` is `Std.TreeSet`.  `begin` and `end` of an address range are
`first` and `last` here (`end` is a keyword); the range is half-open, `[first, last)`. -/

namespace Dsa

abbrev BufferId := UInt32
abbrev PoolId := UInt32

def kDefaultPool : PoolId := 0

/-- `std::numeric_limits<std::uint64_t>::max()`. -/
def maxU64 : UInt64 := 18446744073709551615

/-- A half-open lifetime `[lower, upper)`. -/
structure Interval where
  lower : Int64 := 0
  upper : Int64 := 0
deriving DecidableEq, Repr

def Interval.overlaps (a b : Interval) : Bool :=
  decide (a.lower < b.upper) && decide (b.lower < a.upper)

/-- A half-open byte range. -/
structure AddressRange where
  first : UInt64 := 0
  last : UInt64 := 0
deriving DecidableEq, Repr

structure BankGeometry where
  bankSize : UInt64 := 0
  numBanks : UInt32 := 0
deriving DecidableEq, Repr

structure Buffer where
  id : BufferId := 0
  name : String := ""
  size : UInt64 := 0
  alignment : UInt64 := 1
  liveIntervals : List Interval := []
  /-- One entry means a fixed pool. -/
  allowedPools : List PoolId := [kDefaultPool]
deriving DecidableEq, Repr

structure Pool where
  id : PoolId := kDefaultPool
  name : String := "default"
  capacity : Option UInt64 := none
  reservedRanges : List AddressRange := []
  bankGeometry : Option BankGeometry := none
deriving DecidableEq, Repr

structure Colocation where
  first : BufferId := 0
  second : BufferId := 0
deriving DecidableEq, Repr

inductive SeparationReason where
  | generic
  | pipelineStage
  | targetHazard
  | semanticNoAlias
  | crossPipe
deriving DecidableEq, Repr

structure Separation where
  first : BufferId := 0
  second : BufferId := 0
  reasons : List SeparationReason := []
deriving DecidableEq, Repr

structure TemporalExclusion where
  first : BufferId := 0
  second : BufferId := 0
deriving DecidableEq, Repr

structure PinnedAllocation where
  buffer : BufferId := 0
  pool : PoolId := kDefaultPool
  offset : UInt64 := 0
  /-- No other buffer may use the pinned range, even outside this buffer's lifetime. -/
  exclusiveForAllTime : Bool := false
deriving DecidableEq, Repr

inductive ReusePenaltyReason where
  | generic
  | pipelineSerialization
  | loadMotionSerialization
  | crossPipe
  | crossCore
  | eventBudget
deriving DecidableEq, Repr

structure ReusePenalty where
  first : BufferId := 0
  second : BufferId := 0
  cost : UInt64 := 0
  reason : ReusePenaltyReason := .generic
deriving DecidableEq, Repr

structure CostModel where
  reusePenalties : List ReusePenalty := []
deriving DecidableEq, Repr

structure PyptoAliasClass where
  buffer : BufferId := 0
  members : List String := []
deriving DecidableEq, Repr

structure PyptoPipelineMember where
  buffer : BufferId := 0
  stage : Int32 := 0
  residue : UInt32 := 0
deriving DecidableEq, Repr

structure PyptoPipelineGroup where
  group : Int32 := 0
  pool : PoolId := kDefaultPool
  slotSize : UInt64 := 0
  depth : UInt32 := 0
  effectiveDepth : UInt32 := 0
  members : List PyptoPipelineMember := []
deriving DecidableEq, Repr

structure PyptoStructure where
  aliasClasses : List PyptoAliasClass := []
  pipelineGroups : List PyptoPipelineGroup := []
deriving DecidableEq, Repr

inductive ObjectiveMetric where
  | capacityOverflow
  | totalPeak
  | maxPeak
  | reuseCost
  | bankCost
deriving DecidableEq, Repr

inductive ObjectiveAggregation where
  | lexicographic
deriving DecidableEq, Repr

structure ObjectiveSpec where
  aggregation : ObjectiveAggregation := .lexicographic
  terms : List ObjectiveMetric := [.totalPeak, .maxPeak]
deriving DecidableEq, Repr

structure DsaProblem where
  buffers : List Buffer := []
  pools : List Pool := [{}]
  colocations : List Colocation := []
  separations : List Separation := []
  temporalExclusions : List TemporalExclusion := []
  pinnedAllocations : List PinnedAllocation := []
  costModel : Option CostModel := none
  pyptoStructure : Option PyptoStructure := none
  objective : ObjectiveSpec := {}
deriving DecidableEq, Repr

namespace DsaProblem

variable (problem : DsaProblem)

def findBuffer (id : BufferId) : Option Buffer := problem.buffers.find? (fun b => b.id == id)

def findPool (id : PoolId) : Option Pool := problem.pools.find? (fun p => p.id == id)

/-- The records `cost_model->reuse_penalties`, none when there is no cost model. -/
def reusePenalties : List ReusePenalty :=
  match problem.costModel with
  | none => []
  | some costs => costs.reusePenalties

end DsaProblem

structure Placement where
  pool : PoolId := kDefaultPool
  offset : UInt64 := 0
deriving DecidableEq, Repr

structure DsaSolution where
  placements : Std.TreeMap BufferId Placement := ∅

def DsaSolution.find (solution : DsaSolution) (id : BufferId) : Option Placement :=
  solution.placements[id]?

structure ObjectiveValue where
  peakByPool : Std.TreeMap PoolId UInt64 := ∅
  totalPeak : UInt64 := 0
  maxPeak : UInt64 := 0
  reuseCost : UInt64 := 0
  bankCost : UInt64 := 0

inductive SolveStatus where
  | feasible
  | infeasibleProven
  | bestEffortNoFit
  | timeout
  | unsupported
  | invalidProblem
deriving DecidableEq, Repr

structure DsaResult where
  status : SolveStatus := .unsupported
  solution : Option DsaSolution := none
  objective : ObjectiveValue := {}
  solverMetrics : Std.TreeMap String UInt64 := ∅
  diagnostics : List String := []

def SeparationReason.toString : SeparationReason → String
  | .generic => "generic"
  | .pipelineStage => "pipeline_stage"
  | .targetHazard => "target_hazard"
  | .semanticNoAlias => "semantic_no_alias"
  | .crossPipe => "cross_pipe"

def ObjectiveMetric.toString : ObjectiveMetric → String
  | .capacityOverflow => "capacity_overflow"
  | .totalPeak => "total_peak"
  | .maxPeak => "max_peak"
  | .reuseCost => "reuse_cost"
  | .bankCost => "bank_cost"

def fitThenMinimizeReuseCostObjective : ObjectiveSpec :=
  ⟨.lexicographic, [.capacityOverflow, .reuseCost]⟩

end Dsa
