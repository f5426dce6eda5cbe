import DsaSolver.Model
import DsaSolver.DisjointSet
import DsaSolver.Theory.Word

/-! # The validator

`validator.cpp`: structural validation of a problem, validation of a placement, and the
recomputed objective.  A `std::set` that a loop only tests for membership is the list of the
values inserted so far; an error vector that a loop appends to is the concatenation of what
its iterations append. -/

namespace Dsa

/-- `AddOverflows`. -/
abbrev addOverflows (first second : UInt64) : Bool := Theory.addOverflows first second

/-- `SaturatingAdd`. -/
abbrev saturatingAdd (first second : UInt64) : UInt64 := Theory.satAdd first second

/-- The first buffer index of an id (`BufferIndices`: `emplace` keeps the first). -/
def bufferIndices (problem : DsaProblem) (id : BufferId) : Option ℕ :=
  problem.buffers.findIdx? (fun b => b.id == id)

def DsaProblem.bufferAt (problem : DsaProblem) (index : ℕ) : Buffer := problem.buffers.getD index {}

/-- The index pairs of the colocation records whose two buffers exist. -/
def colocationPairs (problem : DsaProblem) : List (ℕ × ℕ) :=
  problem.colocations.filterMap fun constraint =>
    match bufferIndices problem constraint.first, bufferIndices problem constraint.second with
    | some first, some second => some (first, second)
    | _, _ => none

/-- The disjoint set after the loop over the colocations. -/
def colocationSets (problem : DsaProblem) : DisjointSet :=
  (DisjointSet.ofSize problem.buffers.length).unionAll (colocationPairs problem)

/-- `extent_by_root`: the largest size of each class, at its root. -/
def extentByRoot (problem : DsaProblem) : List UInt64 :=
  (List.range problem.buffers.length).foldl
    (fun extents index =>
      let root := (colocationSets problem).root index
      extents.set root (max (extents.getD root 0) (problem.bufferAt index).size))
    (List.replicate problem.buffers.length 0)

/-- `AllocationClassExtents`: the extent of the class of each buffer. -/
def allocationClassExtents (problem : DsaProblem) : List UInt64 :=
  (List.range problem.buffers.length).map fun index =>
    (extentByRoot problem).getD ((colocationSets problem).root index) 0

def poolAllowed (buffer : Buffer) (pool : PoolId) : Bool := buffer.allowedPools.contains pool

def pairName (first second : BufferId) : String := toString first ++ "," ++ toString second

def lifetimesOverlap (first second : Buffer) : Bool :=
  first.liveIntervals.any fun a => second.liveIntervals.any fun b => a.overlaps b

def haveTemporalConflict (problem : DsaProblem) (first second : Buffer) : Bool :=
  if problem.temporalExclusions.any (fun exclusion =>
      (exclusion.first == first.id && exclusion.second == second.id) ||
        (exclusion.first == second.id && exclusion.second == first.id)) then false
  else lifetimesOverlap first second

def addressRangesOverlap (firstOffset firstSize secondOffset secondSize : UInt64) : Bool :=
  if firstSize == 0 || secondSize == 0 then false
  else if addOverflows firstOffset firstSize || addOverflows secondOffset secondSize then true
  else decide (firstOffset < secondOffset + secondSize) &&
    decide (secondOffset < firstOffset + firstSize)

/-- One error when the condition holds. -/
def errorIf (condition : Bool) (message : String) : List String :=
  if condition then [message] else []

/-- `capacity && last > *capacity`. -/
def exceedsCapacity (capacity : Option UInt64) (last : UInt64) : Bool :=
  match capacity with
  | none => false
  | some capacity => decide (last > capacity)

/-! ### `ValidateProblem` -/

def reservedRangeErrors (pool : Pool) (range : AddressRange) : List String :=
  errorIf (range.first ≥ range.last)
      ("pool " ++ toString pool.id ++ " has an empty or inverted reserved range") ++
    errorIf (exceedsCapacity pool.capacity range.last)
      ("pool " ++ toString pool.id ++ " reserved range exceeds capacity")

def poolErrors : List PoolId → List Pool → List String
  | _, [] => []
  | poolIds, pool :: rest =>
      errorIf (poolIds.contains pool.id) ("duplicate pool id " ++ toString pool.id) ++
        pool.reservedRanges.flatMap (reservedRangeErrors pool) ++
        errorIf (match pool.bankGeometry with
            | none => false
            | some geometry => geometry.bankSize == 0 || geometry.numBanks == 0)
          ("pool " ++ toString pool.id ++ " has invalid bank geometry") ++
        poolErrors (pool.id :: poolIds) rest

def intervalErrors (buffer : Buffer) (interval : Interval) : List String :=
  errorIf (interval.lower ≥ interval.upper)
    ("buffer " ++ toString buffer.id ++ " has an empty or inverted lifetime interval")

def allowedPoolErrors (poolIds : List PoolId) (buffer : Buffer) :
    List PoolId → List PoolId → List String
  | _, [] => []
  | allowed, pool :: rest =>
      errorIf (allowed.contains pool)
          ("buffer " ++ toString buffer.id ++ " repeats an allowed pool") ++
        errorIf (!poolIds.contains pool)
          ("buffer " ++ toString buffer.id ++ " references unknown pool " ++ toString pool) ++
        allowedPoolErrors poolIds buffer (pool :: allowed) rest

def bufferErrors (poolIds : List PoolId) :
    List BufferId → List String → List Buffer → List String
  | _, _, [] => []
  | bufferIds, bufferNames, buffer :: rest =>
      errorIf (bufferIds.contains buffer.id) ("duplicate buffer id " ++ toString buffer.id) ++
        errorIf (buffer.name != "" && bufferNames.contains buffer.name)
          ("duplicate buffer name '" ++ buffer.name ++ "'") ++
        errorIf (buffer.size == 0) ("buffer " ++ toString buffer.id ++ " has zero size") ++
        errorIf (buffer.alignment == 0) ("buffer " ++ toString buffer.id ++ " alignment is zero") ++
        errorIf buffer.liveIntervals.isEmpty
          ("buffer " ++ toString buffer.id ++ " has no lifetime intervals") ++
        buffer.liveIntervals.flatMap (intervalErrors buffer) ++
        errorIf buffer.allowedPools.isEmpty
          ("buffer " ++ toString buffer.id ++ " has no allowed pools") ++
        allowedPoolErrors poolIds buffer [] buffer.allowedPools ++
        bufferErrors poolIds (buffer.id :: bufferIds)
          (if buffer.name == "" then bufferNames else buffer.name :: bufferNames) rest

/-- `buffer_ids.count(id) != 0`. -/
def knownBuffer (problem : DsaProblem) (id : BufferId) : Bool :=
  (problem.buffers.map Buffer.id).contains id

def colocationErrors (problem : DsaProblem) (constraint : Colocation) : List String :=
  errorIf (!knownBuffer problem constraint.first || !knownBuffer problem constraint.second)
    ("colocation references an unknown buffer: " ++ pairName constraint.first constraint.second)

/-- The keys of the set `colocated`. -/
def colocatedKeys (problem : DsaProblem) : List (BufferId × BufferId) :=
  (problem.colocations.filter (fun constraint =>
      knownBuffer problem constraint.first && knownBuffer problem constraint.second)).map
    fun constraint => (min constraint.first constraint.second, max constraint.first constraint.second)

def separationReasonErrors (constraint : Separation) :
    List SeparationReason → List SeparationReason → List String
  | _, [] => []
  | reasons, reason :: rest =>
      errorIf (reasons.contains reason)
          ("separation repeats reason '" ++ reason.toString ++ "' for buffers " ++
            pairName constraint.first constraint.second) ++
        separationReasonErrors constraint (reason :: reasons) rest

def separationErrors (problem : DsaProblem) (constraint : Separation) : List String :=
  if !knownBuffer problem constraint.first || !knownBuffer problem constraint.second then
    ["separation references an unknown buffer: " ++ pairName constraint.first constraint.second]
  else
    errorIf (constraint.first == constraint.second ||
        (colocatedKeys problem).contains
          (min constraint.first constraint.second, max constraint.first constraint.second))
      ("separation contradicts colocation for buffers " ++
        pairName constraint.first constraint.second) ++
    separationReasonErrors constraint [] constraint.reasons

def temporalExclusionErrors (problem : DsaProblem) (exclusion : TemporalExclusion) : List String :=
  if !knownBuffer problem exclusion.first || !knownBuffer problem exclusion.second then
    ["temporal exclusion references an unknown buffer: " ++ pairName exclusion.first exclusion.second]
  else
    errorIf (exclusion.first == exclusion.second)
      "temporal exclusion references the same buffer twice"

/-- The address part of the check of a pinned allocation. -/
def pinnedAddressErrors (problem : DsaProblem) (pinned : PinnedAllocation) (buffer : Buffer) :
    List String :=
  if addOverflows pinned.offset buffer.size then
    ["buffer " ++ toString pinned.buffer ++ " pinned address range overflows uint64"]
  else
    match problem.findPool pinned.pool with
    | none => []
    | some pool =>
        errorIf (exceedsCapacity pool.capacity (pinned.offset + buffer.size))
          ("buffer " ++ toString pinned.buffer ++ " pinned address exceeds pool capacity") ++
        pool.reservedRanges.flatMap fun reserved =>
          errorIf (addressRangesOverlap pinned.offset buffer.size reserved.first
              (reserved.last - reserved.first))
            ("buffer " ++ toString pinned.buffer ++ " pinned address overlaps a reserved range")

def pinnedErrors (problem : DsaProblem) : List BufferId → List PinnedAllocation → List String
  | _, [] => []
  | pinnedIds, pinned :: rest =>
      match problem.findBuffer pinned.buffer with
      | none =>
          ("pinned allocation references unknown buffer " ++ toString pinned.buffer) ::
            pinnedErrors problem pinnedIds rest
      | some buffer =>
          errorIf (pinnedIds.contains pinned.buffer)
              ("buffer " ++ toString pinned.buffer ++ " is pinned more than once") ++
            errorIf ((problem.findPool pinned.pool).isNone || !poolAllowed buffer pinned.pool)
              ("buffer " ++ toString pinned.buffer ++ " is pinned to a disallowed pool") ++
            errorIf (pinned.offset % buffer.alignment != 0)
              ("buffer " ++ toString pinned.buffer ++ " has a misaligned pinned offset") ++
            pinnedAddressErrors problem pinned buffer ++
            pinnedErrors problem (pinned.buffer :: pinnedIds) rest

def reusePenaltyErrors (problem : DsaProblem) (penalty : ReusePenalty) : List String :=
  errorIf (!knownBuffer problem penalty.first || !knownBuffer problem penalty.second)
    ("reuse penalty references an unknown buffer: " ++ pairName penalty.first penalty.second)

def aliasClassErrors (problem : DsaProblem) : List BufferId → List PyptoAliasClass → List String
  | _, [] => []
  | aliasBuffers, aliasClass :: rest =>
      errorIf (!knownBuffer problem aliasClass.buffer)
          ("PyPTO alias class references unknown buffer " ++ toString aliasClass.buffer) ++
        errorIf (aliasBuffers.contains aliasClass.buffer)
          ("PyPTO alias structure repeats buffer " ++ toString aliasClass.buffer) ++
        errorIf aliasClass.members.isEmpty
          ("PyPTO alias class for buffer " ++ toString aliasClass.buffer ++ " has no members") ++
        aliasClassErrors problem (aliasClass.buffer :: aliasBuffers) rest

def groupName (group : PyptoPipelineGroup) : String :=
  toString group.group ++ " in pool " ++ toString group.pool

/-- The checks of a pipeline member against the buffer it names. -/
def memberBufferErrors (problem : DsaProblem) (group : PyptoPipelineGroup)
    (member : PyptoPipelineMember) : List String :=
  match problem.findBuffer member.buffer with
  | none =>
      ["PyPTO pipeline group " ++ groupName group ++ " references unknown buffer " ++
        toString member.buffer]
  | some buffer =>
      errorIf (!poolAllowed buffer group.pool)
          ("PyPTO pipeline member " ++ toString member.buffer ++ " does not allow group pool " ++
            toString group.pool) ++
        errorIf (buffer.size > group.slotSize)
          ("PyPTO pipeline member " ++ toString member.buffer ++ " exceeds group slot size")

/-- `residue_by_stage.emplace`: the stages seen so far, each with its first residue. -/
def emplaceResidue (residueByStage : List (Int32 × UInt32)) (member : PyptoPipelineMember) :
    List (Int32 × UInt32) :=
  match residueByStage.lookup member.stage with
  | none => (member.stage, member.residue) :: residueByStage
  | some _ => residueByStage

/-- The loop over the members of a group; it ends with the test of the depth against the
number of distinct stages. -/
def pipelineMemberErrors (problem : DsaProblem) (group : PyptoPipelineGroup) :
    List (BufferId × Int32) → List (Int32 × UInt32) → List PyptoPipelineMember → List String
  | _, residueByStage, [] =>
      errorIf (residueByStage.length != group.depth.toNat)
        ("PyPTO pipeline group " ++ groupName group ++ " depth does not match its distinct stages")
  | pipelineMembers, residueByStage, member :: rest =>
      memberBufferErrors problem group member ++
        errorIf (member.stage < 0) "PyPTO pipeline member has a negative stage" ++
        errorIf (member.residue ≥ group.effectiveDepth)
          "PyPTO pipeline member residue exceeds effective depth" ++
        errorIf (pipelineMembers.contains (member.buffer, member.stage))
          ("PyPTO pipeline group " ++ groupName group ++ " repeats a buffer/stage member") ++
        errorIf (match residueByStage.lookup member.stage with
            | none => false
            | some residue => residue != member.residue)
          "PyPTO pipeline stage maps to multiple residues" ++
        pipelineMemberErrors problem group ((member.buffer, member.stage) :: pipelineMembers)
          (emplaceResidue residueByStage member) rest

def pipelineGroupErrors (problem : DsaProblem) :
    List (PoolId × Int32) → List PyptoPipelineGroup → List String
  | _, [] => []
  | groupIds, group :: rest =>
      errorIf (group.group < 0) "PyPTO pipeline group id must be non-negative" ++
        errorIf (groupIds.contains (group.pool, group.group))
          ("duplicate PyPTO pipeline group " ++ groupName group) ++
        errorIf (problem.findPool group.pool).isNone
          ("PyPTO pipeline group " ++ groupName group ++ " references an unknown pool") ++
        errorIf (group.slotSize == 0)
          ("PyPTO pipeline group " ++ groupName group ++ " has zero slot size") ++
        errorIf (group.depth == 0)
          ("PyPTO pipeline group " ++ groupName group ++ " has zero depth") ++
        errorIf (group.effectiveDepth == 0 || group.effectiveDepth > group.depth)
          ("PyPTO pipeline group " ++ groupName group ++ " has invalid effective depth") ++
        errorIf group.members.isEmpty
          ("PyPTO pipeline group " ++ groupName group ++ " has no members") ++
        pipelineMemberErrors problem group [] [] group.members ++
        pipelineGroupErrors problem ((group.pool, group.group) :: groupIds) rest

def pyptoErrors (problem : DsaProblem) : List String :=
  match problem.pyptoStructure with
  | none => []
  | some pypto =>
      aliasClassErrors problem [] pypto.aliasClasses ++ pipelineGroupErrors problem [] pypto.pipelineGroups

def objectiveTermErrors : List ObjectiveMetric → List ObjectiveMetric → List String
  | _, [] => []
  | objectiveTerms, metric :: rest =>
      errorIf (objectiveTerms.contains metric)
          ("objective repeats metric '" ++ metric.toString ++ "'") ++
        objectiveTermErrors (metric :: objectiveTerms) rest

/-- `ValidateProblem`. -/
def validateProblem (problem : DsaProblem) : List String :=
  poolErrors [] problem.pools ++
    errorIf problem.pools.isEmpty "problem has no pools" ++
    bufferErrors (problem.pools.map Pool.id) [] [] problem.buffers ++
    problem.colocations.flatMap (colocationErrors problem) ++
    problem.separations.flatMap (separationErrors problem) ++
    problem.temporalExclusions.flatMap (temporalExclusionErrors problem) ++
    pinnedErrors problem [] problem.pinnedAllocations ++
    problem.reusePenalties.flatMap (reusePenaltyErrors problem) ++
    pyptoErrors problem ++
    errorIf problem.objective.terms.isEmpty "objective has no terms" ++
    objectiveTermErrors [] problem.objective.terms

/-! ### `ValidateSolution` -/

def placementReferenceErrors (problem : DsaProblem) (entry : BufferId × Placement) : List String :=
  errorIf (problem.findBuffer entry.1).isNone
      ("solution contains unknown buffer " ++ toString entry.1) ++
    errorIf (problem.findPool entry.2.pool).isNone
      ("solution references unknown pool " ++ toString entry.2.pool)

/-- The address checks of a placed buffer against its pool. -/
def poolAddressErrors (buffer : Buffer) (placement : Placement) (pool : Pool) : List String :=
  errorIf (exceedsCapacity pool.capacity (placement.offset + buffer.size))
    ("buffer " ++ toString buffer.id ++ " exceeds pool capacity") ++
  pool.reservedRanges.flatMap fun reserved =>
    errorIf (addressRangesOverlap placement.offset buffer.size reserved.first
        (reserved.last - reserved.first))
      ("buffer " ++ toString buffer.id ++ " overlaps a reserved range")

def bufferPlacementErrors (problem : DsaProblem) (solution : DsaSolution) (buffer : Buffer) :
    List String :=
  match solution.find buffer.id with
  | none => ["buffer " ++ toString buffer.id ++ " has no placement"]
  | some placement =>
      errorIf (!poolAllowed buffer placement.pool)
          ("buffer " ++ toString buffer.id ++ " is placed in a disallowed pool") ++
        errorIf (placement.offset % buffer.alignment != 0)
          ("buffer " ++ toString buffer.id ++ " violates alignment") ++
        if addOverflows placement.offset buffer.size then
          ["buffer " ++ toString buffer.id ++ " address range overflows uint64"]
        else
          match problem.findPool placement.pool with
          | none => []
          | some pool => poolAddressErrors buffer placement pool

def colocatedPlacementErrors (solution : DsaSolution) (constraint : Colocation) : List String :=
  match solution.find constraint.first, solution.find constraint.second with
  | some first, some second =>
      errorIf (first.pool != second.pool || first.offset != second.offset)
        ("colocated buffers " ++ pairName constraint.first constraint.second ++
          " do not share a placement")
  | _, _ => []

/-- `exclusive_pins.count(id) != 0`. -/
def exclusivelyPinned (problem : DsaProblem) (id : BufferId) : Bool :=
  problem.pinnedAllocations.any fun pinned => pinned.exclusiveForAllTime && pinned.buffer == id

/-- The extent `allocation_extents[index]`. -/
def allocationExtent (problem : DsaProblem) (index : ℕ) : UInt64 :=
  (allocationClassExtents problem).getD index 0

/-- The two placements use a common address of one pool. -/
def placementsOverlap (first : Placement) (firstExtent : UInt64) (second : Placement)
    (secondExtent : UInt64) : Bool :=
  first.pool == second.pool &&
    addressRangesOverlap first.offset firstExtent second.offset secondExtent

def lifetimePairErrors (problem : DsaProblem) (solution : DsaSolution) (i j : ℕ) : List String :=
  if (colocationSets problem).root i == (colocationSets problem).root j then []
  else
    let firstBuffer := problem.bufferAt i
    let secondBuffer := problem.bufferAt j
    let mustNotReuse := haveTemporalConflict problem firstBuffer secondBuffer ||
      exclusivelyPinned problem firstBuffer.id || exclusivelyPinned problem secondBuffer.id
    if !mustNotReuse then []
    else
      match solution.find firstBuffer.id, solution.find secondBuffer.id with
      | some first, some second =>
          errorIf (placementsOverlap first (allocationExtent problem i) second
              (allocationExtent problem j))
            ("lifetime-overlapping buffers " ++ pairName firstBuffer.id secondBuffer.id ++
              " overlap in address")
      | _, _ => []

def separatedPlacementErrors (problem : DsaProblem) (solution : DsaSolution)
    (constraint : Separation) : List String :=
  match problem.findBuffer constraint.first, problem.findBuffer constraint.second,
      solution.find constraint.first, solution.find constraint.second,
      bufferIndices problem constraint.first, bufferIndices problem constraint.second with
  | some _, some _, some first, some second, some firstIndex, some secondIndex =>
      errorIf (placementsOverlap first (allocationExtent problem firstIndex) second
          (allocationExtent problem secondIndex))
        ("separated buffers " ++ pairName constraint.first constraint.second ++
          " overlap in address")
  | _, _, _, _, _, _ => []

def pinnedPlacementErrors (solution : DsaSolution) (pinned : PinnedAllocation) : List String :=
  match solution.find pinned.buffer with
  | none => []
  | some placement =>
      errorIf (placement.pool != pinned.pool || placement.offset != pinned.offset)
        ("buffer " ++ toString pinned.buffer ++ " violates its pinned placement")

/-- `ValidateSolution`. -/
def validateSolution (problem : DsaProblem) (solution : DsaSolution) : List String :=
  if validateProblem problem ≠ [] then validateProblem problem
  else
    solution.placements.toList.flatMap (placementReferenceErrors problem) ++
      problem.buffers.flatMap (bufferPlacementErrors problem solution) ++
      problem.colocations.flatMap (colocatedPlacementErrors solution) ++
      ((List.range problem.buffers.length).flatMap fun i =>
        (List.range' (i + 1) (problem.buffers.length - (i + 1))).flatMap fun j =>
          lifetimePairErrors problem solution i j) ++
      problem.separations.flatMap (separatedPlacementErrors problem solution) ++
      problem.pinnedAllocations.flatMap (pinnedPlacementErrors solution)

/-! ### `EvaluateObjective` -/

/-- `peak_by_pool[pool] = max(peak_by_pool[pool], value)`. -/
def raisePeak (peakByPool : Std.TreeMap PoolId UInt64) (pool : PoolId) (value : UInt64) :
    Std.TreeMap PoolId UInt64 :=
  peakByPool.insert pool (max (peakByPool.getD pool 0) value)

/-- The loop over the reserved ranges of the pools. -/
def reservedPeaks (problem : DsaProblem) : Std.TreeMap PoolId UInt64 :=
  problem.pools.foldl
    (fun peaks pool => pool.reservedRanges.foldl
      (fun peaks reserved => raisePeak peaks pool.id reserved.last) peaks)
    ∅

/-- `peak_by_pool` after the loop over the buffers. -/
def peakByPool (problem : DsaProblem) (solution : DsaSolution) : Std.TreeMap PoolId UInt64 :=
  problem.buffers.foldl
    (fun peaks buffer =>
      match solution.find buffer.id with
      | none => peaks
      | some placement =>
          if addOverflows placement.offset buffer.size then peaks
          else raisePeak peaks placement.pool (placement.offset + buffer.size))
    (reservedPeaks problem)

/-- The penalty is paid: its buffers reuse an address and are neither colocated nor alive
together. -/
def penaltyPaid (problem : DsaProblem) (solution : DsaSolution) (penalty : ReusePenalty) : Bool :=
  match problem.findBuffer penalty.first, problem.findBuffer penalty.second,
      solution.find penalty.first, solution.find penalty.second,
      bufferIndices problem penalty.first, bufferIndices problem penalty.second with
  | some firstBuffer, some secondBuffer, some first, some second, some firstIndex,
      some secondIndex =>
      let intentionallyColocated :=
        (colocationSets problem).root firstIndex == (colocationSets problem).root secondIndex
      !intentionallyColocated && !haveTemporalConflict problem firstBuffer secondBuffer &&
        placementsOverlap first (allocationExtent problem firstIndex) second
          (allocationExtent problem secondIndex)
  | _, _, _, _, _, _ => false

/-- `EvaluateObjective`. -/
def evaluateObjective (problem : DsaProblem) (solution : DsaSolution) : ObjectiveValue where
  peakByPool := peakByPool problem solution
  totalPeak := (peakByPool problem solution).toList.foldl (fun total e => saturatingAdd total e.2) 0
  maxPeak := (peakByPool problem solution).toList.foldl (fun peak e => max peak e.2) 0
  reuseCost := problem.reusePenalties.foldl
    (fun cost penalty =>
      if penaltyPaid problem solution penalty then saturatingAdd cost penalty.cost else cost) 0

/-- The sum of the excess of each pool over its capacity. -/
def capacityOverflow (problem : DsaProblem) (objective : ObjectiveValue) : UInt64 :=
  problem.pools.foldl
    (fun overflow pool =>
      match pool.capacity with
      | none => overflow
      | some capacity =>
          let peak := objective.peakByPool.getD pool.id 0
          if peak ≤ capacity then overflow else saturatingAdd overflow (peak - capacity))
    0

/-- `EvaluateObjectiveMetric`. -/
def evaluateObjectiveMetric (problem : DsaProblem) (objective : ObjectiveValue) :
    ObjectiveMetric → UInt64
  | .capacityOverflow => capacityOverflow problem objective
  | .totalPeak => objective.totalPeak
  | .maxPeak => objective.maxPeak
  | .reuseCost => objective.reuseCost
  | .bankCost => objective.bankCost

end Dsa
