import DsaSolver.NodeSteps
import DsaSolver.Theory.BranchAndBound

/-! # The canonical exact search

`canonical_exact_search.cpp`: within a pool the nodes are placed in the order of their offsets
and identifiers, each at zero, the end of a reserved range or the aligned top of a placed
neighbour, below the score of the best placement found. -/

namespace Dsa

structure CanonicalExactSearchOptions where
  nodeLimit : UInt64 := 2000000
  stopAfterFirst : Bool := false
  incumbentOffsets : Option (List UInt64) := none

structure CanonicalExactSearchResult where
  status : SolveStatus := .unsupported
  offsets : Option (List UInt64) := none
  searchNodes : UInt64 := 0
  candidateBranches : UInt64 := 0
  boundPrunes : UInt64 := 0

structure PoolSearchResult where
  status : SolveStatus := .unsupported
  offsets : List UInt64 := []
  searchNodes : UInt64 := 0
  candidateBranches : UInt64 := 0
  boundPrunes : UInt64 := 0

abbrev Score := List UInt64

/-- The `switch` over the metrics. -/
def poolScoreTerm (reuseCost peak : UInt64) : ObjectiveMetric → UInt64
  | .capacityOverflow | .bankCost => 0
  | .reuseCost => reuseCost
  | .totalPeak | .maxPeak => peak

def poolScore (problem : DsaProblem) (reuseCost peak : UInt64) : Score :=
  problem.objective.terms.map (poolScoreTerm reuseCost peak)

def reservedPeak (problem : DsaProblem) (poolId : PoolId) : UInt64 :=
  match problem.findPool poolId with
  | none => 0
  | some pool => pool.reservedRanges.foldl (fun peak range => max peak range.last) 0

def poolReuseCost (search : ReusePenaltySearchSpace) (pool : PoolId) (offsets : List UInt64) :
    UInt64 :=
  search.softWeights.toList.foldl
    (fun cost entry =>
      if (search.nodeAt entry.1.1).pool == pool && addressRangesOverlap
          (offsets.getD entry.1.1 0) (search.nodeAt entry.1.1).size
          (offsets.getD entry.1.2 0) (search.nodeAt entry.1.2).size then
        saturatingAdd cost entry.2
      else cost)
    0

namespace PoolCanonicalSearch

structure Branch where
  incrementalCost : UInt64 := 0
  offset : UInt64 := 0
  representative : BufferId := 0
  node : ℕ := 0
deriving DecidableEq, Repr

/-- The comparator of the branches. -/
def branchBefore (first second : Branch) : Bool :=
  decide (first.incrementalCost < second.incrementalCost) ||
    (first.incrementalCost == second.incrementalCost &&
      (decide (first.offset < second.offset) ||
        (first.offset == second.offset && decide (first.representative < second.representative))))

/-- The members of the class that a run changes. -/
structure State where
  bestOffsets : List UInt64
  bestScore : Score
  found : Bool := false
  limitHit : Bool := false
  searchNodes : UInt64 := 0
  candidateBranches : UInt64 := 0
  boundPrunes : UInt64 := 0

variable (problem : DsaProblem) (search : ReusePenaltySearchSpace) (pool : PoolId)
  (options : CanonicalExactSearchOptions)

/-- `nodes_`: the nodes of the pool by their representatives. -/
def poolNodes : List ℕ :=
  ((List.range search.count).filter fun node => (search.nodeAt node).pool == pool).insertionSort
    fun first second => (search.nodeAt first).representative ≤ (search.nodeAt second).representative

/-- The peak of the nodes of the pool at their offsets. -/
def peakOf (offsets : List UInt64) : UInt64 :=
  (poolNodes search pool).foldl
    (fun peak node => max peak (offsets.getD node 0 + (search.nodeAt node).size))
    (reservedPeak problem pool)

/-- The constructor; a fitting incumbent is the first best placement. -/
def initialState : State :=
  let empty : State :=
    { bestOffsets := List.replicate search.count 0
      bestScore := List.replicate problem.objective.terms.length maxU64 }
  match options.incumbentOffsets with
  | none => empty
  | some incumbent =>
      if !options.stopAfterFirst && incumbent.length == search.count &&
          fitsInOrder problem search incumbent (List.replicate search.count false)
            (poolNodes search pool) then
        { empty with
          found := true
          bestOffsets := incumbent
          bestScore := poolScore problem (poolReuseCost search pool incumbent)
            (peakOf problem search pool incumbent) }
      else empty

/-- `limit_hit_ || (options_.stop_after_first && found_)`. -/
def State.done (state : State) : Bool := state.limitHit || (options.stopAfterFirst && state.found)

/-- The branch is not after the last placement. -/
def notAfter (last : Option (UInt64 × BufferId)) (offset : UInt64) (representative : BufferId) :
    Bool :=
  match last with
  | none => false
  | some last =>
      decide (offset < last.1) || (offset == last.1 && decide (representative ≤ last.2))

/-- The branches of one unplaced node. -/
def branchesOf (placed : List Bool) (offsets : List UInt64) (last : Option (UInt64 × BufferId))
    (current : ℕ) : List Branch :=
  let node := search.nodeAt current
  (canonicalOffsetsForNode problem search placed offsets current true).toList.filterMap fun offset =>
    if notAfter last offset node.representative then none
    else if !fitsReuseNodeAt problem search placed offsets current offset then none
    else some ⟨incrementalReuseCost search placed offsets current offset, offset,
      node.representative, current⟩

/-- The sorted branches. -/
def branches (placed : List Bool) (offsets : List UInt64) (last : Option (UInt64 × BufferId)) :
    List Branch :=
  (((poolNodes search pool).filter fun current => !placed.getD current false).flatMap
    (branchesOf problem search placed offsets last)).insertionSort fun first second =>
      !branchBefore second first

/-- The head of `Search`: its early exits, then `body` with the node counted. -/
def enter (cost peak : UInt64) (body : State → State) (state : State) : State :=
  if state.done options then state
  else if options.nodeLimit != 0 && decide (options.nodeLimit ≤ state.searchNodes) then
    { state with limitHit := true }
  else
    let state := { state with searchNodes := state.searchNodes + 1 }
    if state.found && !decide (poolScore problem cost peak < state.bestScore) then
      { state with boundPrunes := state.boundPrunes + 1 }
    else body state

/-- `Search` with `nodes_.size() - depth` nodes to place.  `placed_` and `offsets_` are passed by
value, which undoes a placement; the offset of a node that is not placed is never read. -/
def searchFrom : ℕ → List Bool → List UInt64 → UInt64 → UInt64 → Option (UInt64 × BufferId) →
    State → State
  | 0, _, offsets, cost, peak, _ =>
      enter problem options cost peak fun state =>
        { state with
          found := true
          bestScore := poolScore problem cost peak
          bestOffsets := offsets }
  | remaining + 1, placed, offsets, cost, peak, last =>
      enter problem options cost peak fun state =>
        (branches problem search pool placed offsets last).foldl
          (fun state branch =>
            if state.done options then state
            else
              searchFrom remaining (placed.set branch.node true)
                (offsets.set branch.node branch.offset)
                (saturatingAdd cost branch.incrementalCost)
                (max peak (branch.offset + (search.nodeAt branch.node).size))
                (some (branch.offset, branch.representative))
                { state with candidateBranches := state.candidateBranches + 1 })
          state

/-- The state after `Search(0, 0, ReservedPeak(problem_, pool_), std::nullopt)`. -/
def finalState : State :=
  searchFrom problem search pool options (poolNodes search pool).length
    (List.replicate search.count false) (List.replicate search.count 0) 0
    (reservedPeak problem pool) none (initialState problem search pool options)

def run : PoolSearchResult :=
  let state := finalState problem search pool options
  { status :=
      if state.limitHit then .timeout
      else if !state.found then .infeasibleProven
      else .feasible
    offsets := if state.found then state.bestOffsets else []
    searchNodes := state.searchNodes
    candidateBranches := state.candidateBranches
    boundPrunes := state.boundPrunes }

end PoolCanonicalSearch

/-! ### `RunCanonicalExactSearch` -/

/-- What the loop over the pools has gathered. -/
structure PoolsState where
  offsets : List UInt64
  anyTimeout : Bool := false
  result : CanonicalExactSearchResult := {}

/-- The offsets of the nodes of a pool. -/
def mergePoolOffsets (search : ReusePenaltySearchSpace) (pool : PoolId)
    (offsets own : List UInt64) : List UInt64 :=
  (List.range search.count).map fun index =>
    if (search.nodeAt index).pool == pool then own.getD index 0 else offsets.getD index 0

/-- One iteration of the loop over the pools; a pool without a placement ends it. -/
def searchPool (problem : DsaProblem) (search : ReusePenaltySearchSpace)
    (options : CanonicalExactSearchOptions) (state : PoolsState) (pool : Pool) :
    Except CanonicalExactSearchResult PoolsState :=
  if !(search.placement.nodes.any fun node => node.pool == pool.id) then .ok state
  else
    let poolResult := PoolCanonicalSearch.run problem search pool.id options
    let result :=
      { state.result with
        searchNodes := saturatingAdd state.result.searchNodes poolResult.searchNodes
        candidateBranches :=
          saturatingAdd state.result.candidateBranches poolResult.candidateBranches
        boundPrunes := saturatingAdd state.result.boundPrunes poolResult.boundPrunes }
    let timeout := poolResult.status == .timeout && !poolResult.offsets.isEmpty
    if !timeout && poolResult.status != .feasible then
      .error { result with status := poolResult.status }
    else
      .ok
        { offsets := mergePoolOffsets search pool.id state.offsets poolResult.offsets
          anyTimeout := state.anyTimeout || timeout
          result := result }

def runCanonicalExactSearch (problem : DsaProblem) (search : ReusePenaltySearchSpace)
    (options : CanonicalExactSearchOptions) : CanonicalExactSearchResult :=
  if search.placement.errors ≠ [] then { status := .invalidProblem }
  else if search.placement.flexiblePools then { status := .unsupported }
  else
    match problem.pools.foldlM (searchPool problem search options)
        { offsets := List.replicate search.count 0 } with
    | .error result => result
    | .ok state =>
        { state.result with
          status := if state.anyTimeout then .timeout else .feasible
          offsets := some state.offsets }

end Dsa
