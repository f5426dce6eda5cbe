import DsaSolver.CanonicalGreedy
import DsaSolver.CanonicalSearch
import DsaSolver.ImplicitHittingSet

/-! # The capacity-two solver

`CapacityTwoExactSolver` of `reuse_penalty_portfolio_solvers.cpp`: where a pool has two unit
addresses, every hard component has two colourings, one the flip of the other, and the search
enumerates the flips with a bound. -/

namespace Dsa

def capacityTwoCapabilities : SolverCapabilities where
  multiInterval := true
  reuseCost := true
  colocations := true
  separations := true
  temporalExclusions := true
  multiPool := true
  lexicographicObjective := true
  capacityObjective := true
  peakObjective := false

namespace PoolTwoSearch

structure ComponentEdge where
  firstComponent : ℕ := 0
  secondComponent : ℕ := 0
  equalFlipsActivate : Bool := false
  weight : UInt64 := 0
deriving DecidableEq, Repr

/-- `component_`, `parity_` and `component_count_`; a node without a component holds the largest
index in the source. -/
structure Components where
  component : List (Option ℕ)
  parity : List Bool
  count : ℕ := 0

section pool

variable (search : ReusePenaltySearchSpace) (pool : PoolId)

/-- `nodes_`. -/
def nodes : List ℕ := (List.range search.count).filter fun node => (search.nodeAt node).pool == pool

/-! ### `BuildComponents` -/

def Components.componentOf (components : Components) (node : ℕ) : Option ℕ :=
  components.component.getD node none

def Components.parityOf (components : Components) (node : ℕ) : Bool :=
  components.parity.getD node false

def Components.assign (components : Components) (node component : ℕ) (parity : Bool) : Components :=
  { components with
    component := components.component.set node (some component)
    parity := components.parity.set node parity }

/-- One iteration of the loop over the hard neighbours; none where a neighbour has the parity of
the node. -/
def visitNeighbor (current node : ℕ) (state : Components × List ℕ) (neighbor : ℕ) :
    Option (Components × List ℕ) :=
  if (search.nodeAt neighbor).pool != pool then some state
  else
    match state.1.componentOf neighbor with
    | none => some (state.1.assign neighbor current !(state.1.parityOf node), state.2 ++ [neighbor])
    | some _ => if state.1.parityOf neighbor == state.1.parityOf node then none else some state

/-- The loop over the queue; every node enters it once. -/
def drain (current : ℕ) : ℕ → Components → List ℕ → Option Components
  | _, components, [] => some components
  | 0, components, _ :: _ => some components
  | fuel + 1, components, node :: queue => do
      let next ← (search.hardNeighborsOf node).foldlM (visitNeighbor search pool current node)
        (components, queue)
      drain current fuel next.1 next.2

/-- One iteration of the loop over the starts. -/
def growComponent (components : Components) (start : ℕ) : Option Components :=
  if (components.componentOf start).isSome then some components
  else
    drain search pool components.count search.count
      { components.assign start components.count false with count := components.count + 1 } [start]

def buildComponents : Option Components :=
  (nodes search pool).foldlM (growComponent search pool)
    { component := List.replicate search.count none, parity := List.replicate search.count false }

/-! ### `BuildSoftObjective` -/

structure SoftObjective where
  edges : List ComponentEdge := []
  componentDegree : List ℕ
  fixedCost : UInt64 := 0

/-- One iteration of the loop over the soft weights; the nodes of a pool have components. -/
def addSoftWeight (components : Components) (soft : SoftObjective) (entry : (ℕ × ℕ) × UInt64) :
    SoftObjective :=
  if (search.nodeAt entry.1.1).pool != pool then soft
  else
    let first := (components.componentOf entry.1.1).getD 0
    let second := (components.componentOf entry.1.2).getD 0
    let equalParity := components.parityOf entry.1.1 == components.parityOf entry.1.2
    if first == second then
      if equalParity then { soft with fixedCost := saturatingAdd soft.fixedCost entry.2 } else soft
    else
      { soft with
        edges := soft.edges ++ [⟨first, second, equalParity, entry.2⟩]
        componentDegree :=
          (soft.componentDegree.modify first (· + 1)).modify second (· + 1) }

def buildSoftObjective (components : Components) : SoftObjective :=
  search.softWeights.toList.foldl (addSoftWeight search pool components)
    { componentDegree := List.replicate components.count 0 }

/-- `component_order_`. -/
def componentOrder (soft : SoftObjective) (count : ℕ) : List ℕ :=
  (List.range count).insertionSort fun first second =>
    soft.componentDegree.getD second 0 < soft.componentDegree.getD first 0 ∨
      soft.componentDegree.getD first 0 = soft.componentDegree.getD second 0 ∧ first ≤ second

/-! ### The search -/

/-- `flips_`; a component without a flip holds a negative one in the source. -/
abbrev Flips := List (Option Bool)

def otherComponent (edge : ComponentEdge) (component : ℕ) : Option ℕ :=
  if edge.firstComponent = component then some edge.secondComponent
  else if edge.secondComponent = component then some edge.firstComponent
  else none

def incrementalCost (edges : List ComponentEdge) (flips : Flips) (component : ℕ) (flip : Bool) :
    UInt64 :=
  edges.foldl
    (fun cost edge =>
      match (otherComponent edge component).bind fun other => flips.getD other none with
      | none => cost
      | some otherFlip =>
          if (flip == otherFlip) == edge.equalFlipsActivate then saturatingAdd cost edge.weight
          else cost)
    0

/-- The colours of a complete assignment of flips. -/
def colorsOf (components : Components) (flips : Flips) : List Bool :=
  (nodes search pool).foldl
    (fun colors node => colors.set node (components.parityOf node ^^
      (flips.getD ((components.componentOf node).getD 0) none).getD false))
    (List.replicate search.count false)

def peakOfColors (unit : UInt64) (colors : List Bool) : UInt64 :=
  (nodes search pool).foldl
    (fun peak node => max peak (((colors.getD node false).toUInt64 + 1) * unit)) 0

/-- The members of the class that a run changes. -/
structure State where
  bestColors : List Bool
  bestScore : Score
  found : Bool := false
  limitHit : Bool := false
  searchNodes : UInt64 := 0
  boundPrunes : UInt64 := 0

variable (problem : DsaProblem) (unit nodeLimit : UInt64)

/-- The head of `Search`: its early exits, then `body` with the node counted. -/
def enter (cost : UInt64) (body : State → State) (state : State) : State :=
  if state.limitHit then state
  else if nodeLimit != 0 && decide (nodeLimit ≤ state.searchNodes) then
    { state with limitHit := true }
  else
    let state := { state with searchNodes := state.searchNodes + 1 }
    if state.found && decide (state.bestScore ≤ poolScore problem cost 0) then
      { state with boundPrunes := state.boundPrunes + 1 }
    else body state

/-- `Search` at the end of the order. -/
def noteColors (colors : List Bool) (cost : UInt64) (state : State) : State :=
  let score := poolScore problem cost (peakOfColors search pool unit colors)
  if !state.found || decide (score < state.bestScore) then
    { state with found := true, bestScore := score, bestColors := colors }
  else state

/-- `Search` with the components that have no flip yet.  `flips_` is passed by value, which undoes
a flip; the first component keeps its parity. -/
def searchFrom (components : Components) (edges : List ComponentEdge) :
    List ℕ → ℕ → Flips → UInt64 → State → State
  | [], _, flips, cost =>
      enter problem nodeLimit cost
        (noteColors search pool problem unit (colorsOf search pool components flips) cost)
  | component :: rest, depth, flips, cost =>
      enter problem nodeLimit cost fun state =>
        (if depth = 0 then [false] else [false, true]).foldl
          (fun state flip =>
            if state.limitHit then state
            else
              searchFrom components edges rest (depth + 1) (flips.set component (some flip))
                (saturatingAdd cost (incrementalCost edges flips component flip)) state)
          state

structure PoolTwoResult where
  status : SolveStatus := .unsupported
  colors : List Bool := []
  searchNodes : UInt64 := 0
  boundPrunes : UInt64 := 0

/-- The state after `Search(0, fixed_cost_)`. -/
def finalState (components : Components) : State :=
  let soft := buildSoftObjective search pool components
  searchFrom search pool problem unit nodeLimit components soft.edges
    (componentOrder soft components.count) 0 (List.replicate components.count none) soft.fixedCost
    { bestColors := List.replicate search.count false
      bestScore := List.replicate problem.objective.terms.length maxU64 }

def run : PoolTwoResult :=
  match buildComponents search pool with
  | none => { status := .infeasibleProven }
  | some components =>
      let state := finalState search pool problem unit nodeLimit components
      { status :=
          if state.limitHit then .timeout
          else if !state.found then .infeasibleProven
          else .feasible
        colors := if state.found then state.bestColors else []
        searchNodes := state.searchNodes
        boundPrunes := state.boundPrunes }

end pool

end PoolTwoSearch

namespace CapacityTwoExactSolver

open PoolTwoSearch (nodes)

structure Options where
  maxSearchNodes : UInt64 := 2000000

/-! ### `ValidateCapacityTwoShape` -/

/-- The size of the first node of the pool. -/
def unitOf (search : ReusePenaltySearchSpace) (pool : PoolId) : Option UInt64 :=
  (nodes search pool).head?.map fun node => (search.nodeAt node).size

/-- The checks of one pool. -/
def poolShapeLimitation (search : ReusePenaltySearchSpace) (pool : Pool) : Option String :=
  match pool.capacity with
  | none => some "capacity_two_exact requires fixed capacities"
  | some capacity =>
      if pool.reservedRanges ≠ [] then
        some "capacity_two_exact does not support reserved ranges"
      else
        match unitOf search pool.id with
        | none => none
        | some unit =>
            if (nodes search pool.id).any fun node => (search.nodeAt node).size != unit ||
                unit % (search.nodeAt node).alignment != 0 then
              some ("capacity_two_exact requires uniform unit sizes and compatible " ++
                "alignment")
            else if unit == 0 || capacity / unit != 2 then
              some "capacity_two_exact requires exactly two usable unit addresses"
            else none

def shapeLimitation (problem : DsaProblem) (search : ReusePenaltySearchSpace) : Option String :=
  match problem.pools.findSome? (poolShapeLimitation search) with
  | some limitation => some limitation
  | none =>
      match (objectiveIndices problem).reuse, (objectiveIndices problem).firstPeak with
      | some reuse, some peak =>
          if peak < reuse then some "capacity_two_exact requires reuse_cost before peak metrics"
          else none
      | _, _ => none

/-! ### `Solve` -/

/-- What the loop over the pools has gathered. -/
structure SolveState where
  offsets : List UInt64
  searchNodes : UInt64 := 0
  boundPrunes : UInt64 := 0
  anyTimeout : Bool := false

/-- One iteration of the loop over the pools; a pool without colours ends it. -/
def joinPool (problem : DsaProblem) (search : ReusePenaltySearchSpace) (options : Options)
    (state : SolveState) (pool : Pool) : Except DsaResult SolveState :=
  match unitOf search pool.id with
  | none => .ok state
  | some unit =>
      let poolResult := PoolTwoSearch.run search pool.id problem unit options.maxSearchNodes
      let searchNodes := saturatingAdd state.searchNodes poolResult.searchNodes
      let boundPrunes := saturatingAdd state.boundPrunes poolResult.boundPrunes
      let timeout := poolResult.status == .timeout && !poolResult.colors.isEmpty
      if !timeout && poolResult.status != .feasible then
        .error
          { status := poolResult.status
            solverMetrics := Std.TreeMap.ofList
              [("search_nodes", searchNodes), ("bound_prunes", boundPrunes),
                ("optimality_proven", if poolResult.status == .infeasibleProven then 1 else 0)] }
      else
        .ok
          { offsets := mergePoolOffsets search pool.id state.offsets
              (poolResult.colors.map fun color => color.toUInt64 * unit)
            searchNodes := searchNodes
            boundPrunes := boundPrunes
            anyTimeout := state.anyTimeout || timeout }

/-- The solver after its loop over the pools. -/
def finishSolve (problem : DsaProblem) (search : ReusePenaltySearchSpace) (state : SolveState) :
    DsaResult :=
  let result := buildValidatedReuseResult problem search state.offsets
    (if state.anyTimeout then .timeout else .feasible)
  { result with
    solverMetrics := Std.TreeMap.ofList
      [("search_nodes", state.searchNodes), ("bound_prunes", state.boundPrunes),
        ("optimality_proven", if state.anyTimeout then 0 else 1)]
    diagnostics := result.diagnostics ++
      [if state.anyTimeout then
        "capacity_two_exact reached its per-pool node limit and retained " ++
          "the best complete incumbent"
      else
        "capacity_two_exact proved the optimum by hard-component " ++
          "bipartition and weighted flip enumeration"] }

/-- The solver after its checks. -/
def solvePrepared (options : Options) (problem : DsaProblem) (search : ReusePenaltySearchSpace) :
    DsaResult :=
  match problem.pools.foldlM (joinPool problem search options)
      { offsets := List.replicate search.count 0 } with
  | .error result => result
  | .ok state => finishSolve problem search state

/-- `CapacityTwoExactSolver::Solve`. -/
def solve (options : Options) (problem : DsaProblem) : DsaResult :=
  if !(checkSolverCompatibility problem capacityTwoCapabilities).compatible then
    rejectUnsupported problem "capacity_two_exact" capacityTwoCapabilities
  else
    let search := buildReusePenaltySearchSpace problem
    if search.placement.errors ≠ [] then
      { status := .invalidProblem, diagnostics := search.placement.errors }
    else
      match shapeLimitation problem search with
      | some limitation => { status := .unsupported, diagnostics := [limitation] }
      | none => solvePrepared options problem search

end CapacityTwoExactSolver

end Dsa
