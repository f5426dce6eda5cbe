import DsaSolver.CanonicalGreedy

/-! # The promote-and-repair solver

`PromoteRepairSolver` of `reuse_penalty_baseline_solvers.cpp`: pack with every soft edge promoted
to a separation, and demote the cheapest soft edge on a chain of supports that ends over the
capacity until the placement fits. -/

namespace Dsa

abbrev ActiveEdges := Std.TreeMap (ℕ × ℕ) UInt64 pairCompare

/-- The set of the keys, in their order. -/
def activePairs (active : ActiveEdges) : List (ℕ × ℕ) := active.toList.map Prod.fst

/-! ### `CheapestSoftEdgeOnOverflowChain` -/

section chain

variable (promoted : DsaProblem) (nodes : List PlacementSearchNode) (solution : DsaSolution)

/-- A node above the capacity of its pool. -/
structure OverflowNode where
  index : ℕ
  overflow : UInt64
  top : UInt64

/-- The overflow of a node, if its top exceeds the capacity. -/
def overflowAt (index : ℕ) : Option OverflowNode :=
  let node := nodes.getD index {}
  match solution.find node.representative, promoted.findPool node.pool with
  | some placement, some pool =>
      match pool.capacity with
      | none => none
      | some capacity =>
          if addOverflows placement.offset node.size then none
          else
            let top := placement.offset + node.size
            if top ≤ capacity then none else some ⟨index, top - capacity, top⟩
  | _, _ => none

/-- One iteration of the loop that selects `current`. -/
def selectOverflow (current : Option OverflowNode) (index : ℕ) : Option OverflowNode :=
  match overflowAt promoted nodes solution index with
  | none => current
  | some candidate =>
      match current with
      | none => some candidate
      | some largest =>
          if decide (candidate.overflow > largest.overflow) ||
              (candidate.overflow == largest.overflow && decide (candidate.top > largest.top)) ||
              (candidate.overflow == largest.overflow && candidate.top == largest.top &&
                decide ((nodes.getD index {}).representative <
                  (nodes.getD largest.index {}).representative)) then
            some candidate
          else current

def largestOverflow : Option OverflowNode :=
  (List.range nodes.length).foldl (selectOverflow promoted nodes solution) none

/-- One iteration of the loop over the conflicts of the current node. -/
def selectSupport (node : PlacementSearchNode) (placement : Placement)
    (support : Option (ℕ × UInt64)) (neighborId : BufferId) : Option (ℕ × UInt64) :=
  match nodeByRepresentative nodes neighborId with
  | none => support
  | some neighbor =>
      let neighborNode := nodes.getD neighbor {}
      match solution.find neighborNode.representative with
      | none => support
      | some neighborPlacement =>
          if neighborPlacement.pool != placement.pool ||
              addOverflows neighborPlacement.offset neighborNode.size then support
          else
            let neighborTop := neighborPlacement.offset + neighborNode.size
            if alignUp neighborTop node.alignment != some placement.offset then support
            else
              match support with
              | none => some (neighbor, neighborTop)
              | some best =>
                  if decide (neighborTop > best.2) || (neighborTop == best.2 &&
                      decide (neighborNode.representative <
                        (nodes.getD best.1 {}).representative)) then some (neighbor, neighborTop)
                  else support

/-- The node that supports the current one, if any. -/
def supportOf (current : ℕ) : Option ℕ :=
  let node := nodes.getD current {}
  match solution.find node.representative with
  | none => none
  | some placement =>
      if placement.offset == 0 then none
      else (node.conflicts.foldl (selectSupport nodes solution node placement) none).map Prod.fst

/-- The walk along the supports: the active edges on it.  Every node is visited once. -/
def softOnChain (search : ReusePenaltySearchSpace) (active : ActiveEdges) :
    ℕ → List ℕ → ℕ → List (ℕ × ℕ)
  | 0, _, _ => []
  | fuel + 1, visited, current =>
      if visited.contains current then []
      else
        match supportOf nodes solution current with
        | none => []
        | some support =>
            match search.nodeByBuffer (nodes.getD current {}).representative,
                search.nodeByBuffer (nodes.getD support {}).representative with
            | some first, some second =>
                let pair := canonicalNodePair first second
                let rest := softOnChain search active fuel (current :: visited) support
                if active.contains pair then pair :: rest else rest
            | _, _ => []

/-- `std::tie(active.at(first), first) < std::tie(active.at(second), second)`. -/
def cheaperEdge (active : ActiveEdges) (first second : ℕ × ℕ) : Bool :=
  decide (active.getD first 0 < active.getD second 0) ||
    (active.getD first 0 == active.getD second 0 && pairCompare first second == .lt)

/-- `std::min_element`. -/
def cheapestEdge (active : ActiveEdges) : List (ℕ × ℕ) → Option (ℕ × ℕ)
  | [] => none
  | edge :: rest =>
      some (rest.foldl
        (fun best other => if cheaperEdge active other best then other else best) edge)

end chain

def cheapestSoftEdgeOnOverflowChain (promoted : DsaProblem) (search : ReusePenaltySearchSpace)
    (solution : DsaSolution) (active : ActiveEdges) : Option (ℕ × ℕ) :=
  let promotedSearch := buildPlacementSearchSpace promoted
  if promotedSearch.errors ≠ [] ∨ promotedSearch.nodes.length ≠ search.count then none
  else
    match largestOverflow promoted promotedSearch.nodes solution with
    | none => none
    | some current =>
        cheapestEdge active (softOnChain promotedSearch.nodes solution search active
          (promotedSearch.nodes.length + 1) [] current.index)

namespace PromoteRepairSolver

/-! ### The repair loop -/

structure State where
  active : ActiveEdges
  orderIndex : ℕ := 0
  attempts : UInt64 := 0
  demotions : UInt64 := 0
  last : DsaResult := {}

/-- How an iteration of the loop ends. -/
inductive Step where
  | repaired (state : State)
  | failed (state : State)
  | next (state : State)

/-- `last` when the packing fits. -/
def repairedResult (problem : DsaProblem) (search : ReusePenaltySearchSpace) (state : State)
    (solution : DsaSolution) : DsaResult :=
  { state.last with
    objective := evaluateObjective problem solution
    solverMetrics := Std.TreeMap.ofList
      [("initial_soft_edges", UInt64.ofNat search.softWeights.size),
        ("active_soft_edges", UInt64.ofNat state.active.size), ("demoted_edges", state.demotions),
        ("packing_attempts", state.attempts),
        ("decode_orders_tried", UInt64.ofNat (state.orderIndex + 1))]
    diagnostics := state.last.diagnostics ++
      ["promote_repair decoded all active soft edges as separations and repaired " ++
        "over-capacity support chains"] }

/-- The packing of one iteration. -/
def pack (problem : DsaProblem) (search : ReusePenaltySearchSpace) (orders : List (List ℕ))
    (state : State) : DsaResult :=
  placeWithOrder (withPromotedReuseEdges problem search (activePairs state.active))
    ((orders.getD state.orderIndex []).map fun node => (search.nodeAt node).representative)
    .firstFit

/-- The iteration once the packing did not fit. -/
def repair (problem : DsaProblem) (search : ReusePenaltySearchSpace) (orders : List (List ℕ))
    (state : State) : Step :=
  match state.last.solution with
  | none => .failed state
  | some solution =>
      if state.active.isEmpty then .failed state
      else
        match cheapestSoftEdgeOnOverflowChain
            (withPromotedReuseEdges problem search (activePairs state.active)) search solution
            state.active with
        | some demote =>
            .next { state with
              active := state.active.erase demote
              demotions := state.demotions + 1 }
        | none =>
            let next := { state with orderIndex := state.orderIndex + 1 }
            if next.orderIndex < orders.length then .next next else .failed next

/-- One iteration of the loop. -/
def step (problem : DsaProblem) (search : ReusePenaltySearchSpace) (orders : List (List ℕ))
    (state : State) : Step :=
  let packed :=
    { state with last := pack problem search orders state, attempts := state.attempts + 1 }
  match packed.last.solution with
  | some solution =>
      if packed.last.status == .feasible then
        .repaired { packed with last := repairedResult problem search packed solution }
      else repair problem search orders packed
  | none => repair problem search orders packed

/-- At most `packings` iterations; `none` when they do not end the loop, else whether the loop
returned and the state it ended in. -/
def loop (problem : DsaProblem) (search : ReusePenaltySearchSpace) (orders : List (List ℕ)) :
    ℕ → State → Option (Bool × State)
  | 0, _ => none
  | packings + 1, state =>
      match step problem search orders state with
      | .repaired last => some (true, last)
      | .failed last => some (false, last)
      | .next next => loop problem search orders packings next

/-- `node_orders`. -/
def nodeOrders (random : Shuffler) (problem : DsaProblem) (search : ReusePenaltySearchSpace) :
    List (List ℕ) := canonicalGreedyOrders random problem search ⟨0, 0⟩

/-- The loop of the solver; enough packings are allowed for it to end. -/
def run (random : Shuffler) (problem : DsaProblem) (search : ReusePenaltySearchSpace) :
    Option (Bool × State) :=
  loop problem search (nodeOrders random problem search)
    (search.softWeights.size + (nodeOrders random problem search).length)
    { active := search.softWeights }

/-- The metrics after a failed repair. -/
def failedMetrics (search : ReusePenaltySearchSpace) (orders : List (List ℕ)) (state : State) :
    List (String × UInt64) :=
  [("initial_soft_edges", UInt64.ofNat search.softWeights.size),
    ("demoted_edges", state.demotions), ("packing_attempts", state.attempts),
    ("decode_orders_tried", UInt64.ofNat (min (state.orderIndex + 1) orders.length)),
    ("fallback_to_canonical_greedy", 1)]

/-- The result after a failed repair. -/
def fallBack (random : Shuffler) (problem : DsaProblem) (search : ReusePenaltySearchSpace)
    (state : State) : DsaResult :=
  let metrics := failedMetrics search (nodeOrders random problem search) state
  let fallback := CanonicalGreedySolver.solve random {} problem
  if fallback.status == .feasible then
    { fallback with
      solverMetrics := metrics.foldl (fun map entry => map.insert entry.1 entry.2)
        fallback.solverMetrics
      diagnostics := fallback.diagnostics ++
        ["promote_repair encountered a hard-only support chain and fell back to " ++
          "canonical_greedy"] }
  else
    { state.last with
      solverMetrics := Std.TreeMap.ofList
        (("active_soft_edges", UInt64.ofNat state.active.size) :: metrics)
      diagnostics := state.last.diagnostics ++
        ["promote_repair could not repair the decoded placement within capacity"] }

/-- `PromoteRepairSolver::Solve`. -/
def solve (random : Shuffler) (problem : DsaProblem) : DsaResult :=
  if !(checkSolverCompatibility problem baselineCapabilities).compatible then
    rejectUnsupported problem "promote_repair" baselineCapabilities
  else if problem.pools.any fun pool => pool.capacity.isNone then
    { status := .unsupported
      diagnostics := ["promote_repair requires fixed pool capacities"] }
  else
    let search := buildReusePenaltySearchSpace problem
    if search.placement.errors ≠ [] then
      { status := .invalidProblem, diagnostics := search.placement.errors }
    else if search.placement.flexiblePools then
      { status := .unsupported
        diagnostics := ["DSA-RP baselines do not support flexible pool assignment"] }
    else
      match run random problem search with
      | none => {}
      | some (true, state) => state.last
      | some (false, state) => fallBack random problem search state

end PromoteRepairSolver

end Dsa
