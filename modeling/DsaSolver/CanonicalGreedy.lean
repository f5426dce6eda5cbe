import DsaSolver.FirstFitSolver
import DsaSolver.Theory.BranchAndBound

/-! # The canonical greedy solver

`CanonicalGreedySolver` of `reuse_penalty_baseline_solvers.cpp`: greedy placements in several
orders, the best of them kept next to a feasible result of first fit. -/

namespace Dsa

def baselineCapabilities : SolverCapabilities where
  multiInterval := true
  reuseCost := true
  colocations := true
  separations := true
  temporalExclusions := true
  reservedRanges := true
  multiPool := true
  lexicographicObjective := true
  capacityObjective := true
  peakObjective := false

def rejectUnsupported (problem : DsaProblem) (solverName : String)
    (capabilities : SolverCapabilities) : DsaResult :=
  if validateProblem problem ≠ [] then
    { status := .invalidProblem, diagnostics := validateProblem problem }
  else
    let compatibility := checkSolverCompatibility problem capabilities
    { status := .unsupported
      diagnostics :=
        (compatibility.unsupportedFeatures.map fun feature =>
          solverName ++ " does not support feature '" ++ feature ++ "'") ++
        compatibility.unsupportedObjectives.map fun objective =>
          solverName ++ " does not support objective '" ++ objective ++ "'" }

def objectiveScore (problem : DsaProblem) (objective : ObjectiveValue) : List UInt64 :=
  problem.objective.terms.map (evaluateObjectiveMetric problem objective)

structure CanonicalGreedyOptions where
  seed : UInt64 := 0
  randomRestarts : UInt64 := 4

/-- `std::mt19937_64` and `std::shuffle`: which permutation a shuffle draws is up to the
implementation of the standard library. -/
structure Shuffler where
  Engine : Type
  seeded : UInt64 → Engine
  shuffle : List ℕ → Engine → List ℕ × Engine

/-- The loop of the random restarts; each shuffles the order of the last. -/
def restartOrders (random : Shuffler) : ℕ → List ℕ → random.Engine → List (List ℕ)
  | 0, _, _ => []
  | restarts + 1, nodes, engine =>
      let shuffled := random.shuffle nodes engine
      shuffled.1 :: restartOrders random restarts shuffled.1 shuffled.2

def canonicalGreedyOrders (random : Shuffler) (problem : DsaProblem)
    (search : ReusePenaltySearchSpace) (options : CanonicalGreedyOptions) : List (List ℕ) :=
  keepFirst
    ([defaultReuseNodeOrder problem search, birthOrder problem search,
        softWeightOrder problem search] ++
      restartOrders random options.randomRestarts.toNat (softWeightOrder problem search)
        (random.seeded options.seed))

namespace CanonicalGreedySolver

/-! ### One order -/

/-- `best` after a candidate that fits. -/
def improveBest (best : Option (UInt64 × UInt64)) (cost offset : UInt64) :
    Option (UInt64 × UInt64) :=
  match best with
  | none => some (cost, offset)
  | some score =>
      if cost < score.1 || (cost == score.1 && decide (offset < score.2)) then some (cost, offset)
      else best

/-- `placed`, `offsets` and what the loop over one order counts. -/
structure OrderState where
  placed : List Bool
  offsets : List UInt64
  evaluated : UInt64 := 0
  complete : Bool := true

/-- The loop over the candidates: incremental cost and offset of the best one. -/
def bestCandidate (problem : DsaProblem) (search : ReusePenaltySearchSpace) (state : OrderState)
    (current : ℕ) (candidates : List UInt64) : Option (UInt64 × UInt64) :=
  candidates.foldl
    (fun best offset =>
      if !fitsReuseNodeAt problem search state.placed state.offsets current offset then best
      else improveBest best
        (incrementalReuseCost search state.placed state.offsets current offset) offset)
    none

/-- The loop over the nodes of an order. -/
def placeNodes (problem : DsaProblem) (search : ReusePenaltySearchSpace) :
    List ℕ → OrderState → OrderState
  | [], state => state
  | current :: rest, state =>
      let candidates :=
        (canonicalOffsetsForNode problem search state.placed state.offsets current true).toList
      let evaluated := state.evaluated + UInt64.ofNat candidates.length
      match bestCandidate problem search state current candidates with
      | none => { state with evaluated := evaluated, complete := false }
      | some best =>
          placeNodes problem search rest
            { state with
              placed := state.placed.set current true
              offsets := state.offsets.set current best.2
              evaluated := evaluated }

def placeOrder (problem : DsaProblem) (search : ReusePenaltySearchSpace) (order : List ℕ) :
    OrderState :=
  placeNodes problem search order
    { placed := List.replicate search.count false, offsets := List.replicate search.count 0 }

/-! ### All orders -/

structure State where
  result : DsaResult := {}
  bestScore : List UInt64 := []
  totalEvaluated : UInt64 := 0
  selectedOrder : ℕ := 0
  selectedFirstFitSeed : Bool := false
  evaluatedOrders : UInt64 := 0
  /-- The loop was left at a reuse cost of zero. -/
  done : Bool := false

/-- A feasible candidate against the incumbent. -/
def State.consider (problem : DsaProblem) (state : State) (candidate : DsaResult) (index : ℕ) :
    State :=
  let score := objectiveScore problem candidate.objective
  if state.result.solution.isNone || decide (score < state.bestScore) ||
      (state.selectedFirstFitSeed && score == state.bestScore) then
    { state with
      result := candidate
      bestScore := score
      selectedOrder := index
      selectedFirstFitSeed := false
      done := candidate.objective.reuseCost == 0 }
  else { state with done := state.result.objective.reuseCost == 0 }

/-- One iteration of the loop over the orders. -/
def tryOrder (problem : DsaProblem) (search : ReusePenaltySearchSpace) (state : State)
    (entry : List ℕ × ℕ) : State :=
  if state.done then state
  else if entry.1.length != search.count then state
  else
    let placement := placeOrder problem search entry.1
    let state := { state with
      evaluatedOrders := state.evaluatedOrders + 1
      totalEvaluated := state.totalEvaluated + placement.evaluated }
    if !placement.complete then state
    else
      let candidate := buildValidatedReuseResult problem search placement.offsets .feasible
      if candidate.status != .feasible then state else state.consider problem candidate entry.2

/-- `first_fit_seed_feasible`. -/
def firstFitSeedFeasible (problem : DsaProblem) : Bool :=
  (FirstFitSolver.solve problem).status == .feasible &&
    (FirstFitSolver.solve problem).solution.isSome

/-- The incumbent before the loop. -/
def initialState (problem : DsaProblem) : State :=
  if firstFitSeedFeasible problem then
    { result := { FirstFitSolver.solve problem with diagnostics := [] }
      bestScore := objectiveScore problem (FirstFitSolver.solve problem).objective
      selectedFirstFitSeed := true }
  else {}

def metricsOf (problem : DsaProblem) (search : ReusePenaltySearchSpace)
    (options : CanonicalGreedyOptions) (state : State) : Std.TreeMap String UInt64 :=
  Std.TreeMap.ofList
    [("candidate_offsets_evaluated", state.totalEvaluated),
      ("orders_evaluated", state.evaluatedOrders),
      ("selected_order", UInt64.ofNat state.selectedOrder),
      ("first_fit_seed_feasible", if firstFitSeedFeasible problem then 1 else 0),
      ("selected_first_fit_seed", if state.selectedFirstFitSeed then 1 else 0),
      ("random_restarts_requested", options.randomRestarts), ("seed", options.seed),
      ("soft_edges", UInt64.ofNat search.softWeights.size)]

/-- `Solve` after the loop. -/
def finishSolve (problem : DsaProblem) (search : ReusePenaltySearchSpace)
    (options : CanonicalGreedyOptions) (state : State) : DsaResult :=
  let result := if state.result.solution.isNone then
      { state.result with
        status := .bestEffortNoFit
        diagnostics := state.result.diagnostics ++
          ["canonical_greedy found no capacity-fitting canonical placement"] }
    else state.result
  { result with
    solverMetrics := metricsOf problem search options state
    diagnostics := result.diagnostics ++
      ["canonical_greedy retains a feasible first_fit incumbent, then uses the " ++
        "hard-or-soft support menu under size, birth, soft-weight, and seeded random orders"] }

/-- The state after the loop over the orders. -/
def run (random : Shuffler) (problem : DsaProblem) (options : CanonicalGreedyOptions) : State :=
  let search := buildReusePenaltySearchSpace problem
  (canonicalGreedyOrders random problem search options).zipIdx.foldl (tryOrder problem search)
    (initialState problem)

/-- `CanonicalGreedySolver::Solve`. -/
def solve (random : Shuffler) (options : CanonicalGreedyOptions) (problem : DsaProblem) :
    DsaResult :=
  if !(checkSolverCompatibility problem baselineCapabilities).compatible then
    rejectUnsupported problem "canonical_greedy" baselineCapabilities
  else if problem.pools.any fun pool => pool.capacity.isNone then
    { status := .unsupported
      diagnostics := ["canonical_greedy requires fixed pool capacities"] }
  else
    let search := buildReusePenaltySearchSpace problem
    if search.placement.errors ≠ [] then
      { status := .invalidProblem, diagnostics := search.placement.errors }
    else if search.placement.flexiblePools then
      { status := .unsupported
        diagnostics := ["DSA-RP baselines do not support flexible pool assignment"] }
    else finishSolve problem search options (run random problem options)

end CanonicalGreedySolver

end Dsa
