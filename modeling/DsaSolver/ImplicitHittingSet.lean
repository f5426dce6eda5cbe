import DsaSolver.PromotedOracle
import DsaSolver.PromoteRepair

/-! # The implicit hitting set solver

`ImplicitHittingSetSolver` of `reuse_penalty_exact_solvers.cpp`: a cheapest set of soft edges that
meets every core is allowed to overlap, and the oracle either places the problem with all other
edges promoted or yields another core. -/

namespace Dsa

def exactCapabilities : SolverCapabilities where
  multiInterval := true
  reuseCost := true
  colocations := true
  separations := true
  temporalExclusions := true
  reservedRanges := true
  multiPool := true
  lexicographicObjective := true
  capacityObjective := true
  peakObjective := true

def reuseCostExactCapabilities : SolverCapabilities :=
  { exactCapabilities with peakObjective := false }

/-- The texts are those of the baselines. -/
def rejectExactProblem (problem : DsaProblem) (solverName : String)
    (capabilities : SolverCapabilities) : DsaResult :=
  rejectUnsupported problem solverName capabilities

/-! ### The order of the objective -/

structure ObjectiveIndices where
  reuse : Option ℕ := none
  firstPeak : Option ℕ := none

/-- One iteration of the loop over the terms. -/
def noteTerm (indices : ObjectiveIndices) (term : ObjectiveMetric × ℕ) : ObjectiveIndices :=
  match term.1 with
  | .reuseCost => { indices with reuse := some term.2 }
  | .totalPeak | .maxPeak =>
      if indices.firstPeak.isNone then { indices with firstPeak := some term.2 } else indices
  | _ => indices

def objectiveIndices (problem : DsaProblem) : ObjectiveIndices :=
  problem.objective.terms.zipIdx.foldl noteTerm {}

def poolDecomposedReuseLimitation (problem : DsaProblem) : Option String :=
  if problem.pools.any fun pool => pool.capacity.isNone then
    some "exact DSA-RP solvers require fixed pool capacities"
  else
    match (objectiveIndices problem).reuse, (objectiveIndices problem).firstPeak with
    | none, _ => some "implicit_hitting_set requires reuse_cost in the objective"
    | some reuse, some peak =>
        if peak < reuse then
          some "exact DSA-RP pool decomposition requires reuse_cost before peak metrics"
        else none
    | some _, none => none

/-- The edges that are not selected. -/
def complement (selected : EdgeSet) (edgeCount : ℕ) : EdgeSet :=
  (List.range edgeCount).filter fun edge => !selected.contains edge

structure ImplicitHittingSetOptions where
  maxOracleNodes : UInt64 := 2000000
  maxMasterNodes : UInt64 := 2000000
  maxIterations : UInt64 := 1000
  shrinkCores : Bool := true

namespace ImplicitHittingSetSolver

/-! ### The loop -/

/-- What the loop changes. -/
structure State where
  oracle : PromotedDsaOracle.State := {}
  cores : List EdgeSet := []
  masterNodes : UInt64 := 0
  shrinkCalls : UInt64 := 0
  incumbent : Option DsaSolution := none
  incumbentScore : List UInt64 := []

section loop

variable (problem : DsaProblem) (search : ReusePenaltySearchSpace) (edges : List IndexedSoftEdge)
  (options : ImplicitHittingSetOptions)

/-- `consider_incumbent`. -/
def considerIncumbent (candidate : DsaResult) (state : State) : State :=
  match candidate.status, candidate.solution with
  | .feasible, some solution =>
      if validateSolution problem solution ≠ [] then state
      else
        let score := objectiveScore problem (evaluateObjective problem solution)
        if state.incumbent.isNone || decide (score < state.incumbentScore) then
          { state with incumbent := some solution, incumbentScore := score }
        else state
  | _, _ => state

/-- `attach_incumbent`. -/
def attachIncumbent (state : State) (result : DsaResult) : DsaResult :=
  match state.incumbent with
  | none => result
  | some incumbent =>
      { result with
        solution := some incumbent
        objective := evaluateObjective problem incumbent }

def metricsOf (iterations : UInt64) (state : State) : List (String × UInt64) :=
  [("iterations", iterations), ("verified_cores", UInt64.ofNat state.cores.length),
    ("master_search_nodes", state.masterNodes), ("oracle_calls", state.oracle.calls),
    ("oracle_cache_hits", state.oracle.cacheHits),
    ("oracle_search_nodes", state.oracle.searchNodes),
    ("core_shrink_calls", state.shrinkCalls)]

/-- The result after the oracle placed the promoted problem. -/
def provenResult (iteration : ℕ) (state : State) (solution : DsaSolution) : DsaResult where
  status := .feasible
  solution := some solution
  objective := evaluateObjective problem solution
  solverMetrics := Std.TreeMap.ofList
    (metricsOf (UInt64.ofNat (iteration + 1)) state ++ [("optimal_reuse_cost_proven", 1)])
  diagnostics :=
    ["implicit hitting set proved the minimum activated reuse weight; " ++
      "the returned oracle placement is not peak-tie-break optimized"]

/-- The result after an empty core. -/
def infeasibleResult (iteration : ℕ) (state : State) : DsaResult where
  status := .infeasibleProven
  solverMetrics := Std.TreeMap.ofList
    (metricsOf (UInt64.ofNat (iteration + 1)) state ++
      [("verified_cores", UInt64.ofNat (state.cores.length + 1)),
        ("optimal_reuse_cost_proven", 1)])
  diagnostics := ["the hard DSA problem is infeasible even after every soft edge is demoted"]

/-- One iteration of the loop that shrinks a core. -/
def shrinkStep (shrinking : EdgeSet × State) (edge : ℕ) : Except DsaResult (EdgeSet × State) :=
  let trial := shrinking.1.erase edge
  let answer :=
    PromotedDsaOracle.solve problem search edges options.maxOracleNodes trial shrinking.2.oracle
  let asked :=
    { shrinking.2 with oracle := answer.2, shrinkCalls := shrinking.2.shrinkCalls + 1 }
  let state := considerIncumbent problem
    { status := answer.1.status, solution := answer.1.solution } asked
  if answer.1.status == .timeout then
    .error (attachIncumbent problem state
      { status := .timeout
        diagnostics :=
          ["implicit hitting set core shrinking reached the oracle node limit"] })
  else if answer.1.status == .infeasibleProven then .ok (trial, state)
  else .ok (shrinking.1, state)

def shrinkCore (core : EdgeSet) (state : State) : Except DsaResult (EdgeSet × State) :=
  if options.shrinkCores then
    core.foldlM (shrinkStep problem search edges options) (core, state)
  else .ok (core, state)

/-- The end of an iteration whose promoted set is infeasible. -/
def learnCore (iteration : ℕ) (promoted : EdgeSet) (state : State) : Except DsaResult State := do
  let shrunk ← shrinkCore problem search edges options promoted
    { state with oracle := PromotedDsaOracle.addInfeasibleCore promoted state.oracle }
  if shrunk.1.isEmpty then .error (infeasibleResult iteration shrunk.2)
  else
    .ok
      { shrunk.2 with
        oracle := PromotedDsaOracle.addInfeasibleCore shrunk.1 shrunk.2.oracle
        cores :=
          if shrunk.2.cores.contains shrunk.1 then shrunk.2.cores
          else shrunk.2.cores ++ [shrunk.1] }

/-- The part of an iteration after the master. -/
def askOracle (iteration : ℕ) (promoted : EdgeSet) (state : State) : Except DsaResult State :=
  let answer :=
    PromotedDsaOracle.solve problem search edges options.maxOracleNodes promoted state.oracle
  let state := { state with oracle := answer.2 }
  match answer.1.status, answer.1.solution with
  | .feasible, some solution => .error (provenResult problem iteration state solution)
  | .timeout, _ =>
      .error (attachIncumbent problem state
        { status := .timeout
          solverMetrics := Std.TreeMap.ofList (metricsOf (UInt64.ofNat (iteration + 1)) state)
          diagnostics :=
            ["implicit hitting set oracle reached its canonical-search node limit"] })
  | .infeasibleProven, _ => learnCore problem search edges options iteration promoted state
  | status, _ =>
      .error
        { status := status
          diagnostics :=
            ["implicit hitting set oracle could not classify the promoted subproblem"] }

/-- The master of an iteration. -/
def masterOf (state : State) : HittingSetResult :=
  ExactHittingSetMaster.solve edges state.cores options.maxMasterNodes

/-- One iteration of the loop. -/
def iterate (state : State) (iteration : ℕ) : Except DsaResult State :=
  let master := masterOf edges options state
  let state := { state with masterNodes := saturatingAdd state.masterNodes master.searchNodes }
  if master.limitHit then
    .error (attachIncumbent problem state
      { status := .timeout
        solverMetrics :=
          Std.TreeMap.ofList ((metricsOf (UInt64.ofNat (iteration + 1)) state).take 4)
        diagnostics := ["implicit hitting set master reached its search-node limit"] })
  else if !master.found then
    .error
      { status := .invalidProblem
        diagnostics := ["implicit hitting set master returned no complete hitting set"] }
  else
    askOracle problem search edges options iteration (complement master.selected edges.length)
      state

/-- `count` iterations. -/
def iterations (start : State) (count : ℕ) : Except DsaResult State :=
  (List.range count).foldlM (iterate problem search edges options) start

end loop

/-- The incumbents of the constructive solvers. -/
def startState (random : Shuffler) (problem : DsaProblem) : State :=
  considerIncumbent problem (PromoteRepairSolver.solve random problem)
    (considerIncumbent problem (CanonicalGreedySolver.solve random {} problem)
      (considerIncumbent problem (FirstFitSolver.solve problem) {}))

/-- The solver after its checks. -/
def solvePrepared (random : Shuffler) (options : ImplicitHittingSetOptions) (problem : DsaProblem)
    (search : ReusePenaltySearchSpace) : DsaResult :=
  match iterations problem search (indexSoftEdges search) options (startState random problem)
      options.maxIterations.toNat with
  | .error result => result
  | .ok state =>
      attachIncumbent problem state
        { status := .timeout
          solverMetrics := Std.TreeMap.ofList (metricsOf options.maxIterations state)
          diagnostics := ["implicit hitting set reached its iteration limit"] }

/-- `ImplicitHittingSetSolver::Solve`. -/
def solve (random : Shuffler) (options : ImplicitHittingSetOptions) (problem : DsaProblem) :
    DsaResult :=
  if !(checkSolverCompatibility problem reuseCostExactCapabilities).compatible then
    rejectExactProblem problem "implicit_hitting_set" reuseCostExactCapabilities
  else
    match poolDecomposedReuseLimitation problem with
    | some limitation => { status := .unsupported, diagnostics := [limitation] }
    | none =>
        let search := buildReusePenaltySearchSpace problem
        if search.placement.errors ≠ [] then
          { status := .invalidProblem, diagnostics := search.placement.errors }
        else solvePrepared random options problem search

end ImplicitHittingSetSolver

end Dsa
