import DsaSolver.ImplicitHittingSet
import DsaSolver.PoolScores

/-! # The canonical branch-and-bound solver

`CanonicalBranchAndBoundSolver` of `reuse_penalty_exact_solvers.cpp`: the constructive solvers seed
the canonical search, whose completed answer is reported as the optimum. -/

namespace Dsa

structure CanonicalBranchAndBoundOptions where
  maxSearchNodes : UInt64 := 2000000

/-- `NodeOffsets`: the offsets of the representatives. -/
def nodeOffsets (search : ReusePenaltySearchSpace) (solution : DsaSolution) :
    Option (List UInt64) :=
  (List.range search.count).mapM fun node =>
    match solution.find (search.nodeAt node).representative with
    | none => none
    | some placement =>
        if placement.pool ≠ (search.nodeAt node).pool then none else some placement.offset

namespace CanonicalBranchAndBoundSolver

variable {problem : DsaProblem}

/-! ### The solver -/

/-- The checks between the compatibility and the search. -/
def limitation (problem : DsaProblem) : Option String :=
  if problem.pools.any fun pool => pool.capacity.isNone then
    some "canonical_branch_and_bound requires fixed pool capacities"
  else
    match (objectiveIndices problem).reuse, (objectiveIndices problem).firstPeak with
    | some reuse, some peak =>
        if peak < reuse then
          some ("canonical_branch_and_bound pool decomposition requires " ++
            "reuse_cost before peak metrics")
        else none
    | _, _ => none

/-- What `consider_seed` changes. -/
structure Seeds where
  solution : Option DsaSolution := none
  score : List UInt64 := []
  feasible : UInt64 := 0

def considerSeed (problem : DsaProblem) (seeds : Seeds) (candidate : DsaResult) : Seeds :=
  match candidate.status, candidate.solution with
  | .feasible, some solution =>
      if validateSolution problem solution ≠ [] then seeds
      else
        let score := objectiveScore problem (evaluateObjective problem solution)
        if seeds.solution.isNone || decide (score < seeds.score) then
          { solution := some solution, score := score, feasible := seeds.feasible + 1 }
        else { seeds with feasible := seeds.feasible + 1 }
  | _, _ => seeds

/-- The seeds; the greedy solvers see the problem with the objective they support. -/
def seedsOf (random : Shuffler) (problem : DsaProblem) : Seeds :=
  let seedProblem := { problem with objective := fitThenMinimizeReuseCostObjective }
  [FirstFitSolver.solve problem, CanonicalGreedySolver.solve random {} seedProblem,
    PromoteRepairSolver.solve random seedProblem].foldl (considerSeed problem) {}

def searchOptions (options : CanonicalBranchAndBoundOptions) (search : ReusePenaltySearchSpace)
    (seeds : Seeds) : CanonicalExactSearchOptions where
  nodeLimit := options.maxSearchNodes
  stopAfterFirst := false
  incumbentOffsets := seeds.solution.bind (nodeOffsets search)

/-- The result of a search that has offsets. -/
def placedResult (problem : DsaProblem) (search : ReusePenaltySearchSpace) (seeds : Seeds)
    (exact : CanonicalExactSearchResult) (offsets : List UInt64) : DsaResult :=
  let result := buildValidatedReuseResult problem search offsets exact.status
  { result with
    solverMetrics := Std.TreeMap.ofList
      [("search_nodes", exact.searchNodes), ("candidate_branches", exact.candidateBranches),
        ("bound_prunes", exact.boundPrunes), ("feasible_incumbent_seeds", seeds.feasible),
        ("heuristic_incumbent",
          if exact.status == .timeout && seeds.solution.isSome then 1 else 0),
        ("optimality_proven", if exact.status == .feasible then 1 else 0)]
    diagnostics := result.diagnostics ++
      [if exact.status == .feasible then
        "canonical branch-and-bound exhausted the canonical support " ++
          "search and proved the lexicographic optimum"
      else
        "canonical branch-and-bound reached its node limit with an incumbent"] }

/-- The result of a search without offsets. -/
def unplacedResult (seeds : Seeds) (exact : CanonicalExactSearchResult) : DsaResult where
  status := exact.status
  solverMetrics := Std.TreeMap.ofList
    [("search_nodes", exact.searchNodes), ("candidate_branches", exact.candidateBranches),
      ("bound_prunes", exact.boundPrunes), ("feasible_incumbent_seeds", seeds.feasible),
      ("optimality_proven", if exact.status == .infeasibleProven then 1 else 0)]
  diagnostics :=
    [if exact.status == .infeasibleProven then
      "canonical branch-and-bound exhausted the canonical support search and proved infeasibility"
    else
      "canonical branch-and-bound reached its node limit before finding a placement"]

/-- The solver after its checks. -/
def solvePrepared (random : Shuffler) (options : CanonicalBranchAndBoundOptions)
    (problem : DsaProblem) (search : ReusePenaltySearchSpace) : DsaResult :=
  let seeds := seedsOf random problem
  let exact := runCanonicalExactSearch problem search (searchOptions options search seeds)
  match exact.offsets with
  | some offsets => placedResult problem search seeds exact offsets
  | none => unplacedResult seeds exact

/-- `CanonicalBranchAndBoundSolver::Solve`. -/
def solve (random : Shuffler) (options : CanonicalBranchAndBoundOptions) (problem : DsaProblem) :
    DsaResult :=
  if !(checkSolverCompatibility problem exactCapabilities).compatible then
    rejectExactProblem problem "canonical_branch_and_bound" exactCapabilities
  else
    match limitation problem with
    | some reason => { status := .unsupported, diagnostics := [reason] }
    | none =>
        let search := buildReusePenaltySearchSpace problem
        if search.placement.errors ≠ [] then
          { status := .invalidProblem, diagnostics := search.placement.errors }
        else solvePrepared random options problem search

end CanonicalBranchAndBoundSolver

end Dsa
