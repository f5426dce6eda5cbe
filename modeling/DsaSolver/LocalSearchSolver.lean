import DsaSolver.NodeSteps
import DsaSolver.OrderSearch

/-! # The local search solver

`local_search_solver.cpp`: hill climbing over placement orders with restarts.  A random move
swaps two entries of the order, moves the later one before the earlier or reverses what lies
between them. -/

namespace Dsa

namespace OrderSearch

variable (random : RandomEngine)

/-- The random moves, which differ in how the later entry is moved to the earlier position. -/
def randomMove (shift : List BufferId → ℕ → ℕ → List BufferId) (order : List BufferId)
    (engine : random.Engine) : List BufferId × random.Engine :=
  if h : order.length < 2 then (order, engine)
  else
    let drawn := random.drawPair (order.length - 1) (by omega) engine
    let first := min drawn.1.1 drawn.1.2
    let second := max drawn.1.1 drawn.1.2
    let kind := random.next drawn.2
    (if kind.1 % 3 == 0 then Theory.exchange order first second
      else if kind.1 % 3 == 1 then shift order first second
      else Theory.reverseBetween order first second, kind.2)

variable {random}

theorem randomMove_perm {shift : List BufferId → ℕ → ℕ → List BufferId}
    (hshift : ∀ order : List BufferId, ∀ first second, first ≤ second → second < order.length →
      (shift order first second).Perm order) (order : List BufferId) (engine : random.Engine) :
    (randomMove random shift order engine).1.Perm order := by
  unfold randomMove
  dsimp only
  split_ifs with hshort hswap hmove
  · exact .refl order
  · exact Theory.exchange_perm
  · refine hshift order _ _ min_le_max ?_
    have hfirst := random.uniform_le (order.length - 1) engine
    have hsecond := random.drawOther_le (order.length - 1)
      (random.uniform (order.length - 1) engine).1 (by omega)
      (random.uniform (order.length - 1) engine).2
    unfold RandomEngine.drawPair
    dsimp only
    omega
  · exact Theory.reverseBetween_perm

end OrderSearch

namespace LocalSearchSolver

def applyRandomMove (random : RandomEngine) :
    List BufferId → random.Engine → List BufferId × random.Engine :=
  OrderSearch.randomMove random fun order first second => Theory.relocate order second first

def capabilities : SolverCapabilities where
  multiInterval := true
  reuseCost := true
  colocations := true
  separations := true
  temporalExclusions := true
  pinnedAllocations := true
  reservedRanges := true
  multiPool := true
  lexicographicObjective := true
  capacityObjective := true
  peakObjective := true

/-- `LocalSearchSolver::Solve`. -/
def solve (random : RandomEngine) (options : OrderSearchOptions) (problem : DsaProblem) :
    DsaResult :=
  if !(checkSolverCompatibility problem capabilities).compatible then
    rejectUnsupported problem "local_search" capabilities
  else
    OrderSearch.searchOrders random problem (applyRandomMove random) options
      ("local search evaluated 1 placement order with seed " ++ toString options.seed)
      fun evaluated => "local search evaluated " ++ toString evaluated ++
        " placement orders with seed " ++ toString options.seed

theorem applyRandomMove_perm {random : RandomEngine} (order : List BufferId)
    (engine : random.Engine) : (applyRandomMove random order engine).1.Perm order :=
  OrderSearch.randomMove_perm (fun _ _ _ hle hlt => Theory.relocate_perm (by omega)) order engine

/-- The orders of the run, the latest first. -/
def evaluatedOrders (random : RandomEngine) (options : OrderSearchOptions) (problem : DsaProblem) :
    List (List BufferId) :=
  OrderSearch.evaluatedOrders random problem (applyRandomMove random) options

/-- **Local search returns the best order it evaluates.**  It spends its budget exactly, on
permutations of the default order; no order of the run scores better than the result, a feasible
result is a valid placement, a claim of infeasibility holds whatever the capacities, and when the
objective starts with the capacity overflow no fitting order is lost. -/
theorem localSearch_bestOrder (random : RandomEngine) (options : OrderSearchOptions)
    (problem : DsaProblem)
    (hcompatible : (checkSolverCompatibility problem capabilities).compatible = true) :
    OrderSearch.BestOrder problem (defaultPlacementOrder problem)
        (evaluatedOrders random options problem) (solve random options problem) ∧
      ((evaluatedOrders random options problem).length =
        if OrderSearch.searches problem options then options.maxIterations else 1) ∧
      ((solve random options problem).status = .feasible →
        ∃ solution, (solve random options problem).solution = some solution ∧
          validateSolution problem solution = [] ∧
            (solve random options problem).objective = evaluateObjective problem solution) ∧
      ((solve random options problem).status = .infeasibleProven →
        ∀ solution, validateSolution (withoutCaps problem) solution ≠ []) ∧
      ∀ rest, problem.objective.terms = .capacityOverflow :: rest →
        ((solve random options problem).status = .feasible ↔
          ∃ order ∈ evaluatedOrders random options problem,
            (placeWithOrder problem order .firstFit).status = .feasible) := by
  have hsolve : solve random options problem = _ := if_neg (by rw [hcompatible]; decide)
  rw [hsolve]
  obtain ⟨hbest, hlength⟩ := @OrderSearch.searchOrders_bestOrder problem random options
    (applyRandomMove random)
    (fun order engine horder => (applyRandomMove_perm order engine).trans horder)
    ("local search evaluated 1 placement order with seed " ++ toString options.seed)
    fun evaluated => "local search evaluated " ++ toString evaluated ++
      " placement orders with seed " ++ toString options.seed
  exact ⟨hbest, hlength, hbest.feasible, hbest.infeasible, fun _ hterms => hbest.feasible_iff hterms⟩

/-- The pair is placed in a best one of the 20000 orders evaluated. -/
theorem localSearch_bestOrder_pairProblem :
    OrderSearch.BestOrder pairProblem (defaultPlacementOrder pairProblem)
        (evaluatedOrders countingEngine {} pairProblem) (solve countingEngine {} pairProblem) ∧
      (evaluatedOrders countingEngine {} pairProblem).length = 20000 := by
  obtain ⟨hbest, hlength, -⟩ :=
    localSearch_bestOrder countingEngine {} pairProblem (by decide +kernel)
  rw [if_pos (by decide +kernel)] at hlength
  exact ⟨hbest, hlength⟩

end LocalSearchSolver

end Dsa
