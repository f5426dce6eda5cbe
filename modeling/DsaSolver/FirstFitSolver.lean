import DsaSolver.Compatibility
import DsaSolver.EngineSoundness
import Mathlib.Data.List.Lex

/-! # The first-fit solver

`first_fit_solver.cpp`: first fit in size, birth and incident-weight order, the result selected
by the declared objective. -/

namespace Dsa

/-- `EarliestBirth`. -/
def earliestBirth (problem : DsaProblem) (node : PlacementSearchNode) : Int64 :=
  node.members.foldl
    (fun birth member =>
      match problem.findBuffer member with
      | none => birth
      | some buffer =>
          buffer.liveIntervals.foldl
            (fun birth interval => if interval.lower < birth then interval.lower else birth) birth)
    Int64.maxValue

section orders

variable (problem : DsaProblem) (search : ReusePenaltySearchSpace)

def birthBefore (first second : ℕ) : Bool :=
  let firstBirth := earliestBirth problem (search.nodeAt first)
  let secondBirth := earliestBirth problem (search.nodeAt second)
  decide (firstBirth < secondBirth) || (firstBirth == secondBirth &&
    decide ((search.nodeAt first).representative < (search.nodeAt second).representative))

/-- `nodes` after the first `std::sort`. -/
def birthOrder : List ℕ :=
  (List.range search.count).insertionSort fun first second =>
    (!birthBefore problem search second first) = true

def incidentWeights : List UInt64 :=
  search.softWeights.toList.foldl
    (fun weights entry =>
      (weights.modify entry.1.1 fun weight => saturatingAdd weight entry.2).modify entry.1.2
        fun weight => saturatingAdd weight entry.2)
    (List.replicate search.count 0)

def weightBefore (first second : ℕ) : Bool :=
  let firstWeight := maxU64 - (incidentWeights search).getD first 0
  let secondWeight := maxU64 - (incidentWeights search).getD second 0
  let firstSize := maxU64 - (search.nodeAt first).size
  let secondSize := maxU64 - (search.nodeAt second).size
  decide (firstWeight < secondWeight) || (firstWeight == secondWeight &&
    (decide (firstSize < secondSize) || (firstSize == secondSize &&
      decide ((search.nodeAt first).representative < (search.nodeAt second).representative))))

/-- `nodes` after the second `std::sort`. -/
def softWeightOrder : List ℕ :=
  (birthOrder problem search).insertionSort fun first second =>
    (!weightBefore search second first) = true

end orders

/-- The loop that builds `unique`. -/
def keepFirst {α : Type*} [BEq α] (orders : List α) : List α :=
  orders.foldl (fun unique order => if unique.contains order then unique else unique ++ [order]) []

namespace FirstFitSolver

def capabilities : SolverCapabilities where
  multiInterval := true
  colocations := true
  separations := true
  temporalExclusions := true
  pinnedAllocations := true
  reservedRanges := true
  multiPool := true
  reuseCost := true
  lexicographicObjective := true
  capacityObjective := true
  peakObjective := true

def resultScore (problem : DsaProblem) (result : DsaResult) : List UInt64 :=
  (if result.status == .feasible then 0 else 1) ::
    problem.objective.terms.map (evaluateObjectiveMetric problem result.objective)

/-- `unique_orders`. -/
def orders (problem : DsaProblem) (search : ReusePenaltySearchSpace) : List (List BufferId) :=
  keepFirst
    [defaultPlacementOrder problem,
      (birthOrder problem search).map fun node => (search.nodeAt node).representative,
      (softWeightOrder problem search).map fun node => (search.nodeAt node).representative]

structure Selection where
  result : DsaResult := {}
  bestScore : List UInt64 := []
  selected : ℕ := 0

/-- One iteration of the loop over the orders. -/
def selectOrder (problem : DsaProblem) (state : Selection) (entry : List BufferId × ℕ) :
    Selection :=
  let candidate := placeWithOrder problem entry.1 .firstFit
  let score := resultScore problem candidate
  if entry.2 == 0 || decide (score < state.bestScore) then ⟨candidate, score, entry.2⟩ else state

/-- The diagnostics for the objectives that first fit does not optimize. -/
def noteObjectives (compatibility : SolverCompatibility) (result : DsaResult) : DsaResult :=
  { result with
    diagnostics := result.diagnostics ++ compatibility.unsupportedObjectives.map fun objective =>
      "first_fit provides a structural baseline but does not optimize '" ++ objective ++ "'" }

/-- `FirstFitSolver::Solve`. -/
def solve (problem : DsaProblem) : DsaResult :=
  let compatibility := checkSolverCompatibility problem capabilities
  if compatibility.unsupportedFeatures ≠ [] then
    if validateProblem problem ≠ [] then
      { status := .invalidProblem, diagnostics := validateProblem problem }
    else
      { status := .unsupported
        diagnostics := compatibility.unsupportedFeatures.map fun feature =>
          "first_fit does not support feature '" ++ feature ++ "'" }
  else if problem.reusePenalties.isEmpty then
    noteObjectives compatibility (placeWithOrder problem [] .firstFit)
  else
    let search := buildReusePenaltySearchSpace problem
    if search.placement.errors ≠ [] ∨ search.placement.flexiblePools then
      noteObjectives compatibility (placeWithOrder problem [] .firstFit)
    else
      let selection := (orders problem search).zipIdx.foldl (selectOrder problem) {}
      noteObjectives compatibility
        { selection.result with
          solverMetrics :=
            (selection.result.solverMetrics.insert "first_fit_orders_evaluated"
                (UInt64.ofNat (orders problem search).length)).insert
              "first_fit_selected_order" (UInt64.ofNat selection.selected)
          diagnostics := selection.result.diagnostics ++
            ["first_fit generated penalty-blind placements in size, birth, and " ++
              "soft-incident-weight order and selected by the declared objective"] }

/-! ### The result is one of the engine's -/

/-- The results agree but for metrics and diagnostics. -/
structure SamePlacement (first second : DsaResult) : Prop where
  status : first.status = second.status
  solution : first.solution = second.solution
  objective : first.objective = second.objective

theorem noteObjectives_same (compatibility : SolverCompatibility) (result : DsaResult) :
    SamePlacement (noteObjectives compatibility result) result := ⟨rfl, rfl, rfl⟩

/-- The selected result is that of some order, when there is one. -/
theorem foldl_selectOrder_result (problem : DsaProblem) (entries : List (List BufferId × ℕ))
    (state : Selection) :
    (entries.foldl (selectOrder problem) state).result = state.result ∨
      ∃ priority, (entries.foldl (selectOrder problem) state).result =
        placeWithOrder problem priority .firstFit := by
  induction entries generalizing state with
  | nil => exact .inl rfl
  | cons entry rest ih =>
      rw [List.foldl_cons]
      obtain hsame | hplaced := ih (selectOrder problem state entry)
      · rw [hsame]
        unfold selectOrder
        dsimp only
        split_ifs
        · exact .inr ⟨entry.1, rfl⟩
        · exact .inl rfl
      · exact .inr hplaced

/-- A feasible result of first fit is a result of the placement engine. -/
theorem exists_placeWithOrder {problem : DsaProblem} (h : (solve problem).status = .feasible) :
    ∃ priority, SamePlacement (solve problem) (placeWithOrder problem priority .firstFit) := by
  unfold solve at h ⊢
  dsimp only at h ⊢
  split_ifs at h ⊢ with hfeatures hinvalid hempty hsearch
  · exact ⟨[], noteObjectives_same _ _⟩
  · exact ⟨[], noteObjectives_same _ _⟩
  · obtain hstart | ⟨priority, hplaced⟩ := foldl_selectOrder_result problem
      (orders problem (buildReusePenaltySearchSpace problem)).zipIdx {}
    · -- no order at all leaves the default result
      unfold noteObjectives at h
      dsimp only at h
      rw [hstart] at h
      cases h
    · refine ⟨priority, ?_, ?_, ?_⟩
      all_goals
        unfold noteObjectives
        dsimp only
        rw [hplaced]

/-- **A feasible result of first fit is valid.** -/
theorem solve_feasible {problem : DsaProblem} (h : (solve problem).status = .feasible) :
    ∃ solution, (solve problem).solution = some solution ∧
      validateSolution problem solution = [] ∧
        (solve problem).objective = evaluateObjective problem solution := by
  obtain ⟨priority, hstatus, hsolution, hobjective⟩ := exists_placeWithOrder h
  rw [hstatus] at h
  rw [hsolution, hobjective]
  exact placeWithOrder_feasible h

end FirstFitSolver

end Dsa
