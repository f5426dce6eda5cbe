import DsaSolver.WholeSearch
import DsaSolver.RepairSoundness

/-! # The promote-all solver

`PromoteAllSolver` of `reuse_penalty_baseline_solvers.cpp` separates every soft edge and asks the
canonical search for a placement.  Its negative answer is about placements that keep all soft
edges apart; it is one about placements of reuse cost zero exactly when edges that cost nothing
need not overlap (`solve_decides_iff`). -/

namespace Dsa

structure PromoteAllOptions where
  maxSearchNodes : UInt64 := 2000000

namespace PromoteAllSolver

variable {problem : DsaProblem}

/-! ### The solver -/

def searchOptions (options : PromoteAllOptions) : CanonicalExactSearchOptions where
  nodeLimit := options.maxSearchNodes
  stopAfterFirst := true

/-- The placement of the search, checked against the promoted problem and priced by the original. -/
def promotedResult (problem promoted : DsaProblem) (promotedSearch : ReusePenaltySearchSpace)
    (exact : CanonicalExactSearchResult) : DsaResult :=
  match exact.offsets with
  | none => { status := exact.status }
  | some offsets =>
      let result := buildValidatedReuseResult promoted promotedSearch offsets exact.status
      match result.solution with
      | none => result
      | some solution => { result with objective := evaluateObjective problem solution }

/-- The solver after its checks. -/
def solvePrepared (options : PromoteAllOptions) (problem : DsaProblem)
    (prepared : ReusePenaltySearchSpace) : DsaResult :=
  let promoted := withPromotedReuseEdges problem prepared (activePairs prepared.softWeights)
  let promotedSearch := buildReusePenaltySearchSpace promoted
  let exact := runCanonicalExactSearch promoted promotedSearch (searchOptions options)
  let result := promotedResult problem promoted promotedSearch exact
  { result with
    solverMetrics := Std.TreeMap.ofList
      [("promoted_edges", UInt64.ofNat prepared.softWeights.size),
        ("search_nodes", exact.searchNodes),
        ("zero_penalty_feasibility_proven",
          if exact.status == .feasible || exact.status == .infeasibleProven then 1 else 0)]
    diagnostics := result.diagnostics ++
      [if exact.status == .infeasibleProven then
        "promote_all proved that no zero-penalty placement fits capacity"
      else
        "promote_all treats every soft edge as a separation and uses the " ++
          "canonical feasibility oracle"] }

/-- `PromoteAllSolver::Solve`. -/
def solve (options : PromoteAllOptions) (problem : DsaProblem) : DsaResult :=
  if !(checkSolverCompatibility problem baselineCapabilities).compatible then
    rejectUnsupported problem "promote_all" baselineCapabilities
  else
    let prepared := buildReusePenaltySearchSpace problem
    if prepared.placement.errors ≠ [] then
      { status := .invalidProblem, diagnostics := prepared.placement.errors }
    else solvePrepared options problem prepared

/-! ### Placements of cost zero -/

/-- The pairs of all soft edges. -/
def softPairs (problem : DsaProblem) : List (ℕ × ℕ) := activePairs problem.search.softWeights

theorem nodePairs_softPairs (h : SearchOk problem) : NodePairs problem (softPairs problem) := by
  intro pair hpair
  obtain ⟨entry, hentry, rfl⟩ := List.mem_map.mp hpair
  obtain ⟨hlt, hcount, hpool, -⟩ := softWeights_pair h hentry
  exact ⟨hlt, hcount, hpool⟩

/-- A cost of zero: what overlaps is free. -/
theorem reuseCost_eq_zero_iff (h : SearchOk problem) {offsets : List UInt64}
    (hv : (nodePacking h).Valid (positions offsets)) :
    (evaluateObjective problem (expandReuseNodeSolution problem.search offsets)).reuseCost = 0 ↔
      ∀ entry ∈ problem.search.softWeights.toList,
        ¬ NodesApart problem (positions offsets) entry.1.1 entry.1.2 → entry.2 = 0 := by
  have hsum := Theory.foldl_satAdd
    (fun entry : (ℕ × ℕ) × UInt64 =>
      decide (¬ NodesApart problem (positions offsets) entry.1.1 entry.1.2))
    Prod.snd 0 problem.search.softWeights.toList
  have hzero := Theory.foldl_satAdd_eq_zero_iff
    (fun entry : (ℕ × ℕ) × UInt64 =>
      decide (¬ NodesApart problem (positions offsets) entry.1.1 entry.1.2))
    Prod.snd 0 problem.search.softWeights.toList
  have h0 : (⟨0⟩ : Theory.Sat) = 0 := rfl
  rw [h0, zero_add] at hsum
  rw [reuseCost_expand h hv, nodeCost, weightOf, Theory.total]
  simp only [decide_eq_true_eq] at hsum hzero
  rw [← hsum, hzero]
  exact and_iff_right trivial

/-- Soft edges of weight zero need not overlap: a valid placement that overlaps no others can
give way to one that overlaps none. -/
def ZeroPairsAvoidable (problem : DsaProblem) : Prop :=
  ∀ offsets, validateSolution problem (expandReuseNodeSolution problem.search offsets) = [] →
    (∀ entry ∈ problem.search.softWeights.toList,
      ¬ NodesApart problem (positions offsets) entry.1.1 entry.1.2 → entry.2 = 0) →
    ∃ apart, validateSolution problem (expandReuseNodeSolution problem.search apart) = [] ∧
      ∀ entry ∈ problem.search.softWeights.toList,
        NodesApart problem (positions apart) entry.1.1 entry.1.2

/-! ### The answers -/

section answers

variable {options : PromoteAllOptions}

/-- The search of the promoted problem. -/
def exactSearch (options : PromoteAllOptions) (problem : DsaProblem) :
    CanonicalExactSearchResult :=
  runCanonicalExactSearch (promote problem (softPairs problem))
    (promote problem (softPairs problem)).search (searchOptions options)

theorem solve_eq
    (hcompatible : (checkSolverCompatibility problem baselineCapabilities).compatible = true)
    (herrors : problem.search.placement.errors = []) :
    solve options problem = solvePrepared options problem problem.search := by
  unfold solve
  dsimp only
  rw [hcompatible, if_neg (by simp), buildSearch_eq, if_neg (not_not.mpr herrors)]

/-- The result, read off the search. -/
theorem solvePrepared_eq (options : PromoteAllOptions) (problem : DsaProblem) :
    (solvePrepared options problem problem.search).status =
        (promotedResult problem (promote problem (softPairs problem))
          (promote problem (softPairs problem)).search (exactSearch options problem)).status ∧
      (solvePrepared options problem problem.search).solution =
        (promotedResult problem (promote problem (softPairs problem))
          (promote problem (softPairs problem)).search (exactSearch options problem)).solution := by
  have hpromoted : withPromotedReuseEdges problem problem.search
      (activePairs problem.search.softWeights) = promote problem (softPairs problem) := rfl
  unfold solvePrepared exactSearch
  dsimp only
  rw [hpromoted, buildSearch_eq]
  exact ⟨rfl, rfl⟩

/-- The ends of the solver on a problem it accepts. -/
inductive SolveEnd (options : PromoteAllOptions) (problem : DsaProblem) (result : DsaResult) : Prop
  | placed (solution : DsaSolution) (status : result.status = .feasible)
      (some : result.solution = some solution)
      (valid : validateSolution (promote problem (softPairs problem)) solution = [])
      (exact : (exactSearch options problem).status = .feasible)
  | infeasible (status : result.status = .infeasibleProven)
      (exact : (exactSearch options problem).status = .infeasibleProven)
  | undecided (feasible : result.status ≠ .feasible)
      (infeasible : result.status ≠ .infeasibleProven)
      (exact : (exactSearch options problem).status = .timeout)

theorem solvePrepared_end (h : SearchOk problem) :
    SolveEnd options problem (solvePrepared options problem problem.search) := by
  have hpairs := nodePairs_softPairs h
  obtain ⟨hstatus, hsolution⟩ := solvePrepared_eq options problem
  have hanswer := runCanonicalExactSearch_answer (h.promote hpairs) (searchOptions options)
  change SearchAnswer _ _ (exactSearch options problem) at hanswer
  cases hanswer with
  | placed offsets status =>
      obtain ⟨offsets, hsome, hvalid⟩ := promotedSearch_feasible h hpairs rfl status
      change (exactSearch options problem).offsets = some offsets at hsome
      unfold promotedResult buildValidatedReuseResult at hstatus hsolution
      rw [hsome, status] at hstatus hsolution
      dsimp only at hstatus hsolution
      rw [if_neg (not_not.mpr hvalid)] at hstatus hsolution
      exact .placed _ hstatus hsolution hvalid status
  | cutPlaced offsets status hsome =>
      unfold promotedResult at hstatus
      rw [hsome, status] at hstatus
      dsimp only at hstatus
      unfold buildValidatedReuseResult at hstatus
      dsimp only at hstatus
      split_ifs at hstatus
      · exact .undecided (hstatus ▸ nofun) (hstatus ▸ nofun) status
      · exact .undecided (hstatus ▸ nofun) (hstatus ▸ nofun) status
  | infeasible _ _ status hnone =>
      unfold promotedResult at hstatus
      rw [hnone] at hstatus
      exact .infeasible (hstatus.trans status) status
  | cut status hnone =>
      unfold promotedResult at hstatus
      rw [hnone] at hstatus
      have hcut := hstatus.trans status
      exact .undecided (hcut ▸ nofun) (hcut ▸ nofun) status

/-- A placement that keeps all soft edges apart is one of the problem, at no cost. -/
theorem sound_of_separated (h : SearchOk problem) {solution : DsaSolution}
    (hs : validateSolution (promote problem (softPairs problem)) solution = []) :
    validateSolution problem solution = [] ∧
      (evaluateObjective problem solution).reuseCost = 0 := by
  obtain ⟨offsets, -, hfind, hv, hapart⟩ := validateSolution_promote h (nodePairs_softPairs h) hs
  rw [validateSolution_congr hfind, evaluateObjective_congr hfind,
    validateSolution_expand_iff h, reuseCost_eq_zero_iff h hv]
  exact ⟨hv, fun entry hentry hover => absurd (hapart _ (List.mem_map_of_mem hentry)) hover⟩

/-- What the solver is asked for: a placement of cost zero, or a proof that there is none. -/
def Decides (problem : DsaProblem) (result : DsaResult) : Prop :=
  (result.status = .feasible → ∃ solution, result.solution = some solution ∧
    validateSolution problem solution = [] ∧ (evaluateObjective problem solution).reuseCost = 0) ∧
  (result.status = .infeasibleProven → ∀ solution, validateSolution problem solution = [] →
    (evaluateObjective problem solution).reuseCost ≠ 0)

theorem decides_of_invalid {result : DsaResult} (hstatus : result.status = .invalidProblem) :
    Decides problem result :=
  ⟨fun hyes => absurd (hstatus.symm.trans hyes) nofun,
    fun hno => absurd (hstatus.symm.trans hno) nofun⟩

theorem decides_of_avoidable (h : SearchOk problem) (havoidable : ZeroPairsAvoidable problem) :
    Decides problem (solvePrepared options problem problem.search) := by
  cases @solvePrepared_end problem options h with
  | undecided feasible infeasible =>
      exact ⟨fun hstatus => absurd hstatus feasible, fun hstatus => absurd hstatus infeasible⟩
  | placed solution status some valid =>
      exact ⟨fun _ => ⟨solution, some, sound_of_separated h valid⟩,
        fun hstatus => absurd (status.symm.trans hstatus) nofun⟩
  | infeasible status exact =>
      refine ⟨fun hstatus => absurd (status.symm.trans hstatus) nofun, ?_⟩
      intro _ solution hs hzero
      obtain ⟨offsets, -, hfind⟩ := exists_offsets h hs
      rw [validateSolution_congr hfind] at hs
      rw [evaluateObjective_congr hfind,
        reuseCost_eq_zero_iff h ((validateSolution_expand_iff h offsets).mp hs)] at hzero
      obtain ⟨apart, hvalid, hapart⟩ := havoidable offsets hs hzero
      refine promotedSearch_infeasible h (nodePairs_softPairs h) exact
        ((validateSolution_expand_iff h apart).mp hvalid) fun pair hpair => ?_
      obtain ⟨entry, hentry, rfl⟩ := List.mem_map.mp hpair
      exact hapart entry hentry

/-- The unlimited solver decides; its negative answer then needs the edges to be avoidable. -/
theorem avoidable_of_decides (h : SearchOk problem)
    (hdecides : Decides problem (solvePrepared ⟨0⟩ problem problem.search)) :
    ZeroPairsAvoidable problem := by
  intro offsets hs hfree
  have hv := (validateSolution_expand_iff h offsets).mp hs
  cases @solvePrepared_end problem ⟨0⟩ h with
  | undecided _ _ exact =>
      rcases @runCanonicalExactSearch_unlimited _ (searchOptions ⟨0⟩)
        (h.promote (nodePairs_softPairs h)) rfl with hfeasible | hinfeasible
      · exact absurd (hfeasible.symm.trans exact) nofun
      · exact absurd (hinfeasible.symm.trans exact) nofun
  | placed solution _ _ valid =>
      obtain ⟨apart, -, -, hv', hapart⟩ := validateSolution_promote h (nodePairs_softPairs h) valid
      exact ⟨apart, (validateSolution_expand_iff h apart).mpr hv',
        fun entry hentry => hapart _ (List.mem_map_of_mem hentry)⟩
  | infeasible status =>
      exact absurd ((reuseCost_eq_zero_iff h hv).mpr hfree) (hdecides.2 status _ hs)

/-- **Zero-cost feasibility.**  The solver decides it under every node limit exactly when soft
edges of weight zero are avoidable. -/
theorem solve_decides_iff
    (hcompatible : (checkSolverCompatibility problem baselineCapabilities).compatible = true) :
    (∀ options, Decides problem (solve options problem)) ↔ ZeroPairsAvoidable problem := by
  by_cases herrors : problem.search.placement.errors = []
  · have h := searchOk_of_compatible hcompatible rfl rfl herrors
    constructor
    · intro hall
      have hdecides := hall ⟨0⟩
      rw [solve_eq hcompatible herrors] at hdecides
      exact avoidable_of_decides h hdecides
    · intro havoidable options
      rw [solve_eq hcompatible herrors]
      exact decides_of_avoidable h havoidable
  · -- without a search space there is no soft edge and no answer
    have hinvalid : ∀ options, (solve options problem).status = .invalidProblem := by
      intro options
      unfold solve
      dsimp only
      rw [hcompatible, if_neg (by simp), buildSearch_eq, if_pos herrors]
    have hnone : problem.search.softWeights = ∅ := by
      have hplacement := SearchOk.placement_search problem
      rw [hplacement] at herrors
      rw [← buildSearch_eq]
      unfold buildReusePenaltySearchSpace
      dsimp only
      rw [if_pos (.inl herrors)]
    apply iff_of_true
    · exact fun options => decides_of_invalid (hinvalid options)
    · intro offsets hs _
      refine ⟨offsets, hs, fun entry hentry => ?_⟩
      rw [hnone] at hentry
      cases hentry

/-- The penalty of the pair costs something. -/
theorem solve_decides_iff_pairProblem :
    (∀ options, Decides pairProblem (solve options pairProblem)) ↔
      ZeroPairsAvoidable pairProblem := solve_decides_iff (by decide +kernel)

/-- Two buffers that fit one on the other, with a penalty record that costs nothing. -/
def freeProblem : DsaProblem where
  buffers := [{ id := 0, size := 4, alignment := 4, liveIntervals := [⟨0, 1⟩] },
    { id := 1, size := 4, alignment := 4, liveIntervals := [⟨1, 2⟩] }]
  pools := [{ capacity := some 4 }]
  costModel := some ⟨[{ first := 0, second := 1, cost := 0 }]⟩
  objective := fitThenMinimizeReuseCostObjective

/-- The free overlap of the only placement is proved infeasible. -/
theorem solve_freeProblem : ¬ Decides freeProblem (solve {} freeProblem) := by
  rintro ⟨-, hnone⟩
  exact hnone (by decide +kernel) (expandReuseNodeSolution freeProblem.search [0, 0])
    (by decide +kernel) (by decide +kernel)

end answers

end PromoteAllSolver

end Dsa
