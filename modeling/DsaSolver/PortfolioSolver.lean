import DsaSolver.CanonicalOptimum
import DsaSolver.CapacityTwoOptimum
import DsaSolver.SpanOneOptimum
import DsaSolver.TreewidthOptimum

/-! # The portfolio of exact solvers

`ReusePenaltyPortfolioSolver` of `reuse_penalty_portfolio_solvers.cpp` asks the specialised solvers
and then the branch and bound, and returns the first answer that is no rejection and no timeout.
Every answer it proves is right, and where all methods run out it keeps the best placement that
any of them found (`portfolio_leastCost`). -/

namespace Dsa

namespace ReusePenaltyPortfolioSolver

structure Options where
  spanOne : SpanOneMinCostFlowSolver.Options := {}
  capacityTwo : CapacityTwoExactSolver.Options := {}
  treewidth : TreewidthPartitionDpSolver.Options := {}
  general : CanonicalBranchAndBoundOptions := {}

structure Method where
  name : String
  solve : DsaProblem → Except Fault DsaResult
  code : UInt64

def methods (random : Shuffler) (options : Options) : List Method :=
  [⟨"span_one_min_cost_flow", SpanOneMinCostFlowSolver.solve options.spanOne, 1⟩,
    ⟨"capacity_two_exact",
      fun problem => .ok (CapacityTwoExactSolver.solve options.capacityTwo problem), 2⟩,
    ⟨"treewidth_partition_dp",
      fun problem => .ok (TreewidthPartitionDpSolver.solve options.treewidth problem), 3⟩,
    ⟨"canonical_branch_and_bound",
      fun problem => .ok (CanonicalBranchAndBoundSolver.solve random options.general problem), 4⟩]

/-- `SolutionScore`. -/
def solutionScore (problem : DsaProblem) (solution : DsaSolution) : List UInt64 :=
  objectiveScore problem (evaluateObjective problem solution)

/-- `timeout_incumbent` and `timeout_score`. -/
structure Incumbent where
  result : DsaResult
  score : List UInt64

/-- What the loop over the methods changes. -/
structure State where
  last : DsaResult := {}
  incumbent : Option Incumbent := none

/-- The branch of a timeout. -/
def noteTimeout (problem : DsaProblem) (method : Method) (state : State) (result : DsaResult) :
    State :=
  match result.solution with
  | none => { state with last := result }
  | some solution =>
      if validateSolution problem solution ≠ [] then { state with last := result }
      else
        let result := { result with objective := evaluateObjective problem solution }
        let score := solutionScore problem solution
        if state.incumbent.all fun incumbent => decide (score < incumbent.score) then
          let result :=
            { result with
              solverMetrics := result.solverMetrics.insert "portfolio_method" method.code }
          { last := result, incumbent := some ⟨result, score⟩ }
        else { state with last := result }

/-- The result of a method that answers. -/
def select (method : Method) (result : DsaResult) : DsaResult :=
  { result with
    solverMetrics := result.solverMetrics.insert "portfolio_method" method.code
    diagnostics := result.diagnostics ++ ["reuse_penalty_portfolio selected " ++ method.name] }

/-- The solver after its loop. -/
def finish (state : State) : DsaResult :=
  match state.incumbent with
  | some incumbent =>
      { incumbent.result with
        diagnostics := incumbent.result.diagnostics ++
          ["reuse_penalty_portfolio exhausted compatible exact methods and retained the best " ++
            "timeout incumbent"] }
  | none =>
      { state.last with
        diagnostics := state.last.diagnostics ++
          ["reuse_penalty_portfolio found no compatible exact method"] }

/-- The loop over the methods. -/
def tryMethods (problem : DsaProblem) : List Method → State → Except Fault DsaResult
  | [], state => .ok (finish state)
  | method :: rest, state => do
      let result ← method.solve problem
      if result.status = .unsupported then tryMethods problem rest { state with last := result }
      else if result.status = .timeout then
        tryMethods problem rest (noteTimeout problem method state result)
      else .ok (select method result)

/-- `ReusePenaltyPortfolioSolver::Solve`. -/
def solve (random : Shuffler) (options : Options) (problem : DsaProblem) :
    Except Fault DsaResult :=
  tryMethods problem (methods random options) {}

variable {problem : DsaProblem}

/-! ### The branch and bound -/

section general

open CanonicalBranchAndBoundSolver

variable {random : Shuffler} {options : CanonicalBranchAndBoundOptions}

theorem general_carries (problem : DsaProblem) (search : ReusePenaltySearchSpace)
    (random : Shuffler) (options : CanonicalBranchAndBoundOptions) :
    CarriesValid problem (solvePrepared random options problem search) := by
  unfold solvePrepared
  dsimp only
  cases (runCanonicalExactSearch problem search
    (searchOptions options search (seedsOf random problem))).offsets with
  | none => exact .of_none rfl
  | some offsets => exact (carriesValid_buildValidated search offsets _).congr rfl rfl

theorem general_cases (problem : DsaProblem) (random : Shuffler)
    (options : CanonicalBranchAndBoundOptions) :
    ((checkSolverCompatibility problem exactCapabilities).compatible = true ∧
        limitation problem = none ∧ problem.search.placement.errors = []) ∧
      CanonicalBranchAndBoundSolver.solve random options problem =
        solvePrepared random options problem problem.search ∨
    ¬((checkSolverCompatibility problem exactCapabilities).compatible = true ∧
        limitation problem = none ∧ problem.search.placement.errors = []) ∧
      Refused problem (CanonicalBranchAndBoundSolver.solve random options problem) := by
  unfold CanonicalBranchAndBoundSolver.solve
  cases hcompatible : (checkSolverCompatibility problem exactCapabilities).compatible with
  | false => exact .inr ⟨fun hall => absurd hall.1 (by decide), refused_rejectUnsupported ..⟩
  | true =>
      rw [Bool.not_true, if_neg Bool.false_ne_true]
      cases hlimitation : limitation problem with
      | some reason => exact .inr ⟨fun hall => absurd hall.2.1 (by simp), .unsupported rfl rfl⟩
      | none =>
          dsimp only
          rw [buildSearch_eq]
          by_cases herrors : problem.search.placement.errors = []
          · rw [if_neg (not_not.mpr herrors)]
            exact .inl ⟨⟨rfl, rfl, herrors⟩, rfl⟩
          · rw [if_pos herrors]
            exact .inr ⟨fun hall => herrors hall.2.2, .invalid rfl rfl (.inr herrors)⟩

/-- The best placement of every pool has the least reuse cost, saturated or not. -/
theorem general_leastCost (h : SearchOk problem) (hlimitation : limitation problem = none)
    (hreuse : .reuseCost ∈ problem.objective.terms) :
    ProvesLeastCost problem (solvePrepared random options problem problem.search) ∧
      (options.maxSearchNodes = 0 →
        (solvePrepared random options problem problem.search).status = .feasible ∨
          (solvePrepared random options problem problem.search).status = .infeasibleProven) := by
  have hcarries := general_carries problem problem.search random options
  cases @solvePrepared_end problem random options h with
  | undecided hfeasible hinfeasible hlimited =>
      exact ⟨.of_status hfeasible hinfeasible, fun hzero => absurd hzero hlimited⟩
  | infeasible hstatus hnone =>
      refine ⟨⟨fun hyes => absurd (hstatus.symm.trans hyes) (by decide), fun _ other hother => ?_⟩,
        fun _ => .inr hstatus⟩
      obtain ⟨offsets, -, hfind⟩ := exists_offsets h hother
      rw [validateSolution_congr hfind, validateSolution_expand_iff h] at hother
      exact hnone offsets hother
  | optimal offsets hstatus hsome hvalid hbest =>
      refine ⟨⟨fun _ => ⟨_, hsome, (hcarries _ hsome).1, (hcarries _ hsome).2, fun other hother => ?_⟩,
        fun hno => absurd (hstatus.symm.trans hno) (by decide)⟩, fun _ => .inl hstatus⟩
      obtain ⟨own, -, hfind⟩ := exists_offsets h hother
      rw [validateSolution_congr hfind] at hother
      rw [evaluateObjective_congr hfind]
      have hcheapest := cheapest_of_best h (costFirst_of_limitation hlimitation) hreuse hbest
      refine (@Theory.Sat.le_iff_val ⟨(evaluateObjective problem _).reuseCost⟩
        ⟨(evaluateObjective problem _).reuseCost⟩).mp ?_
      rw [reuseCost_eq_sum h hvalid,
        reuseCost_eq_sum h ((validateSolution_expand_iff h own).mp hother)]
      exact List.sum_le_sum fun pool hpool => hcheapest own hother pool hpool

end general

/-! ### The methods -/

/-- The solver goes on to the next method. -/
def Inconclusive (result : DsaResult) : Prop :=
  result.status = .unsupported ∨ result.status = .timeout

/-- What the portfolio relies on; a limited branch and bound may reject its own incumbent. -/
structure MethodOk (problem : DsaProblem) (options : Options) (result : DsaResult) : Prop where
  proves : ProvesLeastCost problem result
  carries : CarriesValid problem result
  ended : options.general.maxSearchNodes = 0 → result.status ≠ .bestEffortNoFit ∧
    (result.status = .invalidProblem →
      validateProblem problem ≠ [] ∨ problem.search.placement.errors ≠ [])

variable {options : Options}

theorem methodOk_of_refused {result : DsaResult} (h : Refused problem result) :
    MethodOk problem options result := ⟨h.proves, h.carriesValid, fun _ => ⟨h.status_ne.2, h.reason⟩⟩

theorem spanOne_ok {result : DsaResult}
    (hresult : SpanOneMinCostFlowSolver.solve options.spanOne problem = .ok result) :
    MethodOk problem options result := by
  rcases SpanOneMinCostFlowSolver.solve_cases problem options.spanOne with
    ⟨⟨hcompatible, -, herrors⟩, heq⟩ | ⟨-, other, hother, hrefused⟩
  · have h := searchOk_of_compatible hcompatible rfl rfl herrors
    rw [heq] at hresult
    have hcarries := SpanOneMinCostFlowSolver.solvePrepared_carries hresult
    rcases @SpanOneMinCostFlowSolver.solvePrepared_end problem options.spanOne h with
      ⟨other, hother, hproves, -, hinvalid, -⟩ | ⟨hother, -⟩
    · obtain rfl := Except.ok.inj (hother.symm.trans hresult)
      exact ⟨hproves, hcarries, fun _ => ⟨hinvalid.2, fun hstatus => absurd hstatus hinvalid.1⟩⟩
    · rw [hother] at hresult
      cases hresult
  · obtain rfl := Except.ok.inj (hother.symm.trans hresult)
    exact methodOk_of_refused hrefused

theorem capacityTwo_ok (hreuse : .reuseCost ∈ problem.objective.terms) :
    MethodOk problem options (CapacityTwoExactSolver.solve options.capacityTwo problem) := by
  rcases CapacityTwoExactSolver.solve_cases problem options.capacityTwo with
    ⟨⟨hcompatible, herrors, hshape⟩, heq⟩ | ⟨-, hrefused⟩
  · have h := searchOk_of_compatible hcompatible rfl rfl herrors
    obtain ⟨hproves, hinvalid, -⟩ :=
      @CapacityTwoExactSolver.solvePrepared_end problem options.capacityTwo h hshape hreuse
    rw [heq]
    exact ⟨hproves, CapacityTwoExactSolver.solvePrepared_carries problem problem.search _,
      fun _ => ⟨hinvalid.2, fun hstatus => absurd hstatus hinvalid.1⟩⟩
  · exact methodOk_of_refused hrefused

theorem treewidth_ok (hsmall : problem.buffers.length ≤ 4294967295) :
    MethodOk problem options (TreewidthPartitionDpSolver.solve options.treewidth problem) := by
  rcases TreewidthPartitionDpSolver.solve_cases problem options.treewidth with
    ⟨⟨hcompatible, -, herrors⟩, heq⟩ | ⟨-, hrefused⟩
  · have h := searchOk_of_compatible hcompatible rfl rfl herrors
    obtain ⟨hproves, hinvalid, -⟩ :=
      @TreewidthPartitionDpSolver.solvePrepared_end problem options.treewidth h hsmall
    rw [heq]
    exact ⟨hproves, TreewidthPartitionDpSolver.solvePrepared_carries problem problem.search _,
      fun _ => ⟨hinvalid.2, fun hstatus => absurd hstatus hinvalid.1⟩⟩
  · exact methodOk_of_refused hrefused

theorem general_ok (hreuse : .reuseCost ∈ problem.objective.terms) (random : Shuffler) :
    MethodOk problem options
      (CanonicalBranchAndBoundSolver.solve random options.general problem) := by
  rcases general_cases problem random options.general with
    ⟨⟨hcompatible, hlimitation, herrors⟩, heq⟩ | ⟨-, hrefused⟩
  · have h := searchOk_of_compatible hcompatible rfl rfl herrors
    obtain ⟨hproves, hanswers⟩ := @general_leastCost problem random options.general h hlimitation hreuse
    rw [heq]
    refine ⟨hproves, general_carries problem problem.search random _, fun hzero => ?_⟩
    rcases hanswers hzero with hyes | hno
    · exact ⟨by rw [hyes]; decide, fun hstatus => absurd (hyes.symm.trans hstatus) (by decide)⟩
    · exact ⟨by rw [hno]; decide, fun hstatus => absurd (hno.symm.trans hstatus) (by decide)⟩
  · exact methodOk_of_refused hrefused

theorem methods_ok (hreuse : .reuseCost ∈ problem.objective.terms)
    (hsmall : problem.buffers.length ≤ 4294967295) (random : Shuffler) {method : Method}
    (hmethod : method ∈ methods random options) {result : DsaResult}
    (hresult : method.solve problem = .ok result) : MethodOk problem options result := by
  simp only [methods, List.mem_cons, List.not_mem_nil, or_false] at hmethod
  rcases hmethod with rfl | rfl | rfl | rfl
  · exact spanOne_ok hresult
  · rw [← Except.ok.inj hresult]
    exact capacityTwo_ok hreuse
  · rw [← Except.ok.inj hresult]
    exact treewidth_ok hsmall
  · rw [← Except.ok.inj hresult]
    exact general_ok hreuse random

/-! ### The loop -/

/-- What holds after the methods that were tried. -/
structure Tried (problem : DsaProblem) (done : List Method) (state : State) : Prop where
  inconclusive : ∀ method ∈ done, ∃ result, method.solve problem = .ok result ∧ Inconclusive result
  last : Inconclusive state.last ∧ CarriesValid problem state.last
  incumbent : ∀ incumbent, state.incumbent = some incumbent → incumbent.result.status = .timeout ∧
    CarriesValid problem incumbent.result ∧ ∃ solution,
      incumbent.result.solution = some solution ∧ incumbent.score = solutionScore problem solution
  best : ∀ method ∈ done, ∀ result, method.solve problem = .ok result → result.status = .timeout →
    ∀ solution, result.solution = some solution → ∃ incumbent, state.incumbent = some incumbent ∧
      incumbent.score ≤ solutionScore problem solution

theorem tried_start : Tried problem [] {} where
  inconclusive _ hmethod := (List.not_mem_nil hmethod).elim
  last := ⟨.inl rfl, .of_none rfl⟩
  incumbent _ hnone := by cases hnone
  best _ hmethod := (List.not_mem_nil hmethod).elim

/-- A method that rejects the problem. -/
theorem Tried.unsupported {done : List Method} {state : State} (h : Tried problem done state)
    {method : Method} {result : DsaResult} (hresult : method.solve problem = .ok result)
    (hstatus : result.status = .unsupported) (hcarries : CarriesValid problem result) :
    Tried problem (done ++ [method]) { state with last := result } := by
  refine ⟨fun other hother => ?_, ⟨.inl hstatus, hcarries⟩, h.incumbent,
    fun other hother own hown htimeout => ?_⟩
  · rcases List.mem_append.mp hother with hother | hother
    · exact h.inconclusive other hother
    · rw [List.mem_singleton.mp hother]
      exact ⟨result, hresult, .inl hstatus⟩
  · rcases List.mem_append.mp hother with hother | hother
    · exact h.best other hother own hown htimeout
    · rw [List.mem_singleton.mp hother] at hown
      obtain rfl := Except.ok.inj (hresult.symm.trans hown)
      exact absurd (hstatus.symm.trans htimeout) (by decide)

/-- A method that times out; its placement replaces a worse one. -/
theorem Tried.timeout {done : List Method} {state : State} (h : Tried problem done state)
    {method : Method} {result : DsaResult} (hresult : method.solve problem = .ok result)
    (hstatus : result.status = .timeout) (hcarries : CarriesValid problem result) :
    Tried problem (done ++ [method]) (noteTimeout problem method state result) := by
  have hinconclusive : ∀ other ∈ done ++ [method], ∃ own, other.solve problem = .ok own ∧
      Inconclusive own := by
    intro other hother
    rcases List.mem_append.mp hother with hother | hother
    · exact h.inconclusive other hother
    · rw [List.mem_singleton.mp hother]
      exact ⟨result, hresult, .inr hstatus⟩
  have hbest : ∀ next : Option Incumbent,
      (∀ solution, result.solution = some solution → ∃ incumbent, next = some incumbent ∧
        incumbent.score ≤ solutionScore problem solution) →
      (∀ incumbent, state.incumbent = some incumbent → ∃ better, next = some better ∧
        better.score ≤ incumbent.score) →
      ∀ other ∈ done ++ [method], ∀ own, other.solve problem = .ok own → own.status = .timeout →
        ∀ solution, own.solution = some solution → ∃ incumbent, next = some incumbent ∧
          incumbent.score ≤ solutionScore problem solution := by
    intro next hnew hkept other hother own hown htimeout solution hsolution
    rcases List.mem_append.mp hother with hother | hother
    · obtain ⟨incumbent, hincumbent, hle⟩ := h.best other hother own hown htimeout solution hsolution
      obtain ⟨better, hbetter, hbetterLe⟩ := hkept incumbent hincumbent
      exact ⟨better, hbetter, hbetterLe.trans hle⟩
    · rw [List.mem_singleton.mp hother] at hown
      obtain rfl := Except.ok.inj (hresult.symm.trans hown)
      exact hnew solution hsolution
  unfold noteTimeout
  cases hsolution : result.solution with
  | none =>
      refine ⟨hinconclusive, ⟨.inr hstatus, hcarries⟩, h.incumbent, hbest _ (fun solution hsome => ?_)
        fun incumbent hincumbent => ⟨incumbent, hincumbent, le_rfl⟩⟩
      rw [hsolution] at hsome
      cases hsome
  | some solution =>
      obtain ⟨hvalid, hobjective⟩ := hcarries solution hsolution
      dsimp only
      rw [if_neg (not_not.mpr hvalid)]
      have hown : ∀ metrics, CarriesValid problem
          { result with
            solution := some solution
            objective := evaluateObjective problem solution
            solverMetrics := metrics } := fun _ => hcarries.congr hsolution.symm hobjective.symm
      by_cases hbetter : (state.incumbent.all fun incumbent =>
          decide (solutionScore problem solution < incumbent.score)) = true
      · rw [if_pos hbetter]
        refine ⟨hinconclusive, ⟨.inr hstatus, hown _⟩, fun incumbent hincumbent => ?_,
          hbest _ (fun other hother => ?_) fun incumbent hincumbent => ?_⟩
        · obtain rfl := Option.some.inj hincumbent
          exact ⟨hstatus, hown _, solution, rfl, rfl⟩
        · obtain rfl := Option.some.inj (hsolution.symm.trans hother)
          exact ⟨_, rfl, le_rfl⟩
        · rw [hincumbent, Option.all_some, decide_eq_true_iff] at hbetter
          exact ⟨_, rfl, hbetter.le⟩
      · rw [if_neg hbetter]
        refine ⟨hinconclusive, ⟨.inr hstatus, hown _⟩, h.incumbent,
          hbest _ (fun other hother => ?_) fun incumbent hincumbent =>
            ⟨incumbent, hincumbent, le_rfl⟩⟩
        obtain rfl := Option.some.inj (hsolution.symm.trans hother)
        dsimp only
        cases hincumbent : state.incumbent with
        | none =>
            rw [hincumbent] at hbetter
            exact absurd rfl hbetter
        | some incumbent =>
            rw [hincumbent, Option.all_some, decide_eq_true_iff] at hbetter
            exact ⟨incumbent, rfl, not_lt.mp hbetter⟩

/-- The ends of the loop. -/
inductive RunEnd (problem : DsaProblem) (all : List Method) : Except Fault DsaResult → Prop
  | selected (before after : List Method) (method : Method) (own : DsaResult)
      (split : all = before ++ method :: after)
      (earlier : ∀ other ∈ before, ∃ result, other.solve problem = .ok result ∧ Inconclusive result)
      (own_eq : method.solve problem = .ok own) (conclusive : ¬ Inconclusive own) :
      RunEnd problem all (.ok (select method own))
  | exhausted (state : State) (tried : Tried problem all state) :
      RunEnd problem all (.ok (finish state))
  | fault (method : Method) (mem : method ∈ all) (what : Fault)
      (failed : method.solve problem = .error what) : RunEnd problem all (.error what)

theorem tryMethods_end {all : List Method} (hcarries : ∀ method ∈ all, ∀ result,
      method.solve problem = .ok result → CarriesValid problem result)
    {done rest : List Method} (hall : all = done ++ rest) {state : State}
    (htried : Tried problem done state) : RunEnd problem all (tryMethods problem rest state) := by
  induction rest generalizing done state with
  | nil =>
      refine .exhausted state ?_
      rwa [hall, List.append_nil]
  | cons method rest ih =>
      have hmem : method ∈ all := by
        rw [hall]
        exact List.mem_append_right _ List.mem_cons_self
      have hnext : all = (done ++ [method]) ++ rest := by
        rw [hall, List.append_assoc, List.singleton_append]
      unfold tryMethods
      cases hresult : method.solve problem with
      | error what => exact .fault method hmem what hresult
      | ok result =>
          rw [Theory.ok_bind]
          by_cases hunsupported : result.status = .unsupported
          · rw [if_pos hunsupported]
            exact ih hnext (htried.unsupported hresult hunsupported (hcarries method hmem _ hresult))
          · rw [if_neg hunsupported]
            by_cases htimeout : result.status = .timeout
            · rw [if_pos htimeout]
              exact ih hnext (htried.timeout hresult htimeout (hcarries method hmem _ hresult))
            · rw [if_neg htimeout]
              exact .selected done rest method result hall htried.inconclusive hresult
                (not_or.mpr ⟨hunsupported, htimeout⟩)

/-- The loop fails only where the `int` of the span-one solver overflows. -/
theorem fault_span {random : Shuffler} {method : Method} (hmem : method ∈ methods random options)
    {what : Fault} (hfailed : method.solve problem = .error what) :
    maxInt < 2 * options.spanOne.maxPhaseBuffers + 2 := by
  simp only [methods, List.mem_cons, List.not_mem_nil, or_false] at hmem
  rcases hmem with rfl | rfl | rfl | rfl
  · rcases SpanOneMinCostFlowSolver.solve_cases problem options.spanOne with
      ⟨⟨hcompatible, -, herrors⟩, heq⟩ | ⟨-, result, hresult, -⟩
    · have h := searchOk_of_compatible hcompatible rfl rfl herrors
      rcases @SpanOneMinCostFlowSolver.solvePrepared_end problem options.spanOne h with
        ⟨result, hresult, -⟩ | ⟨-, hlarge⟩
      · rw [← heq] at hresult
        exact absurd (hresult.symm.trans hfailed) (by simp)
      · exact hlarge.lt h
    · exact absurd (hresult.symm.trans hfailed) (by simp)
  · cases hfailed
  · cases hfailed
  · cases hfailed

/-- **The portfolio is exact.**  A proved answer is right, whichever method gave it; every
placement it returns is valid; the answer is that of the first method that decides; where all
methods run out, no placement that one of them found is better; and with an unlimited branch and
bound it answers every problem that this one takes. -/
theorem portfolio_leastCost (hreuse : .reuseCost ∈ problem.objective.terms)
    (hsmall : problem.buffers.length ≤ 4294967295) (random : Shuffler) (options : Options) :
    (∀ result, solve random options problem = .ok result →
      ProvesLeastCost problem result ∧ CarriesValid problem result ∧
      (¬ Inconclusive result → ∃ before method after own,
        methods random options = before ++ method :: after ∧
        (∀ other ∈ before, ∃ early, other.solve problem = .ok early ∧ Inconclusive early) ∧
        method.solve problem = .ok own ∧ result = select method own) ∧
      (Inconclusive result → ∀ method ∈ methods random options, ∃ own,
        method.solve problem = .ok own ∧ Inconclusive own ∧
        (own.status = .timeout → ∀ other, own.solution = some other → result.status = .timeout ∧
          ∃ solution, result.solution = some solution ∧
            solutionScore problem solution ≤ solutionScore problem other)) ∧
      (options.general.maxSearchNodes = 0 → validateProblem problem = [] →
        (checkSolverCompatibility problem exactCapabilities).compatible = true →
        CanonicalBranchAndBoundSolver.limitation problem = none →
        problem.search.placement.errors = [] →
          result.status = .feasible ∨ result.status = .infeasibleProven)) ∧
    (2 * options.spanOne.maxPhaseBuffers + 2 ≤ maxInt →
      ∃ result, solve random options problem = .ok result) := by
  have hok : ∀ method ∈ methods random options, ∀ result, method.solve problem = .ok result →
      MethodOk problem options result := fun method hmethod result hresult =>
    methods_ok hreuse hsmall random hmethod hresult
  have hend := tryMethods_end (fun method hmethod result hresult =>
    (hok method hmethod result hresult).carries) (List.nil_append _).symm tried_start
  unfold solve
  generalize tryMethods problem (methods random options) {} = outcome at hend
  cases hend with
  | fault method hmem what hfailed =>
      refine ⟨fun result heq => ?_, fun hle => absurd (fault_span hmem hfailed) (not_lt.mpr hle)⟩
      cases heq
  | selected before after method own hsplit hearlier hown hconclusive =>
      refine ⟨fun result heq => ?_, fun _ => ⟨_, rfl⟩⟩
      obtain rfl := Except.ok.inj heq
      have hmethod := hok method (by
        rw [hsplit]
        exact List.mem_append_right _ List.mem_cons_self) own hown
      refine ⟨hmethod.proves, hmethod.carries,
        fun _ => ⟨before, method, after, own, hsplit, hearlier, hown, rfl⟩,
        fun hinconclusive => absurd hinconclusive hconclusive, fun hzero hvalid _ _ herrors => ?_⟩
      have hinvalid : own.status ≠ .invalidProblem := fun hstatus =>
        ((hmethod.ended hzero).2 hstatus).elim (fun hne => hne hvalid) fun hne => hne herrors
      cases hstatus : own.status with
      | feasible => exact .inl hstatus
      | infeasibleProven => exact .inr hstatus
      | bestEffortNoFit => exact absurd hstatus (hmethod.ended hzero).1
      | invalidProblem => exact absurd hstatus hinvalid
      | unsupported => exact absurd (.inl hstatus) hconclusive
      | timeout => exact absurd (.inr hstatus) hconclusive
  | exhausted state htried =>
      refine ⟨fun result heq => ?_, fun _ => ⟨_, rfl⟩⟩
      obtain rfl := Except.ok.inj heq
      have hfinish : Inconclusive (finish state) ∧ CarriesValid problem (finish state) := by
        unfold finish
        cases hincumbent : state.incumbent with
        | none => exact ⟨htried.last.1, htried.last.2.congr rfl rfl⟩
        | some incumbent =>
            obtain ⟨hstatus, hcarries, -⟩ := htried.incumbent incumbent hincumbent
            exact ⟨.inr hstatus, hcarries.congr rfl rfl⟩
      obtain ⟨hinconclusive, hcarries⟩ := hfinish
      refine ⟨.of_status ?_ ?_, hcarries, fun hconclusive => absurd hinconclusive hconclusive,
        fun _ method hmethod => ?_, fun hzero hvalid hcompatible hlimitation herrors => ?_⟩
      · rcases hinconclusive with hstatus | hstatus
        · rw [hstatus]
          decide
        · rw [hstatus]
          decide
      · rcases hinconclusive with hstatus | hstatus
        · rw [hstatus]
          decide
        · rw [hstatus]
          decide
      · obtain ⟨own, hown, howns⟩ := htried.inconclusive method hmethod
        refine ⟨own, hown, howns, fun htimeout other hother => ?_⟩
        obtain ⟨incumbent, hincumbent, hle⟩ :=
          htried.best method hmethod own hown htimeout other hother
        obtain ⟨hstatus, -, solution, hsolution, hscore⟩ := htried.incumbent incumbent hincumbent
        unfold finish
        rw [hincumbent]
        exact ⟨hstatus, solution, hsolution, hscore ▸ hle⟩
      · -- the branch and bound, unlimited, is conclusive
        have h := searchOk_of_compatible hcompatible rfl rfl herrors
        obtain ⟨own, hown, howns⟩ := htried.inconclusive
          ⟨"canonical_branch_and_bound", fun problem =>
            .ok (CanonicalBranchAndBoundSolver.solve random options.general problem), 4⟩
          (by simp [methods])
        obtain rfl := Except.ok.inj hown
        have hanswers := (@general_leastCost problem random options.general h hlimitation hreuse).2
          hzero
        rw [← CanonicalBranchAndBoundSolver.solve_eq hcompatible hlimitation herrors] at hanswers
        rcases howns with hstatus | hstatus
        · rcases hanswers with hyes | hno
          · exact absurd (hyes.symm.trans hstatus) (by decide)
          · exact absurd (hno.symm.trans hstatus) (by decide)
        · rcases hanswers with hyes | hno
          · exact absurd (hyes.symm.trans hstatus) (by decide)
          · exact absurd (hno.symm.trans hstatus) (by decide)

/-- The span-one solver answers for the pair, at no cost. -/
theorem portfolio_leastCost_pairProblem : ∃ result,
    solve CanonicalGreedySolver.keepOrder {} pairProblem = .ok result ∧
      result.status = .feasible ∧ ProvesLeastCost pairProblem result ∧
        CarriesValid pairProblem result := by
  have hanswers := @portfolio_leastCost pairProblem (by decide) (by decide)
    CanonicalGreedySolver.keepOrder {}
  obtain ⟨result, hresult⟩ := hanswers.2 (by decide)
  have hstatus : (solve CanonicalGreedySolver.keepOrder {} pairProblem).map DsaResult.status =
      .ok .feasible := by decide +kernel
  rw [hresult] at hstatus
  exact ⟨result, hresult, Except.ok.inj hstatus, (hanswers.1 result hresult).1,
    (hanswers.1 result hresult).2.1⟩

end ReusePenaltyPortfolioSolver

end Dsa
