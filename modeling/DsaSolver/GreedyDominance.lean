import DsaSolver.CanonicalGreedy

/-! # Dominance of the canonical greedy solver

The loop over the orders keeps a valid incumbent (`StateOk`) whose score only improves
(`grows_tryOrder`).  The incumbent starts at a feasible result of first fit, and the orders of
fewer restarts are a prefix of those of more (`canonicalGreedyOrders_prefix`). -/

namespace Dsa

/-! ### Search spaces of problems that first fit places -/

section prepared

variable {problem : DsaProblem}

theorem prepare_of_feasible {priority : List BufferId} {strategy : PlacementStrategy}
    (h : (placeWithOrder problem priority strategy).status = .feasible) :
    (prepare problem).errors = [] ∧ (prepare problem).flexiblePools = false := by
  unfold placeWithOrder at h
  dsimp only at h
  split_ifs at h with herrors hflexible
  exact ⟨not_not.mp herrors, Bool.not_eq_true _ ▸ hflexible⟩

theorem search_of_prepare (herrors : (prepare problem).errors = [])
    (hflexible : (prepare problem).flexiblePools = false) :
    (buildReusePenaltySearchSpace problem).placement.errors = [] ∧
      (buildReusePenaltySearchSpace problem).placement.flexiblePools = false := by
  have hplacement : (buildReusePenaltySearchSpace problem).placement =
      buildPlacementSearchSpace problem := by
    unfold buildReusePenaltySearchSpace
    dsimp only
    split_ifs <;> rfl
  have hclean : ¬((prepare problem).errors ≠ [] ∨ (prepare problem).flexiblePools = true) := by
    rw [herrors, hflexible]
    simp
  rw [hplacement]
  unfold buildPlacementSearchSpace
  dsimp only
  rw [if_neg hclean]
  exact ⟨rfl, rfl⟩

/-- A result that passed the checks at its end. -/
theorem buildValidatedReuseResult_feasible {search : ReusePenaltySearchSpace}
    {offsets : List UInt64}
    (h : (buildValidatedReuseResult problem search offsets .feasible).status = .feasible) :
    ∃ solution, (buildValidatedReuseResult problem search offsets .feasible).solution =
        some solution ∧ validateSolution problem solution = [] ∧
      (buildValidatedReuseResult problem search offsets .feasible).objective =
        evaluateObjective problem solution := by
  unfold buildValidatedReuseResult at h ⊢
  dsimp only at h ⊢
  split_ifs at h ⊢ with herrors
  exact ⟨_, rfl, not_not.mp herrors, rfl⟩

end prepared

/-! ### Prefixes of orders -/

section orders

theorem keepFirst_prefix {α : Type*} [BEq α] (first second : List α) :
    keepFirst first <+: keepFirst (first ++ second) := by
  unfold keepFirst
  rw [List.foldl_append]
  generalize first.foldl (fun unique order =>
    if unique.contains order then unique else unique ++ [order]) [] = unique
  induction second generalizing unique with
  | nil => exact List.prefix_refl unique
  | cons order rest ih =>
      rw [List.foldl_cons]
      split_ifs
      · exact ih unique
      · exact (List.prefix_append unique [order]).trans (ih _)

theorem restartOrders_prefix (random : Shuffler) {restarts restarts' : ℕ}
    (h : restarts ≤ restarts') (nodes : List ℕ) (engine : random.Engine) :
    restartOrders random restarts nodes engine <+: restartOrders random restarts' nodes engine := by
  induction restarts generalizing restarts' nodes engine with
  | zero => exact List.nil_prefix
  | succ restarts ih =>
      obtain ⟨more, rfl⟩ : ∃ more, restarts' = more + 1 := ⟨restarts' - 1, by omega⟩
      unfold restartOrders
      exact (List.prefix_cons_inj _).mpr (ih (by omega) _ _)

/-- The orders of fewer restarts come first. -/
theorem canonicalGreedyOrders_prefix (random : Shuffler) (problem : DsaProblem)
    (search : ReusePenaltySearchSpace) (seed : UInt64) {restarts restarts' : UInt64}
    (h : restarts ≤ restarts') :
    canonicalGreedyOrders random problem search ⟨seed, restarts⟩ <+:
      canonicalGreedyOrders random problem search ⟨seed, restarts'⟩ := by
  obtain ⟨more, hmore⟩ := restartOrders_prefix random (UInt64.le_iff_toNat_le.mp h)
    (softWeightOrder problem search) (random.seeded seed)
  unfold canonicalGreedyOrders
  dsimp only
  rw [← hmore, ← List.append_assoc]
  exact keepFirst_prefix _ more

end orders

namespace CanonicalGreedySolver

/-! ### The incumbent -/

section incumbent

variable {problem : DsaProblem} {search : ReusePenaltySearchSpace}

/-- The incumbent, when there is one, is valid and scored; otherwise nothing is feasible. -/
structure StateOk (problem : DsaProblem) (state : State) : Prop where
  kept : ∀ solution, state.result.solution = some solution → state.result.status = .feasible ∧
    validateSolution problem solution = [] ∧
      state.result.objective = evaluateObjective problem solution ∧
        state.bestScore = objectiveScore problem state.result.objective
  empty : state.result.solution = none → state.result.status ≠ .feasible

/-- What the loop keeps, as an incumbent. -/
def State.view (state : State) : Theory.Incumbent (List UInt64) :=
  ⟨state.done, state.result.solution.map fun _ => state.bestScore⟩

/-- An iteration skips the order, or considers a placement that passed the checks. -/
theorem tryOrder_cases (problem : DsaProblem) (search : ReusePenaltySearchSpace) (state : State)
    (entry : List ℕ × ℕ) :
    (tryOrder problem search state entry).result = state.result ∧
      (tryOrder problem search state entry).bestScore = state.bestScore ∧
      (state.done = true → (tryOrder problem search state entry).done = true) ∨
    state.done = false ∧ ∃ candidate solution, candidate.status = SolveStatus.feasible ∧
      candidate.solution = some solution ∧ validateSolution problem solution = [] ∧
      candidate.objective = evaluateObjective problem solution ∧
      (tryOrder problem search state entry).result =
        (state.consider problem candidate entry.2).result ∧
      (tryOrder problem search state entry).bestScore =
        (state.consider problem candidate entry.2).bestScore := by
  unfold tryOrder
  dsimp only
  split_ifs with hdone hlength hcomplete hstatus
  · exact .inl ⟨rfl, rfl, id⟩
  · exact .inl ⟨rfl, rfl, id⟩
  · exact .inl ⟨rfl, rfl, id⟩
  · exact .inl ⟨rfl, rfl, id⟩
  · rw [bne_iff_ne, not_not] at hstatus
    obtain ⟨solution, hsolution, hvalid, hobjective⟩ := buildValidatedReuseResult_feasible hstatus
    refine .inr ⟨Bool.not_eq_true _ ▸ hdone, _, solution, hstatus, hsolution, hvalid, hobjective,
      ?_, ?_⟩
    all_goals
      unfold State.consider
      dsimp only
      split_ifs <;> rfl

/-- The candidate is taken, or the incumbent stays and is not worse. -/
theorem consider_cases (problem : DsaProblem) (state : State) (candidate : DsaResult) (index : ℕ) :
    (state.consider problem candidate index).result = candidate ∧
        (state.consider problem candidate index).bestScore =
          objectiveScore problem candidate.objective ∧
        (state.result.solution = none ∨
          objectiveScore problem candidate.objective ≤ state.bestScore) ∨
      (state.consider problem candidate index).result = state.result ∧
        (state.consider problem candidate index).bestScore = state.bestScore ∧
        state.result.solution ≠ none := by
  unfold State.consider
  dsimp only
  split_ifs with htake
  · refine .inl ⟨rfl, rfl, ?_⟩
    rw [Bool.or_eq_true, Bool.or_eq_true, Option.isNone_iff_eq_none, decide_eq_true_eq,
      Bool.and_eq_true, beq_iff_eq] at htake
    rcases htake with (hnone | hlt) | ⟨-, heq⟩
    · exact .inl hnone
    · exact .inr (le_of_lt hlt)
    · exact .inr (le_of_eq heq)
  · refine .inr ⟨rfl, rfl, fun hnone => htake ?_⟩
    rw [hnone]
    rfl

/-- The step lemma. -/
theorem StateOk.tryOrder {state : State} (h : StateOk problem state) (entry : List ℕ × ℕ) :
    StateOk problem (tryOrder problem search state entry) := by
  obtain ⟨hresult, hscore, -⟩ |
      ⟨-, candidate, solution, hstatus, hsolution, hvalid, hobjective, hresult, hscore⟩ :=
    tryOrder_cases problem search state entry
  · constructor
    · rw [hresult, hscore]
      exact h.kept
    · rw [hresult]
      exact h.empty
  · obtain ⟨htaken, htakenScore, -⟩ | ⟨hkept, hkeptScore, -⟩ :=
      consider_cases problem state candidate entry.2
    · rw [htaken] at hresult
      rw [htakenScore] at hscore
      constructor
      · rw [hresult, hscore, hsolution]
        rintro _ ⟨⟩
        exact ⟨hstatus, hvalid, hobjective, rfl⟩
      · rw [hresult, hsolution]
        exact fun hnone => absurd hnone (Option.some_ne_none solution)
    · rw [hkept] at hresult
      rw [hkeptScore] at hscore
      constructor
      · rw [hresult, hscore]
        exact h.kept
      · rw [hresult]
        exact h.empty

/-- An iteration never loses or worsens the incumbent. -/
theorem grows_tryOrder (state : State) (entry : List ℕ × ℕ) :
    Theory.Grows state.view (CanonicalGreedySolver.tryOrder problem search state entry).view := by
  obtain ⟨hresult, hsame, hdone⟩ | ⟨hrunning, candidate, solution, -, hsolution, -, -, hresult,
      hnew⟩ := tryOrder_cases problem search state entry
  · refine ⟨hdone, fun score hscore => ⟨score, ?_, le_rfl⟩⟩
    unfold State.view at hscore ⊢
    dsimp only at hscore ⊢
    rw [hresult, hsame, hscore]
  · refine ⟨fun hdone => absurd (hrunning.symm.trans hdone) Bool.false_ne_true,
      fun score hscore => ?_⟩
    obtain ⟨old, hold, hbest⟩ := Option.map_eq_some_iff.mp hscore
    unfold State.view
    dsimp only
    obtain ⟨htaken, htakenScore, hle⟩ | ⟨hkept, hkeptScore, -⟩ :=
      consider_cases problem state candidate entry.2
    · rw [hresult, hnew, htaken, htakenScore, hsolution]
      refine ⟨_, rfl, ?_⟩
      rw [← hbest]
      exact hle.resolve_left (hold ▸ Option.some_ne_none old)
    · rw [hresult, hnew, hkept, hkeptScore, hold]
      exact ⟨state.bestScore, rfl, le_of_eq hbest⟩

/-! ### The run -/

theorem stateOk_foldl {state : State} (h : StateOk problem state) (entries : List (List ℕ × ℕ)) :
    StateOk problem
      (entries.foldl (CanonicalGreedySolver.tryOrder problem search) state) := by
  induction entries generalizing state with
  | nil => exact h
  | cons entry rest ih => exact ih (h.tryOrder entry)

theorem initialState_ok (problem : DsaProblem) : StateOk problem (initialState problem) := by
  unfold initialState firstFitSeedFeasible
  split_ifs with hseed
  · rw [Bool.and_eq_true, beq_iff_eq] at hseed
    obtain ⟨solution, hsolution, hvalid, hobjective⟩ := FirstFitSolver.solve_feasible hseed.1
    constructor
    · dsimp only
      rw [hsolution]
      rintro _ ⟨⟩
      exact ⟨hseed.1, hvalid, hobjective, rfl⟩
    · dsimp only
      rw [hsolution]
      exact fun hnone => absurd hnone (Option.some_ne_none solution)
  · constructor
    · intro solution hsolution
      cases hsolution
    · intro _ hstatus
      cases hstatus

theorem run_ok (random : Shuffler) (problem : DsaProblem) (options : CanonicalGreedyOptions) :
    StateOk problem (run random problem options) := stateOk_foldl (initialState_ok problem) _

/-- The run only improves on its start. -/
theorem grows_run (random : Shuffler) (problem : DsaProblem) (options : CanonicalGreedyOptions) :
    Theory.Grows (initialState problem).view (run random problem options).view :=
  Theory.grows_foldl State.view grows_tryOrder _ _

/-- More restarts only improve on fewer. -/
theorem grows_restarts (random : Shuffler) (problem : DsaProblem) (seed : UInt64)
    {restarts restarts' : UInt64} (h : restarts ≤ restarts') :
    Theory.Grows (run random problem ⟨seed, restarts⟩).view
      (run random problem ⟨seed, restarts'⟩).view := by
  obtain ⟨more, hmore⟩ := canonicalGreedyOrders_prefix random problem
    (buildReusePenaltySearchSpace problem) seed h
  unfold run
  dsimp only
  rw [← hmore, List.zipIdx_append, List.foldl_append]
  exact Theory.grows_foldl State.view grows_tryOrder _ _

/-- The result of the solver is feasible when the run has an incumbent, and is the incumbent. -/
theorem finishSolve_spec (problem : DsaProblem) (search : ReusePenaltySearchSpace)
    (options : CanonicalGreedyOptions) {state : State}
    (h : StateOk problem state) :
    ((finishSolve problem search options state).status = .feasible ↔
        state.result.solution.isSome) ∧
      (finishSolve problem search options state).solution = state.result.solution ∧
      (finishSolve problem search options state).objective = state.result.objective := by
  unfold finishSolve
  dsimp only
  split_ifs with hnone
  · refine ⟨?_, rfl, rfl⟩
    rw [Option.isNone_iff_eq_none] at hnone
    rw [hnone]
    simp
  · refine ⟨?_, rfl, rfl⟩
    rw [Option.isNone_iff_eq_none] at hnone
    obtain ⟨solution, hsolution⟩ := Option.ne_none_iff_exists'.mp hnone
    rw [hsolution]
    simp [(h.kept solution hsolution).1]

end incumbent

/-! ### The solver -/

section solver

variable {random : Shuffler} {options : CanonicalGreedyOptions} {problem : DsaProblem}

/-- The checks before the run pass. -/
structure Accepted (problem : DsaProblem) : Prop where
  compatible : (checkSolverCompatibility problem baselineCapabilities).compatible = true
  capacities : ∀ pool ∈ problem.pools, pool.capacity ≠ none
  errors : (buildReusePenaltySearchSpace problem).placement.errors = []
  fixedPools : (buildReusePenaltySearchSpace problem).placement.flexiblePools = false

theorem Accepted.solve_eq (h : Accepted problem) (random : Shuffler)
    (options : CanonicalGreedyOptions) : solve random options problem =
      finishSolve problem (buildReusePenaltySearchSpace problem) options
        (run random problem options) := by
  have hcapacities : ¬(problem.pools.any fun pool => pool.capacity.isNone) = true := by
    rw [List.any_eq_true]
    rintro ⟨pool, hpool, hnone⟩
    exact h.capacities pool hpool (Option.isNone_iff_eq_none.mp hnone)
  unfold solve
  dsimp only
  rw [h.compatible, if_neg (by simp), if_neg hcapacities, h.errors, if_neg (by simp),
    h.fixedPools, if_neg (by simp)]

/-- A feasible result passed the checks. -/
theorem accepted_of_feasible (h : (solve random options problem).status = .feasible) :
    Accepted problem := by
  unfold solve rejectUnsupported at h
  dsimp only at h
  split_ifs at h with hcompatible hinvalid hcapacities herrors hflexible
  constructor
  · simpa using hcompatible
  · intro pool hpool hnone
    apply hcapacities
    rw [List.any_eq_true]
    exact ⟨pool, hpool, Option.isNone_iff_eq_none.mpr hnone⟩
  · exact not_not.mp herrors
  · exact Bool.not_eq_true _ ▸ hflexible

/-- A feasible result is valid. -/
theorem solve_feasible (h : (solve random options problem).status = .feasible) :
    ∃ solution, (solve random options problem).solution = some solution ∧
      validateSolution problem solution = [] ∧
        (solve random options problem).objective = evaluateObjective problem solution := by
  have hok := run_ok random problem options
  have heq := (accepted_of_feasible h).solve_eq random options
  obtain ⟨hstatus, hsolution, hobjective⟩ :=
    finishSolve_spec problem (buildReusePenaltySearchSpace problem) options hok
  rw [heq] at h ⊢
  obtain ⟨solution, hsome⟩ := Option.isSome_iff_exists.mp (hstatus.mp h)
  obtain ⟨-, hvalid, heval, -⟩ := hok.kept solution hsome
  exact ⟨solution, hsolution.trans hsome, hvalid, hobjective.trans heval⟩

/-- A run with an incumbent no worse than another score. -/
theorem Accepted.dominates (h : Accepted problem) {score : List UInt64}
    (hbest : ∃ better, (run random problem options).view.best = some better ∧ better ≤ score) :
    (solve random options problem).status = .feasible ∧
      objectiveScore problem (solve random options problem).objective ≤ score := by
  have hok := run_ok random problem options
  obtain ⟨hstatus, hsolution, hobjective⟩ :=
    finishSolve_spec problem (buildReusePenaltySearchSpace problem) options hok
  obtain ⟨better, hsome, hle⟩ := hbest
  obtain ⟨solution, hresult, hbetter⟩ := Option.map_eq_some_iff.mp hsome
  obtain ⟨-, -, -, hscore⟩ := hok.kept solution hresult
  rw [h.solve_eq random options, hobjective]
  refine ⟨hstatus.mpr (Option.isSome_iff_exists.mpr ⟨solution, hresult⟩), ?_⟩
  rw [← hscore, hbetter]
  exact hle

/-- A feasible result has an incumbent of its score. -/
theorem view_of_feasible (h : (solve random options problem).status = .feasible) :
    (run random problem options).view.best =
      some (objectiveScore problem (solve random options problem).objective) := by
  have hok := run_ok random problem options
  have heq := (accepted_of_feasible h).solve_eq random options
  obtain ⟨hstatus, hsolution, hobjective⟩ :=
    finishSolve_spec problem (buildReusePenaltySearchSpace problem) options hok
  rw [heq] at h
  obtain ⟨solution, hsome⟩ := Option.isSome_iff_exists.mp (hstatus.mp h)
  obtain ⟨-, -, -, hscore⟩ := hok.kept solution hsome
  rw [heq, hobjective, ← hscore]
  unfold State.view
  rw [hsome]
  rfl

/-- The run starts at a feasible result of first fit. -/
theorem initialState_view (h : (FirstFitSolver.solve problem).status = .feasible) :
    (initialState problem).view.best =
      some (objectiveScore problem (FirstFitSolver.solve problem).objective) := by
  obtain ⟨solution, hsolution, -, -⟩ := FirstFitSolver.solve_feasible h
  have hseed : firstFitSeedFeasible problem = true := by
    unfold firstFitSeedFeasible
    rw [h, hsolution]
    rfl
  unfold initialState State.view
  rw [if_pos hseed]
  dsimp only
  rw [hsolution]
  rfl

theorem accepted_of_firstFit
    (hcompatible : (checkSolverCompatibility problem baselineCapabilities).compatible = true)
    (hcapacities : ∀ pool ∈ problem.pools, pool.capacity ≠ none)
    (h : (FirstFitSolver.solve problem).status = .feasible) : Accepted problem := by
  obtain ⟨priority, hstatus, -, -⟩ := FirstFitSolver.exists_placeWithOrder h
  obtain ⟨herrors, hflexible⟩ := prepare_of_feasible (hstatus ▸ h)
  obtain ⟨hnoErrors, hfixed⟩ := search_of_prepare herrors hflexible
  exact ⟨hcompatible, hcapacities, hnoErrors, hfixed⟩

end solver

/-- **Dominance of the canonical greedy solver.**  It is never worse than first fit, more restarts
are never worse than fewer, and its feasible results are valid. -/
theorem canonicalGreedy_dominates (random : Shuffler) (problem : DsaProblem) (seed : UInt64) :
    ((checkSolverCompatibility problem baselineCapabilities).compatible = true →
      (∀ pool ∈ problem.pools, pool.capacity ≠ none) →
      (FirstFitSolver.solve problem).status = .feasible → ∀ restarts,
        (solve random ⟨seed, restarts⟩ problem).status = .feasible ∧
          objectiveScore problem (solve random ⟨seed, restarts⟩ problem).objective ≤
            objectiveScore problem (FirstFitSolver.solve problem).objective) ∧
      (∀ restarts restarts', restarts ≤ restarts' →
        (solve random ⟨seed, restarts⟩ problem).status = .feasible →
        (solve random ⟨seed, restarts'⟩ problem).status = .feasible ∧
          objectiveScore problem (solve random ⟨seed, restarts'⟩ problem).objective ≤
            objectiveScore problem (solve random ⟨seed, restarts⟩ problem).objective) ∧
      ∀ restarts, (solve random ⟨seed, restarts⟩ problem).status = .feasible →
        ∃ solution, (solve random ⟨seed, restarts⟩ problem).solution = some solution ∧
          validateSolution problem solution = [] ∧
          (solve random ⟨seed, restarts⟩ problem).objective =
            evaluateObjective problem solution := by
  refine ⟨fun hcompatible hcapacities hfirst restarts => ?_,
    fun restarts restarts' hle hfeasible => ?_, fun restarts => solve_feasible⟩
  · have haccepted := accepted_of_firstFit hcompatible hcapacities hfirst
    apply haccepted.dominates
    exact (grows_run random problem ⟨seed, restarts⟩).best _ (initialState_view hfirst)
  · apply (accepted_of_feasible hfeasible).dominates
    exact (grows_restarts random problem seed hle).best _ (view_of_feasible hfeasible)

/-- Three buffers alive one after another, each pair with a penalty for sharing, in a pool with
room for two. -/
def penalizedTrio : DsaProblem where
  pools := [{ id := 0, capacity := some 16 }]
  buffers :=
    [{ id := 1, size := 8, liveIntervals := [⟨0, 2⟩], allowedPools := [0] },
      { id := 2, size := 8, liveIntervals := [⟨2, 4⟩], allowedPools := [0] },
      { id := 3, size := 8, liveIntervals := [⟨4, 6⟩], allowedPools := [0] }]
  costModel := some { reusePenalties :=
    [{ first := 1, second := 2, cost := 7 }, { first := 2, second := 3, cost := 5 },
      { first := 1, second := 3, cost := 3 }] }
  objective := { terms := [.capacityOverflow, .reuseCost] }

/-- A shuffle may leave the order as it is. -/
def keepOrder : Shuffler where
  Engine := Unit
  seeded _ := ()
  shuffle nodes engine := (nodes, engine)

/-- Or reverse it. -/
def reverseOrder : Shuffler where
  Engine := Unit
  seeded _ := ()
  shuffle nodes engine := (nodes.reverse, engine)

/-- First fit pays all three penalties. -/
theorem canonicalGreedy_dominates_penalizedTrio :
    objectiveScore penalizedTrio (FirstFitSolver.solve penalizedTrio).objective = [0, 15] ∧
      ((solve reverseOrder ⟨0, 0⟩ penalizedTrio).status = .feasible ∧
        objectiveScore penalizedTrio (solve reverseOrder ⟨0, 0⟩ penalizedTrio).objective ≤
          objectiveScore penalizedTrio (FirstFitSolver.solve penalizedTrio).objective) ∧
      ((solve reverseOrder ⟨0, 3⟩ penalizedTrio).status = .feasible ∧
        objectiveScore penalizedTrio (solve reverseOrder ⟨0, 3⟩ penalizedTrio).objective ≤
          objectiveScore penalizedTrio (solve reverseOrder ⟨0, 0⟩ penalizedTrio).objective) ∧
      ∃ solution, (solve reverseOrder ⟨0, 3⟩ penalizedTrio).solution = some solution ∧
        validateSolution penalizedTrio solution = [] ∧
        (solve reverseOrder ⟨0, 3⟩ penalizedTrio).objective =
          evaluateObjective penalizedTrio solution := by
  obtain ⟨hfirstFit, hrestarts, hvalid⟩ := canonicalGreedy_dominates reverseOrder penalizedTrio 0
  have hgreedy := hfirstFit (by decide +kernel) (by decide +kernel) (by decide +kernel) 0
  have hmore := hrestarts 0 3 (by decide) hgreedy.1
  exact ⟨by decide +kernel, hgreedy, hmore, hvalid 3 hmore.1⟩

end CanonicalGreedySolver

end Dsa
