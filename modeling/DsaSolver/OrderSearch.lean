import DsaSolver.CanonicalGreedy
import DsaSolver.Theory.LocalSearch
import Mathlib.Data.Nat.Find
import Mathlib.Data.Nat.ModEq

/-! # Searches over placement orders

What `local_search_solver.cpp`, `pypto_structured_search_solver.cpp` and
`tvm_hill_climb_solver.cpp` share: the random engine, `ResultScore`, and candidates that are an
order with what the placement engine makes of it.  `BestOrder` is what such a search returns: the
placement of the best of the orders it evaluated, which are all permutations of the seed order. -/

namespace Dsa

/-! ### Random numbers -/

/-- `std::mt19937_64`, and `std::uniform_int_distribution<std::size_t>(0, last)` drawing from it,
which is up to the implementation of the standard library. -/
structure RandomSource where
  Engine : Type
  seeded : UInt64 → Engine
  next : Engine → UInt64 × Engine
  uniform : ℕ → Engine → ℕ × Engine

/-- The draw after `skipped` others. -/
def RandomSource.draw (random : RandomSource) (last : ℕ) : ℕ → random.Engine → ℕ × random.Engine
  | 0, engine => random.uniform last engine
  | skipped + 1, engine => random.draw last skipped (random.uniform last engine).2

/-- A draw stays in its range, and no value is drawn for ever. -/
structure RandomEngine extends RandomSource where
  uniform_le : ∀ last engine, (uniform last engine).1 ≤ last
  varied : ∀ last value engine, 0 < last →
    ∃ skipped, (toRandomSource.draw last skipped engine).1 ≠ value

namespace RandomEngine

variable (random : RandomEngine)

/-- `while (second == first) second = distribution(*random)`. -/
def drawOther (last value : ℕ) (h : 0 < last) (engine : random.Engine) : ℕ × random.Engine :=
  random.draw last (Nat.find (random.varied last value engine h)) engine

theorem draw_le (last skipped : ℕ) (engine : random.Engine) :
    (random.draw last skipped engine).1 ≤ last := by
  induction skipped generalizing engine with
  | zero => exact random.uniform_le last engine
  | succ skipped ih => exact ih _

theorem drawOther_le (last value : ℕ) (h : 0 < last) (engine : random.Engine) :
    (random.drawOther last value h engine).1 ≤ last :=
  random.draw_le last _ engine

/-- The two distinct positions drawn for a move, in the order drawn. -/
def drawPair (last : ℕ) (h : 0 < last) (engine : random.Engine) : (ℕ × ℕ) × random.Engine :=
  let first := random.uniform last engine
  let second := random.drawOther last first.1 h first.2
  ((first.1, second.1), second.2)

end RandomEngine

/-- An engine that counts. -/
def countingEngine : RandomEngine where
  Engine := ℕ
  seeded seed := seed.toNat
  next count := (UInt64.ofNat count, count + 1)
  uniform last count := (count % (last + 1), count + 1)
  uniform_le last count := Nat.le_of_lt_succ (Nat.mod_lt count (Nat.succ_pos last))
  varied last value count hlast := by
    by_cases heq : count % (last + 1) = value
    · refine ⟨1, fun hnext : (count + 1) % (last + 1) = value => ?_⟩
      have hmod : count + 1 ≡ count + 0 [MOD last + 1] := hnext.trans heq.symm
      have := Nat.ModEq.eq_of_lt_of_lt (Nat.ModEq.add_left_cancel' count hmod) (by omega) (by omega)
      omega
    · exact ⟨0, heq⟩

/-! ### Scores -/

namespace OrderSearch

def resultScore (problem : DsaProblem) (result : DsaResult) : List UInt64 :=
  if result.solution.isNone ||
      (result.status != .feasible && result.status != .bestEffortNoFit) then
    List.replicate problem.objective.terms.length maxU64
  else problem.objective.terms.map (evaluateObjectiveMetric problem result.objective)

variable {problem : DsaProblem}

theorem resultScore_congr {first second : DsaResult}
    (h : FirstFitSolver.SamePlacement first second) :
    resultScore problem first = resultScore problem second := by
  unfold resultScore
  rw [h.status, h.solution, h.objective]

/-- The overflow is zero when no pool exceeds its capacity. -/
theorem capacityOverflow_eq_zero_iff (objective : ObjectiveValue) :
    capacityOverflow problem objective = 0 ↔
      ∀ pool ∈ problem.pools, overCapacityMessages objective pool = [] := by
  have hloop : capacityOverflow problem objective = problem.pools.foldl
      (fun overflow pool =>
        if exceedsCapacity pool.capacity (objective.peakByPool.getD pool.id 0) then
          saturatingAdd overflow (objective.peakByPool.getD pool.id 0 - pool.capacity.getD 0)
        else overflow) 0 := by
    unfold capacityOverflow
    refine List.foldl_ext _ _ _ fun overflow pool _ => ?_
    unfold exceedsCapacity
    cases pool.capacity with
    | none => rfl
    | some capacity =>
        dsimp only
        by_cases hle : objective.peakByPool.getD pool.id 0 ≤ capacity
        · rw [if_pos hle, if_neg (by simpa using hle)]
        · rw [if_neg hle, if_pos (by simpa using hle), Option.getD_some]
  rw [hloop, Theory.foldl_satAdd_eq_zero_iff, and_iff_right rfl]
  refine forall₂_congr fun pool _ => ?_
  unfold exceedsCapacity overCapacityMessages
  rw [Std.TreeMap.getD_eq_getD_getElem?]
  cases pool.capacity with
  | none => simp
  | some capacity =>
      cases objective.peakByPool[pool.id]? with
      | none => simp
      | some peak =>
          dsimp only [Option.getD_some]
          rw [errorIf_eq_nil, decide_eq_true_eq, decide_eq_false_iff_not]
          refine ⟨fun hzero hlt => ?_, fun hnot hlt => absurd hlt hnot⟩
          have := hzero hlt
          rw [← UInt64.toNat_inj, UInt64.toNat_sub_of_le _ _ (UInt64.le_of_lt hlt)] at this
          have hlt' := UInt64.lt_iff_toNat_lt.mp hlt
          simp only [UInt64.toNat_zero] at this
          omega

/-- The placement of an order overflows no pool exactly when it is feasible. -/
theorem capacityOverflow_placeWithOrder {order : List BufferId} {strategy : PlacementStrategy}
    (hsolution : (placeWithOrder problem order strategy).solution.isNone = false)
    (hstatus : (placeWithOrder problem order strategy).status = .feasible ∨
      (placeWithOrder problem order strategy).status = .bestEffortNoFit) :
    capacityOverflow problem (placeWithOrder problem order strategy).objective = 0 ↔
      (placeWithOrder problem order strategy).status = .feasible := by
  obtain ⟨diagnostics, -, heq⟩ | ⟨diagnostics, -, heq⟩ | ⟨index, -, placed, e, -, -, heq⟩ |
      ⟨a, state, -, -, heq⟩ := placeWithOrder_cases problem order strategy
  · rw [heq] at hsolution
    cases hsolution
  · rw [heq] at hsolution
    cases hsolution
  · rw [heq] at hsolution
    cases hsolution
  · rw [heq] at hstatus ⊢
    rw [capacityOverflow_eq_zero_iff, ← List.flatMap_eq_nil_iff]
    unfold finishPlacement at hstatus ⊢
    dsimp only at hstatus ⊢
    split_ifs at hstatus ⊢ with hstructural hover
    · rcases hstatus with hstatus | hstatus <;> cases hstatus
    · exact ⟨fun hnone => absurd hnone hover, fun hstatus => by cases hstatus⟩
    · exact ⟨fun _ => rfl, fun _ => not_not.mp hover⟩

/-- When the objective starts with the overflow, so does the score, and it is zero for the
feasible placements only. -/
theorem resultScore_placeWithOrder {rest : List ObjectiveMetric}
    (hterms : problem.objective.terms = .capacityOverflow :: rest) (order : List BufferId)
    (strategy : PlacementStrategy) :
    ∃ overflow tail,
      resultScore problem (placeWithOrder problem order strategy) = overflow :: tail ∧
        (overflow = 0 ↔ (placeWithOrder problem order strategy).status = .feasible) := by
  unfold resultScore
  rw [hterms]
  split_ifs with hnone
  · refine ⟨maxU64, _, rfl, fun hzero => absurd hzero (by decide), fun hfeasible => ?_⟩
    obtain ⟨solution, hsolution, -⟩ := placeWithOrder_feasible hfeasible
    simp [hfeasible, hsolution] at hnone
  · rw [Bool.or_eq_true, not_or, Bool.not_eq_true, Bool.and_eq_true, not_and_or] at hnone
    refine ⟨_, _, rfl, capacityOverflow_placeWithOrder hnone.1 ?_⟩
    simpa using hnone.2

end OrderSearch

/-! ### Candidates -/

structure OrderCandidate where
  order : List BufferId
  result : DsaResult
  score : List UInt64

namespace OrderSearch

def evaluate (problem : DsaProblem) (order : List BufferId) : OrderCandidate :=
  let result := placeWithOrder problem order .firstFit
  { order := order, result := result, score := resultScore problem result }

section moves

variable {Engine : Type} (problem : DsaProblem)
  (move : List BufferId → Engine → List BufferId × Engine)

/-- A move made several times. -/
def perturb : ℕ → List BufferId → Engine → List BufferId × Engine
  | 0, order, engine => (order, engine)
  | perturbations + 1, order, engine =>
      let moved := move order engine
      perturb perturbations moved.1 moved.2

/-- The moves of the searches with restarts. -/
def moves (stagnationLimit : ℕ) : Theory.Moves OrderCandidate Engine where
  neighbor current engine :=
    let moved := move current.order engine
    (evaluate problem moved.1, moved.2)
  kick best engine :=
    let moved := perturb move (max 2 (best.order.length / 10)) best.order engine
    (evaluate problem moved.1, moved.2)
  restart best engine :=
    let moved := perturb move (max 2 (best.order.length / 8)) best.order engine
    (evaluate problem moved.1, moved.2)
  stagnationLimit := stagnationLimit

end moves

end OrderSearch

/-- `LocalSearchOptions` and `PyptoStructuredSearchOptions`. -/
structure OrderSearchOptions where
  seed : UInt64 := 0
  maxIterations : ℕ := 20000
  restarts : ℕ := 8
  stagnationLimit : ℕ := 500

namespace OrderSearch

def noted (result : DsaResult) (message : String) : DsaResult :=
  { result with diagnostics := result.diagnostics ++ [message] }

/-- The search is run at all: the seed order was placed, can be rearranged, and budget is left. -/
def searches (problem : DsaProblem) (options : OrderSearchOptions) : Prop :=
  let status := (evaluate problem (defaultPlacementOrder problem)).result.status
  ¬(status = .invalidProblem ∨ status = .unsupported ∨ status = .infeasibleProven) ∧
    ¬((defaultPlacementOrder problem).length < 2 ∨ options.maxIterations ≤ 1 ∨
      options.restarts = 0)

instance (problem : DsaProblem) (options : OrderSearchOptions) :
    Decidable (searches problem options) := inferInstanceAs (Decidable (_ ∧ _))

/-- The candidates of the search with restarts. -/
def run (random : RandomEngine) (problem : DsaProblem)
    (move : List BufferId → random.Engine → List BufferId × random.Engine)
    (options : OrderSearchOptions) : Theory.Climb OrderCandidate random.Engine :=
  Theory.search OrderCandidate.score (moves problem move options.stagnationLimit)
    options.maxIterations options.restarts (evaluate problem (defaultPlacementOrder problem))
    (random.seeded options.seed)

/-- The orders `Solve` evaluates, the latest first. -/
def evaluatedOrders (random : RandomEngine) (problem : DsaProblem)
    (move : List BufferId → random.Engine → List BufferId × random.Engine)
    (options : OrderSearchOptions) : List (List BufferId) :=
  if searches problem options then (run random problem move options).seen.map OrderCandidate.order
  else [defaultPlacementOrder problem]

/-- `Solve` of a search with restarts after its checks. -/
def searchOrders (random : RandomEngine) (problem : DsaProblem)
    (move : List BufferId → random.Engine → List BufferId × random.Engine)
    (options : OrderSearchOptions) (baselineNote : String) (searchNote : ℕ → String) : DsaResult :=
  let best := evaluate problem (defaultPlacementOrder problem)
  if best.result.status = .invalidProblem ∨ best.result.status = .unsupported ∨
      best.result.status = .infeasibleProven then best.result
  else if (defaultPlacementOrder problem).length < 2 ∨ options.maxIterations ≤ 1 ∨
      options.restarts = 0 then noted best.result baselineNote
  else
    let state := run random problem move options
    noted state.best.result (searchNote state.seen.length)

/-! ### The best of the orders evaluated -/

/-- The result is the placement of a best one of the orders evaluated, permutations of the seed
order all of them. -/
structure BestOrder (problem : DsaProblem) (seedOrder : List BufferId)
    (evaluated : List (List BufferId)) (result : DsaResult) : Prop where
  seed : seedOrder ∈ evaluated
  perm : ∀ order ∈ evaluated, order.Perm seedOrder
  attained : ∃ order ∈ evaluated,
    FirstFitSolver.SamePlacement result (placeWithOrder problem order .firstFit)
  le : ∀ order ∈ evaluated,
    resultScore problem result ≤ resultScore problem (placeWithOrder problem order .firstFit)

/-- A candidate of the search: an evaluated permutation of the seed order. -/
structure Evaluated (problem : DsaProblem) (seedOrder : List BufferId) (c : OrderCandidate) :
    Prop where
  eq : c = evaluate problem c.order
  perm : c.order.Perm seedOrder

variable {seedOrder : List BufferId} {evaluated : List (List BufferId)} {result : DsaResult}

theorem evaluated_evaluate {order : List BufferId} (h : order.Perm seedOrder) :
    Evaluated problem seedOrder (evaluate problem order) := ⟨rfl, h⟩

theorem noted_same (result : DsaResult) (message : String) :
    FirstFitSolver.SamePlacement (noted result message) result := ⟨rfl, rfl, rfl⟩

/-- The incumbent of a search that keeps the best candidate seen. -/
theorem bestOrder_of_bestSeen {seen : List OrderCandidate} {best : OrderCandidate}
    (hall : ∀ c ∈ seen, Evaluated problem seedOrder c)
    (hfirst : evaluate problem seedOrder ∈ seen)
    (hbest : Theory.BestSeen OrderCandidate.score seen best)
    (hsame : FirstFitSolver.SamePlacement result best.result) :
    BestOrder problem seedOrder (seen.map OrderCandidate.order) result := by
  have hresult : ∀ c ∈ seen, c.result = placeWithOrder problem c.order .firstFit ∧
      c.score = resultScore problem (placeWithOrder problem c.order .firstFit) := by
    intro c hc
    rw [(hall c hc).eq]
    exact ⟨rfl, rfl⟩
  obtain ⟨hplaced, hscore⟩ := hresult best hbest.mem
  constructor
  · exact List.mem_map.mpr ⟨_, hfirst, rfl⟩
  · intro order horder
    obtain ⟨c, hc, rfl⟩ := List.mem_map.mp horder
    exact (hall c hc).perm
  · refine ⟨best.order, List.mem_map_of_mem hbest.mem, ?_⟩
    rw [← hplaced]
    exact hsame
  · intro order horder
    obtain ⟨c, hc, rfl⟩ := List.mem_map.mp horder
    rw [resultScore_congr hsame, hplaced, ← hscore, ← (hresult c hc).2]
    exact hbest.le c hc

/-- The representatives of the classes differ. -/
theorem nodup_defaultPlacementOrder (problem : DsaProblem) :
    (defaultPlacementOrder problem).Nodup := by
  unfold defaultPlacementOrder
  dsimp only
  split_ifs with herrors
  · exact List.nodup_nil
  · rw [not_or, ne_eq, not_not] at herrors
    have h := prepare_ok herrors.1
    have hperm : (sortedSuperOrder (prepare problem) [] .firstFit).Perm
        (List.range (prepare problem).supers.length) := List.perm_insertionSort _ _
    refine List.Nodup.map_on ?_ (hperm.nodup_iff.mpr List.nodup_range)
    intro k hk l hl heq
    rw [hperm.mem_iff, List.mem_range] at hk hl
    obtain ⟨i, hi, hki⟩ := (h.covers k hk).representativeMem
    obtain ⟨j, hj, hlj⟩ := (h.covers l hl).representativeMem
    obtain ⟨hilt, rfl⟩ := (h.members k hk i).mp hi
    obtain ⟨hjlt, rfl⟩ := (h.members l hl j).mp hj
    rw [hki, hlj] at heq
    rw [bufferAt_id_injective h.wellFormed.bufferIds hilt hjlt heq]

section perturb

variable {Engine : Type} {move : List BufferId → Engine → List BufferId × Engine}
  (hmove : ∀ order engine, order.Perm seedOrder → (move order engine).1.Perm seedOrder)
include hmove

theorem perturb_perm (perturbations : ℕ) {order : List BufferId} (horder : order.Perm seedOrder)
    (engine : Engine) : (perturb move perturbations order engine).1.Perm seedOrder := by
  induction perturbations generalizing order engine with
  | zero => exact horder
  | succ perturbations ih => exact ih (hmove order engine horder) _

theorem moves_keeps (stagnationLimit : ℕ) :
    (moves problem move stagnationLimit).Keeps (Evaluated problem seedOrder) where
  neighbor c engine hc := evaluated_evaluate (hmove c.order engine hc.perm)
  kick _ engine hc := evaluated_evaluate (perturb_perm hmove _ hc.perm engine)
  restart _ engine hc := evaluated_evaluate (perturb_perm hmove _ hc.perm engine)

end perturb

/-- **A search with restarts returns the best order it evaluates, and evaluates as many as its
budget allows.** -/
theorem searchOrders_bestOrder {random : RandomEngine} {options : OrderSearchOptions}
    {move : List BufferId → random.Engine → List BufferId × random.Engine}
    (hmove : ∀ order engine, order.Perm (defaultPlacementOrder problem) →
      (move order engine).1.Perm (defaultPlacementOrder problem))
    (baselineNote : String) (searchNote : ℕ → String) :
    BestOrder problem (defaultPlacementOrder problem) (evaluatedOrders random problem move options)
        (searchOrders random problem move options baselineNote searchNote) ∧
      (evaluatedOrders random problem move options).length =
        if searches problem options then options.maxIterations else 1 := by
  have hseed : Evaluated problem (defaultPlacementOrder problem)
      (evaluate problem (defaultPlacementOrder problem)) := evaluated_evaluate (.refl _)
  have hsingle : ∀ {result}, FirstFitSolver.SamePlacement result
      (evaluate problem (defaultPlacementOrder problem)).result →
        BestOrder problem (defaultPlacementOrder problem) [defaultPlacementOrder problem] result :=
    fun hsame => bestOrder_of_bestSeen
      (fun c hc => by rw [List.mem_singleton.mp hc]; exact hseed) List.mem_cons_self
      (Theory.bestSeen_singleton _) hsame
  unfold searchOrders evaluatedOrders
  dsimp only
  by_cases hstatus : (evaluate problem (defaultPlacementOrder problem)).result.status =
      .invalidProblem ∨ (evaluate problem (defaultPlacementOrder problem)).result.status =
      .unsupported ∨ (evaluate problem (defaultPlacementOrder problem)).result.status =
      .infeasibleProven
  · have hsearch : ¬ searches problem options := fun hsearch => hsearch.1 hstatus
    rw [if_pos hstatus, if_neg hsearch, if_neg hsearch]
    exact ⟨hsingle ⟨rfl, rfl, rfl⟩, rfl⟩
  rw [if_neg hstatus]
  by_cases hbaseline : (defaultPlacementOrder problem).length < 2 ∨ options.maxIterations ≤ 1 ∨
      options.restarts = 0
  · have hsearch : ¬ searches problem options := fun hsearch => hsearch.2 hbaseline
    rw [if_pos hbaseline, if_neg hsearch, if_neg hsearch]
    exact ⟨hsingle (noted_same _ _), rfl⟩
  · have hsearch : searches problem options := ⟨hstatus, hbaseline⟩
    rw [if_neg hbaseline, if_pos hsearch, if_pos hsearch]
    have hok : (run random problem move options).Ok OrderCandidate.score
        (Evaluated problem (defaultPlacementOrder problem))
        (evaluate problem (defaultPlacementOrder problem)) :=
      Theory.search_ok (moves_keeps hmove options.stagnationLimit) _ _ hseed _
    refine ⟨bestOrder_of_bestSeen hok.all hok.first hok.best (noted_same _ _), ?_⟩
    rw [List.length_map]
    apply Theory.length_search <;> omega

/-! ### What the best order promises -/

/-- A feasible result is a valid placement with its objective. -/
theorem BestOrder.feasible (h : BestOrder problem seedOrder evaluated result)
    (hfeasible : result.status = .feasible) :
    ∃ solution, result.solution = some solution ∧ validateSolution problem solution = [] ∧
      result.objective = evaluateObjective problem solution := by
  obtain ⟨order, -, hstatus, hsolution, hobjective⟩ := h.attained
  rw [hstatus] at hfeasible
  rw [hsolution, hobjective]
  exact placeWithOrder_feasible hfeasible

/-- A result that claims infeasibility is right about it. -/
theorem BestOrder.infeasible (h : BestOrder problem seedOrder evaluated result)
    (hinfeasible : result.status = .infeasibleProven) (solution : DsaSolution) :
    validateSolution (withoutCaps problem) solution ≠ [] := by
  obtain ⟨order, -, hstatus, -, -⟩ := h.attained
  rw [hstatus] at hinfeasible
  exact placeWithOrder_infeasible hinfeasible solution

/-- When the overflow comes first, a fitting order is never lost. -/
theorem BestOrder.feasible_iff (h : BestOrder problem seedOrder evaluated result)
    {rest : List ObjectiveMetric} (hterms : problem.objective.terms = .capacityOverflow :: rest) :
    result.status = .feasible ↔
      ∃ order ∈ evaluated, (placeWithOrder problem order .firstFit).status = .feasible := by
  obtain ⟨best, hbest, hsame⟩ := h.attained
  rw [hsame.status]
  refine ⟨fun hfeasible => ⟨best, hbest, hfeasible⟩, fun hsome => ?_⟩
  obtain ⟨order, horder, hfeasible⟩ := hsome
  obtain ⟨overflow, tail, hscore, hzero⟩ :=
    resultScore_placeWithOrder hterms best .firstFit
  obtain ⟨zero, tail', hscore', hzero'⟩ :=
    resultScore_placeWithOrder hterms order .firstFit
  have hle := h.le order horder
  rw [resultScore_congr hsame, hscore, hscore', hzero'.mpr hfeasible] at hle
  refine hzero.mp (by_contra fun hover => ?_)
  -- the feasible order would have the smaller score
  have hless : (0 :: tail') < overflow :: tail := List.Lex.rel (UInt64.pos_iff_ne_zero.mpr hover)
  exact absurd hle (not_le.mpr hless)

end OrderSearch

end Dsa
