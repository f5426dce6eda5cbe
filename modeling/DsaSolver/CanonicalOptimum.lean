import DsaSolver.CanonicalSolver
import DsaSolver.GreedyDominance

/-! # Optimality of the canonical branch-and-bound solver

Every pool is optimal on its own.  The pools are optimal together unless the reuse cost of every
valid placement saturates: then the peaks decide between placements of one cost, and the solver
still gives each pool its least cost first (`canonicalBranchAndBound_optimal_iff`). -/

namespace Dsa

open Theory (Sat)
open PoolCanonicalSearch (peakOf poolNodes score)

variable {problem : DsaProblem}

/-! ### Lexicographic scores -/

/-- The metrics that measure a peak. -/
def ObjectiveMetric.isPeak : ObjectiveMetric → Bool
  | .totalPeak | .maxPeak => true
  | _ => false

/-- The reuse cost is not named after a peak. -/
def CostFirst (terms : List ObjectiveMetric) : Prop :=
  terms.Pairwise fun first second => first.isPeak = true → second ≠ .reuseCost

theorem poolScoreTerm_of_isPeak {metric : ObjectiveMetric} (hmetric : metric.isPeak = true)
    (cost peak : UInt64) : poolScoreTerm cost peak metric = peak := by
  cases metric with
  | totalPeak => rfl
  | maxPeak => rfl
  | capacityOverflow => cases hmetric
  | reuseCost => cases hmetric
  | bankCost => cases hmetric

theorem CostFirst.notMem {metric : ObjectiveMetric} {rest : List ObjectiveMetric}
    (h : CostFirst (metric :: rest)) (hmetric : metric.isPeak = true) :
    .reuseCost ∉ metric :: rest := by
  intro hmem
  rcases List.mem_cons.mp hmem with rfl | hmem
  · cases hmetric
  · exact (List.pairwise_cons.mp h).1 _ hmem hmetric rfl

/-- What the comparison of two scores of a pool says about its cost and its peak. -/
theorem rank_of_poolScore_le {terms : List ObjectiveMetric} (horder : CostFirst terms)
    {cost cost' peak peak' : UInt64}
    (hle : terms.map (poolScoreTerm cost peak) ≤ terms.map (poolScoreTerm cost' peak')) :
    (.reuseCost ∈ terms → cost ≤ cost') ∧
      ((.reuseCost ∈ terms → cost = cost') → (∃ metric ∈ terms, metric.isPeak = true) →
        peak ≤ peak') := by
  induction terms with
  | nil => exact ⟨nofun, fun _ ⟨_, hmem, _⟩ => absurd hmem List.not_mem_nil⟩
  | cons metric rest ih =>
      have hcases := Theory.cons_le_cons_cases hle
      have hrest := (List.pairwise_cons.mp horder).2
      by_cases hmetric : metric.isPeak = true
      · -- no cost is named after the peak
        rw [poolScoreTerm_of_isPeak hmetric, poolScoreTerm_of_isPeak hmetric] at hcases
        refine ⟨fun hmem => absurd hmem (horder.notMem hmetric), fun _ _ => ?_⟩
        rcases hcases with hlt | ⟨heq, -⟩
        · exact le_of_lt hlt
        · exact le_of_eq heq
      · have hlater : (∃ other ∈ metric :: rest, other.isPeak = true) →
            ∃ other ∈ rest, other.isPeak = true := by
          rintro ⟨other, hother, hpeak⟩
          refine ⟨other, (List.mem_cons.mp hother).resolve_left fun hsame => ?_, hpeak⟩
          exact hmetric (hsame ▸ hpeak)
        by_cases hreuse : metric = .reuseCost
        · subst hreuse
          rcases hcases with hlt | ⟨heq, htail⟩
          · exact ⟨fun _ => le_of_lt hlt, fun hsame =>
              absurd (hsame List.mem_cons_self) (ne_of_lt hlt)⟩
          · exact ⟨fun _ => le_of_eq heq, fun _ hpeaks =>
              (ih hrest htail).2 (fun _ => heq) (hlater hpeaks)⟩
        · -- the term is zero in every score
          have hzero : ∀ cost peak, poolScoreTerm cost peak metric = 0 := by
            intro cost peak
            cases metric with
            | capacityOverflow => rfl
            | bankCost => rfl
            | reuseCost => exact absurd rfl hreuse
            | totalPeak => exact absurd rfl hmetric
            | maxPeak => exact absurd rfl hmetric
          rw [hzero, hzero] at hcases
          obtain ⟨hcost, hpeak⟩ := ih hrest (hcases.resolve_left (lt_irrefl _)).2
          exact ⟨fun hmem => hcost ((List.mem_cons.mp hmem).resolve_left (Ne.symm hreuse)),
            fun hsame hpeaks =>
              hpeak (fun hmem => hsame (List.mem_cons_of_mem _ hmem)) (hlater hpeaks)⟩

/-- Scores compare like their costs, and for equal costs like their peaks. -/
theorem map_le_map_of_costFirst {terms : List ObjectiveMetric} (horder : CostFirst terms)
    {f g : ObjectiveMetric → UInt64} (hcapacity : f .capacityOverflow = g .capacityOverflow)
    (hbank : f .bankCost = g .bankCost) (hcost : .reuseCost ∈ terms → f .reuseCost ≤ g .reuseCost)
    (hpeak : (.reuseCost ∈ terms → f .reuseCost = g .reuseCost) → ∀ metric ∈ terms,
      metric.isPeak = true → f metric ≤ g metric) : terms.map f ≤ terms.map g := by
  induction terms with
  | nil => exact le_rfl
  | cons metric rest ih =>
      have hrest := (List.pairwise_cons.mp horder).2
      have hrestCost : .reuseCost ∈ rest → f .reuseCost ≤ g .reuseCost := fun hmem =>
        hcost (List.mem_cons_of_mem _ hmem)
      rw [List.map_cons, List.map_cons]
      by_cases hreuse : metric = .reuseCost
      · subst hreuse
        rcases (hcost List.mem_cons_self).lt_or_eq with hlt | heq
        · exact le_of_lt (List.Lex.rel hlt)
        · rw [heq]
          exact List.cons_le_cons _ (ih hrest hrestCost fun _ other hother =>
            hpeak (fun _ => heq) other (List.mem_cons_of_mem _ hother))
      · have htail : f metric = g metric → f metric :: rest.map f ≤ g metric :: rest.map g := by
          intro heq
          rw [heq]
          exact List.cons_le_cons _ (ih hrest hrestCost fun hsame other hother =>
            hpeak (fun hmem => hsame ((List.mem_cons.mp hmem).resolve_left (Ne.symm hreuse))) other
              (List.mem_cons_of_mem _ hother))
        by_cases hmetric : metric.isPeak = true
        · -- no cost follows
          have hle := hpeak (fun hmem => absurd hmem (horder.notMem hmetric)) metric
            List.mem_cons_self hmetric
          rcases hle.lt_or_eq with hlt | heq
          · exact le_of_lt (List.Lex.rel hlt)
          · exact htail heq
        · cases metric with
          | capacityOverflow => exact htail hcapacity
          | bankCost => exact htail hbank
          | reuseCost => exact absurd rfl hreuse
          | totalPeak => exact absurd rfl hmetric
          | maxPeak => exact absurd rfl hmetric

/-! ### Joined scores -/

section joined

variable {first second : List UInt64}

theorem bankCost_eq (solution : DsaSolution) :
    evaluateObjectiveMetric problem (evaluateObjective problem solution) .bankCost = 0 := rfl

/-- The scores of the pools compare like the scores of the whole, unless the cost saturates. -/
theorem objectiveScore_le_of_pools (h : SearchOk problem)
    (horder : CostFirst problem.objective.terms)
    (hfirst : (nodePacking h).Valid (positions first))
    (hsecond : (nodePacking h).Valid (positions second))
    (hpools : ∀ pool ∈ problem.pools,
      score problem pool.id first ≤ score problem pool.id second)
    (hdecided : .reuseCost ∈ problem.objective.terms →
      (evaluateObjective problem (expandReuseNodeSolution problem.search first)).reuseCost ≠
          maxU64 ∨
        ∀ pool ∈ problem.pools, poolReuseCost problem.search pool.id first =
          poolReuseCost problem.search pool.id second) :
    objectiveScore problem
        (evaluateObjective problem (expandReuseNodeSolution problem.search first)) ≤
      objectiveScore problem
        (evaluateObjective problem (expandReuseNodeSolution problem.search second)) := by
  have hrank := fun pool (hpool : pool ∈ problem.pools) =>
    rank_of_poolScore_le horder (hpools pool hpool)
  refine map_le_map_of_costFirst horder ?_ ?_ (fun hreuse => ?_) fun hsame metric hmem hmetric => ?_
  · show capacityOverflow _ _ = capacityOverflow _ _
    rw [capacityOverflow_expand h hfirst, capacityOverflow_expand h hsecond]
  · rw [bankCost_eq, bankCost_eq]
  · refine (@Theory.Sat.le_iff_val ⟨(evaluateObjective problem _).reuseCost⟩
      ⟨(evaluateObjective problem _).reuseCost⟩).mp ?_
    rw [reuseCost_eq_sum h hfirst, reuseCost_eq_sum h hsecond]
    exact List.sum_le_sum fun pool hpool => (hrank pool hpool).1 hreuse
  · -- equal costs of the whole are equal costs of the pools
    have hcosts : ∀ pool ∈ problem.pools, .reuseCost ∈ problem.objective.terms →
        poolReuseCost problem.search pool.id first =
          poolReuseCost problem.search pool.id second := by
      intro pool hpool hreuse
      rcases hdecided hreuse with hexact | hequal
      · have hsum := congrArg Sat.mk (hsame hreuse)
        change (⟨(evaluateObjective problem _).reuseCost⟩ : Sat) =
          ⟨(evaluateObjective problem _).reuseCost⟩ at hsum
        have hfirstSum := reuseCost_eq_sum h hfirst
        rw [reuseCost_eq_sum h hfirst, reuseCost_eq_sum h hsecond] at hsum
        have hequal := Sat.eq_of_sum_le (fun other hother => (hrank other hother).1 hreuse)
          hsum.symm.le (fun htop => hexact ((congrArg Sat.val hfirstSum).trans htop)) pool hpool
        exact congrArg Sat.val hequal
      · exact hequal pool hpool
    have hpeaks : ∀ pool ∈ problem.pools, peakOf problem problem.search pool.id first ≤
        peakOf problem problem.search pool.id second := fun pool hpool =>
      (hrank pool hpool).2 (hcosts pool hpool) ⟨metric, hmem, hmetric⟩
    cases metric with
    | capacityOverflow => cases hmetric
    | reuseCost => cases hmetric
    | bankCost => cases hmetric
    | totalPeak =>
        refine (@Theory.Sat.le_iff_val ⟨(evaluateObjective problem _).totalPeak⟩
          ⟨(evaluateObjective problem _).totalPeak⟩).mp ?_
        rw [totalPeak_eq_sum h hfirst, totalPeak_eq_sum h hsecond]
        exact List.sum_le_sum hpeaks
    | maxPeak =>
        exact (maxPeak_le_iff h hfirst).mpr fun pool hpool =>
          (hpeaks pool hpool).trans ((maxPeak_le_iff h hsecond).mp le_rfl pool hpool)

end joined

namespace CanonicalBranchAndBoundSolver

/-! ### The checks before the search -/

theorem reuse_noteTerm (indices : ObjectiveIndices) (metric : ObjectiveMetric) (index : ℕ) :
    (noteTerm indices (metric, index)).reuse =
      if metric = .reuseCost then some index else indices.reuse := by
  cases metric with
  | totalPeak => exact apply_ite ObjectiveIndices.reuse _ _ _ |>.trans (ite_self _)
  | maxPeak => exact apply_ite ObjectiveIndices.reuse _ _ _ |>.trans (ite_self _)
  | capacityOverflow => rfl
  | reuseCost => rfl
  | bankCost => rfl

theorem firstPeak_noteTerm (indices : ObjectiveIndices) (metric : ObjectiveMetric) (index : ℕ) :
    (noteTerm indices (metric, index)).firstPeak =
      if metric.isPeak = true then some (indices.firstPeak.getD index) else indices.firstPeak := by
  have hpeak : (if indices.firstPeak.isNone = true then
      { indices with firstPeak := some index } else indices).firstPeak =
        some (indices.firstPeak.getD index) := by
    cases hfirst : indices.firstPeak with
    | none => rfl
    | some p => exact hfirst
  cases metric with
  | totalPeak => exact hpeak
  | maxPeak => exact hpeak
  | capacityOverflow => rfl
  | reuseCost => rfl
  | bankCost => rfl

/-- The indices of the last cost and of the first peak. -/
theorem noteTerms_spec (terms : List ObjectiveMetric) :
    (∀ j, terms[j]? = some .reuseCost →
      ∃ r, (terms.zipIdx.foldl noteTerm {}).reuse = some r ∧ j ≤ r) ∧
    (∀ i metric, terms[i]? = some metric → metric.isPeak = true →
      ∃ p, (terms.zipIdx.foldl noteTerm {}).firstPeak = some p ∧ p ≤ i) ∧
    ∀ p, (terms.zipIdx.foldl noteTerm {}).firstPeak = some p → p < terms.length := by
  induction terms using List.reverseRecOn with
  | nil => exact ⟨nofun, nofun, nofun⟩
  | append_singleton rest metric ih =>
      obtain ⟨hreuse, hpeak, hlt⟩ := ih
      rw [List.zipIdx_append, List.foldl_append]
      generalize rest.zipIdx.foldl noteTerm {} = indices at hreuse hpeak hlt ⊢
      rw [Nat.zero_add, List.zipIdx_singleton, List.foldl_cons, List.foldl_nil, reuse_noteTerm,
        firstPeak_noteTerm]
      have hget : ∀ {j found}, (rest ++ [metric])[j]? = some found →
          j < rest.length ∧ rest[j]? = some found ∨ j = rest.length ∧ metric = found := by
        intro j found hj
        rw [List.getElem?_append] at hj
        split_ifs at hj with hlt
        · exact .inl ⟨hlt, hj⟩
        · obtain ⟨hindex, hfound⟩ := List.getElem?_eq_some_iff.mp hj
          rw [List.length_singleton] at hindex
          have hzero : j - rest.length = 0 := by omega
          simp only [hzero, List.getElem_singleton] at hfound
          exact .inr ⟨by omega, hfound⟩
      refine ⟨fun j hj => ?_, fun i found hi hfound => ?_, fun p hp => ?_⟩
      · rcases hget hj with ⟨hlt', hj⟩ | ⟨rfl, rfl⟩
        · split_ifs
          · exact ⟨_, rfl, hlt'.le⟩
          · exact hreuse j hj
        · exact ⟨_, if_pos rfl, le_rfl⟩
      · rcases hget hi with ⟨hlt', hi⟩ | ⟨rfl, rfl⟩
        · obtain ⟨p, hp, hle⟩ := hpeak i found hi hfound
          rw [hp]
          exact ⟨p, ite_self _, hle⟩
        · rw [if_pos hfound]
          refine ⟨_, rfl, ?_⟩
          cases hfirst : indices.firstPeak with
          | none => exact le_rfl
          | some p => exact (hlt p hfirst).le
      · rw [List.length_append, List.length_singleton]
        split_ifs at hp
        · obtain rfl := Option.some.inj hp
          cases hfirst : indices.firstPeak with
          | none => exact Nat.lt_succ_self _
          | some p => exact (hlt p hfirst).trans (Nat.lt_succ_self _)
        · exact (hlt p hp).trans (Nat.lt_succ_self _)

theorem costFirst_of_limitation (hnone : limitation problem = none) :
    CostFirst problem.objective.terms := by
  obtain ⟨hreuse, hpeak, -⟩ := noteTerms_spec problem.objective.terms
  refine List.pairwise_iff_getElem.mpr fun i j hi hj hij hmetric hcost => ?_
  obtain ⟨p, hp, hle⟩ := hpeak i _ (List.getElem?_eq_getElem hi) hmetric
  obtain ⟨r, hr, hle'⟩ := hreuse j (by rw [List.getElem?_eq_getElem hj, hcost])
  unfold limitation at hnone
  split_ifs at hnone
  unfold objectiveIndices at hnone
  rw [hp, hr] at hnone
  dsimp only at hnone
  rw [if_pos (by omega)] at hnone
  cases hnone

/-! ### The incumbent -/

/-- The offsets of a valid placement are a valid packing. -/
theorem valid_of_nodeOffsets (h : SearchOk problem) {solution : DsaSolution}
    (hs : validateSolution problem solution = []) {offsets : List UInt64}
    (hoffsets : nodeOffsets problem.search solution = some offsets) :
    (nodePacking h).Valid (positions offsets) := by
  obtain ⟨own, hlength, hfind⟩ := exists_offsets h hs
  have hmap : nodeOffsets problem.search solution =
      some ((List.range problem.search.count).map fun node => own.getD node 0) := by
    refine Theory.mapM_eq_pure fun node hnode => ?_
    obtain ⟨i, hi, hclass, hid⟩ := h.representative_mem (List.mem_range.mp hnode)
    rw [hfind, hid, find_expand_of_member h own hi, hclass]
    exact if_neg (not_not.mpr rfl)
  have hsame : ∀ n ∈ (nodePacking h).items, positions offsets n = positions own n := by
    intro n hn
    have hlt : n < problem.search.count := Finset.mem_range.mp hn
    rw [hmap] at hoffsets
    rw [← Option.some.inj hoffsets, positions, List.getD_eq_getElem _ _ (by simpa using hlt),
      List.getElem_map, List.getElem_range]
    rfl
  rw [validateSolution_congr hfind, validateSolution_expand_iff h] at hs
  exact hs.congr hsame

theorem considerSeed_valid {seeds : Seeds} {candidate : DsaResult}
    (hseeds : ∀ solution, seeds.solution = some solution → validateSolution problem solution = []) :
    ∀ solution, (considerSeed problem seeds candidate).solution = some solution →
      validateSolution problem solution = [] := by
  unfold considerSeed
  split
  · dsimp only
    split_ifs with hinvalid hbetter
    · exact hseeds
    · intro solution hsome
      obtain rfl := Option.some.inj hsome
      exact not_not.mp hinvalid
    · exact hseeds
  · exact hseeds

theorem seedsOf_valid {random : Shuffler} : ∀ solution,
    (seedsOf random problem).solution = some solution → validateSolution problem solution = [] := by
  have hnone : ∀ solution, ({} : Seeds).solution = some solution →
      validateSolution problem solution = [] := nofun
  exact considerSeed_valid (considerSeed_valid (considerSeed_valid hnone))

/-- The incumbent of the search is a valid packing. -/
theorem valid_of_incumbent (h : SearchOk problem) {random : Shuffler}
    {options : CanonicalBranchAndBoundOptions} {offsets : List UInt64}
    (hincumbent : (searchOptions options problem.search (seedsOf random problem)).incumbentOffsets =
      some offsets) : (nodePacking h).Valid (positions offsets) := by
  obtain ⟨solution, hsolution, hoffsets⟩ := Option.bind_eq_some_iff.mp hincumbent
  exact valid_of_nodeOffsets h (seedsOf_valid solution hsolution) hoffsets

/-! ### The answers -/

section answers

variable {random : Shuffler} {options : CanonicalBranchAndBoundOptions}

/-- Offsets that agree on a pool have one score there. -/
theorem score_le_of_agree (h : SearchOk problem) {pool : PoolId} {first second : List UInt64}
    (hfirst : PoolCanonicalSearch.Placed problem pool (positions first))
    (hagree : ∀ n ∈ poolNodes problem.search pool, positions second n = positions first n) :
    score problem pool first ≤ score problem pool second := by
  refine PoolCanonicalSearch.score_le h hfirst (hfirst.congr hagree)
    (fun n hn => (hagree n hn).ge) fun entry _ hk hl hapart => ?_
  unfold NodesApart at hapart ⊢
  rwa [hagree _ hk, hagree _ hl] at hapart

/-- The search of the solver. -/
def exactSearch (random : Shuffler) (options : CanonicalBranchAndBoundOptions)
    (problem : DsaProblem) : CanonicalExactSearchResult :=
  runCanonicalExactSearch problem problem.search
    (searchOptions options problem.search (seedsOf random problem))

/-- The ends of the solver on a problem it searches. -/
inductive SolveEnd (h : SearchOk problem) (options : CanonicalBranchAndBoundOptions)
    (result : DsaResult) : Prop
  | optimal (offsets : List UInt64) (status : result.status = .feasible)
      (some : result.solution = some (expandReuseNodeSolution problem.search offsets))
      (valid : (nodePacking h).Valid (positions offsets))
      (best : ∀ other, (nodePacking h).Valid (positions other) → ∀ pool ∈ problem.pools,
        score problem pool.id offsets ≤ score problem pool.id other)
  | infeasible (status : result.status = .infeasibleProven)
      (none : ∀ offsets, ¬ (nodePacking h).Valid (positions offsets))
  | undecided (feasible : result.status ≠ .feasible)
      (infeasible : result.status ≠ .infeasibleProven) (limited : options.maxSearchNodes ≠ 0)

/-- The joined answers of the pools are best in every pool. -/
theorem placed_best (h : SearchOk problem) {offsets : List UInt64}
    (hagree : ∀ pool ∈ problem.pools, ∀ n ∈ poolNodes problem.search pool.id,
      offsets.getD n 0 = (PoolCanonicalSearch.run problem problem.search pool.id
        (searchOptions options problem.search (seedsOf random problem))).offsets.getD n 0)
    (hfeasible : ∀ pool ∈ problem.pools, poolNodes problem.search pool.id ≠ [] →
      (PoolCanonicalSearch.run problem problem.search pool.id
        (searchOptions options problem.search (seedsOf random problem))).status = .feasible) :
    (nodePacking h).Valid (positions offsets) ∧
      ∀ other, (nodePacking h).Valid (positions other) → ∀ pool ∈ problem.pools,
        score problem pool.id offsets ≤ score problem pool.id other := by
  have hpositions : ∀ pool ∈ problem.pools, ∀ n ∈ poolNodes problem.search pool.id,
      positions offsets n = positions (PoolCanonicalSearch.run problem problem.search pool.id
        (searchOptions options problem.search (seedsOf random problem))).offsets n :=
    fun pool hpool n hn => congrArg UInt64.toNat (hagree pool hpool n hn)
  have hplaced : ∀ pool ∈ problem.pools,
      PoolCanonicalSearch.Placed problem pool.id (positions offsets) ∧
        PoolCanonicalSearch.Aligned problem pool.id (positions offsets) := by
    intro pool hpool
    by_cases hnodes : poolNodes problem.search pool.id = []
    · refine ⟨⟨fun n hn => ?_, fun n hn => ?_⟩, fun n hn => ?_⟩
      · rw [hnodes] at hn
        cases hn
      · rw [hnodes] at hn
        cases hn
      · rw [hnodes] at hn
        cases hn
    · have hkept := PoolCanonicalSearch.run_kept h (hfeasible pool hpool hnodes)
      refine ⟨hkept.placed.congr (hpositions pool hpool),
        PoolCanonicalSearch.Aligned.congr ?_ (hpositions pool hpool)⟩
      rcases hkept.aligned with haligned | ⟨-, hincumbent⟩
      · exact haligned
      · exact ((valid_iff_pools h).mp (valid_of_incumbent h hincumbent) pool hpool).2
  refine ⟨(valid_iff_pools h).mpr hplaced, fun other hother pool hpool => ?_⟩
  obtain ⟨hotherPlaced, hotherAligned⟩ := (valid_iff_pools h).mp hother pool hpool
  by_cases hnodes : poolNodes problem.search pool.id = []
  · -- a pool without nodes has one score
    refine score_le_of_agree h (hplaced pool hpool).1 fun n hn => ?_
    rw [hnodes] at hn
    cases hn
  · have hrun := hfeasible pool hpool hnodes
    calc score problem pool.id offsets
        ≤ score problem pool.id (PoolCanonicalSearch.run problem problem.search pool.id
            (searchOptions options problem.search (seedsOf random problem))).offsets :=
          score_le_of_agree h (hplaced pool hpool).1 fun n hn => (hpositions pool hpool n hn).symm
      _ ≤ score problem pool.id
            (PoolCanonicalSearch.offsetVector problem (positions other)) :=
          PoolCanonicalSearch.run_score_le h rfl hrun hotherPlaced hotherAligned
      _ ≤ score problem pool.id other :=
          score_le_of_agree h
            (hotherPlaced.congr fun n hn => hotherPlaced.positions_offsetVector hn)
            fun n hn => (hotherPlaced.positions_offsetVector hn).symm

theorem solvePrepared_end (h : SearchOk problem) :
    SolveEnd h options (solvePrepared random options problem problem.search) := by
  have hanswer := runCanonicalExactSearch_answer h
    (searchOptions options problem.search (seedsOf random problem))
  change SearchAnswer _ _ (exactSearch random options problem) at hanswer
  have hlimited : (∃ pool ∈ problem.pools, (PoolCanonicalSearch.run problem problem.search pool.id
      (searchOptions options problem.search (seedsOf random problem))).status = .timeout) →
        options.maxSearchNodes ≠ 0 := by
    rintro ⟨pool, -, hlate⟩ hzero
    exact PoolCanonicalSearch.run_unlimited hzero hlate
  have hinvalid : SolveStatus.invalidProblem ≠ .feasible ∧
      SolveStatus.invalidProblem ≠ .infeasibleProven := by decide
  have hsolve : solvePrepared random options problem problem.search =
      (exactSearch random options problem).offsets.elim
        (unplacedResult (seedsOf random problem) (exactSearch random options problem))
        (placedResult problem problem.search (seedsOf random problem)
          (exactSearch random options problem)) := by
    unfold solvePrepared exactSearch
    dsimp only
    generalize runCanonicalExactSearch problem problem.search _ = exact
    rcases exact with ⟨_, _ | _, _, _, _⟩ <;> rfl
  rw [hsolve]
  generalize exactSearch random options problem = exact at hanswer
  cases hanswer with
  | placed offsets status hsome _ agree feasible =>
      obtain ⟨hv, hbest⟩ := placed_best h agree feasible
      rw [hsome, Option.elim_some]
      unfold placedResult buildValidatedReuseResult
      dsimp only
      rw [if_neg (not_not.mpr ((validateSolution_expand_iff h offsets).mpr hv))]
      exact .optimal offsets status rfl hv hbest
  | cutPlaced offsets status hsome late =>
      rw [hsome, Option.elim_some]
      unfold placedResult buildValidatedReuseResult
      dsimp only
      by_cases hvalid :
          validateSolution problem (expandReuseNodeSolution problem.search offsets) = []
      · rw [if_neg (not_not.mpr hvalid)]
        exact .undecided (fun hyes => absurd (status.symm.trans hyes) (by decide))
          (fun hno => absurd (status.symm.trans hno) (by decide)) (hlimited late)
      · rw [if_pos hvalid]
        exact .undecided hinvalid.1 hinvalid.2 (hlimited late)
  | infeasible pool hpool status hnone unplaced =>
      rw [hnone, Option.elim_none]
      refine .infeasible status fun offsets hv => ?_
      obtain ⟨hplaced, haligned⟩ := (valid_iff_pools h).mp hv pool hpool
      exact PoolCanonicalSearch.run_infeasible h unplaced hplaced haligned
  | cut status hnone late =>
      rw [hnone, Option.elim_none]
      exact .undecided (fun hyes => absurd (status.symm.trans hyes) (by decide))
        (fun hno => absurd (status.symm.trans hno) (by decide)) (hlimited late)

/-! ### Optimality -/

/-- A proved answer is right: the placement is a lexicographic optimum, or there is none. -/
def Proves (problem : DsaProblem) (result : DsaResult) : Prop :=
  (result.status = .feasible → ∃ solution, result.solution = some solution ∧
    validateSolution problem solution = [] ∧
      ∀ other, validateSolution problem other = [] →
        objectiveScore problem (evaluateObjective problem solution) ≤
          objectiveScore problem (evaluateObjective problem other)) ∧
  (result.status = .infeasibleProven → ∀ other, validateSolution problem other ≠ [])

/-- The offsets of a valid placement. -/
def IsPlacement (problem : DsaProblem) (offsets : List UInt64) : Prop :=
  validateSolution problem (expandReuseNodeSolution problem.search offsets) = []

/-- The objective of an offset vector. -/
def objectiveOf (problem : DsaProblem) (offsets : List UInt64) : List UInt64 :=
  objectiveScore problem
    (evaluateObjective problem (expandReuseNodeSolution problem.search offsets))

/-- The placement has the least reuse cost in every pool. -/
def CheapestInPools (problem : DsaProblem) (offsets : List UInt64) : Prop :=
  ∀ other, IsPlacement problem other → ∀ pool ∈ problem.pools,
    poolReuseCost problem.search pool.id offsets ≤ poolReuseCost problem.search pool.id other

/-- When the reuse cost of every placement saturates, placements that are cheapest in every pool
are as good as any. -/
def SaturationHarmless (problem : DsaProblem) : Prop :=
  .reuseCost ∈ problem.objective.terms →
    (∀ offsets, IsPlacement problem offsets →
      (evaluateObjective problem
        (expandReuseNodeSolution problem.search offsets)).reuseCost = maxU64) →
    ∀ other, IsPlacement problem other → ∃ offsets, IsPlacement problem offsets ∧
      CheapestInPools problem offsets ∧ objectiveOf problem offsets ≤ objectiveOf problem other

/-- A placement that is best in every pool is cheapest in every pool. -/
theorem cheapest_of_best (h : SearchOk problem) (horder : CostFirst problem.objective.terms)
    (hreuse : .reuseCost ∈ problem.objective.terms) {offsets : List UInt64}
    (hbest : ∀ other, (nodePacking h).Valid (positions other) → ∀ pool ∈ problem.pools,
      score problem pool.id offsets ≤ score problem pool.id other) :
    CheapestInPools problem offsets := fun other hother pool hpool =>
  (rank_of_poolScore_le horder (hbest other ((validateSolution_expand_iff h other).mp hother)
    pool hpool)).1 hreuse

theorem proves_of_harmless (h : SearchOk problem) (horder : CostFirst problem.objective.terms)
    (hharmless : SaturationHarmless problem) :
    Proves problem (solvePrepared random options problem problem.search) := by
  cases @solvePrepared_end problem random options h with
  | undecided feasible infeasible =>
      exact ⟨fun hyes => absurd hyes feasible, fun hno => absurd hno infeasible⟩
  | infeasible status none =>
      refine ⟨fun hyes => absurd (status.symm.trans hyes) nofun, fun _ other hother => ?_⟩
      obtain ⟨offsets, -, hfind⟩ := exists_offsets h hother
      rw [validateSolution_congr hfind, validateSolution_expand_iff h] at hother
      exact none offsets hother
  | optimal offsets status some valid best =>
      have hplacement : IsPlacement problem offsets :=
        (validateSolution_expand_iff h offsets).mpr valid
      refine ⟨fun _ => ⟨_, some, hplacement, fun solution hs => ?_⟩,
        fun hno => absurd (status.symm.trans hno) nofun⟩
      obtain ⟨other, -, hfind⟩ := exists_offsets h hs
      rw [validateSolution_congr hfind] at hs
      rw [evaluateObjective_congr hfind]
      have hother := (validateSolution_expand_iff h other).mp hs
      by_cases hreuse : .reuseCost ∈ problem.objective.terms
      · by_cases hsaturated : (evaluateObjective problem
          (expandReuseNodeSolution problem.search offsets)).reuseCost = maxU64
        · -- no placement costs less, so one that is cheapest in every pool decides
          have hcheapest := cheapest_of_best h horder hreuse best
          have hall : ∀ second, IsPlacement problem second → (evaluateObjective problem
              (expandReuseNodeSolution problem.search second)).reuseCost = maxU64 := by
            intro second hsecond
            have hle : (⟨maxU64⟩ : Sat) ≤ ⟨(evaluateObjective problem
                (expandReuseNodeSolution problem.search second)).reuseCost⟩ := by
              rw [← hsaturated, reuseCost_eq_sum h valid,
                reuseCost_eq_sum h ((validateSolution_expand_iff h second).mp hsecond)]
              exact List.sum_le_sum fun pool hpool => hcheapest second hsecond pool hpool
            exact le_antisymm (UInt64.le_iff_toNat_le.mpr (Nat.le_of_lt_succ (UInt64.toNat_lt _))) hle
          obtain ⟨second, hsecond, hsecondCheapest, hle⟩ := hharmless hreuse hall other hs
          have hvalid := (validateSolution_expand_iff h second).mp hsecond
          refine (objectiveScore_le_of_pools h horder valid hvalid (best second hvalid)
            fun _ => .inr fun pool hpool => ?_).trans hle
          exact le_antisymm (hcheapest second hsecond pool hpool)
            (hsecondCheapest offsets hplacement pool hpool)
        · exact objectiveScore_le_of_pools h horder valid hother (best other hother)
            fun _ => .inl hsaturated
      · exact objectiveScore_le_of_pools h horder valid hother (best other hother)
          fun hmem => absurd hmem hreuse

theorem harmless_of_proves (h : SearchOk problem) (horder : CostFirst problem.objective.terms)
    (hproves : Proves problem (solvePrepared random ⟨0⟩ problem problem.search)) :
    SaturationHarmless problem := by
  intro hreuse _ other hother
  cases @solvePrepared_end problem random ⟨0⟩ h with
  | undecided _ _ limited => exact absurd rfl limited
  | infeasible _ none =>
      exact absurd ((validateSolution_expand_iff h other).mp hother) (none other)
  | optimal offsets status some valid best =>
      obtain ⟨solution, hsome, -, hbest⟩ := hproves.1 status
      obtain rfl := Option.some.inj (some.symm.trans hsome)
      exact ⟨offsets, (validateSolution_expand_iff h offsets).mpr valid,
        cheapest_of_best h horder hreuse best, hbest _ hother⟩

theorem solve_eq
    (hcompatible : (checkSolverCompatibility problem exactCapabilities).compatible = true)
    (hlimitation : limitation problem = none)
    (herrors : problem.search.placement.errors = []) :
    solve random options problem = solvePrepared random options problem problem.search := by
  unfold solve
  rw [hcompatible, if_neg (by simp), hlimitation]
  dsimp only
  rw [buildSearch_eq, if_neg (not_not.mpr herrors)]

/-- A search with offsets of a valid placement returns the placement. -/
theorem solution_solvePrepared {offsets : List UInt64}
    (hoffsets : (exactSearch random options problem).offsets = some offsets)
    (hvalid : validateSolution problem (expandReuseNodeSolution problem.search offsets) = []) :
    (solvePrepared random options problem problem.search).solution =
      some (expandReuseNodeSolution problem.search offsets) := by
  have hplaced : solvePrepared random options problem problem.search = placedResult problem
      problem.search (seedsOf random problem) (exactSearch random options problem) offsets := by
    unfold solvePrepared
    unfold exactSearch at hoffsets ⊢
    dsimp only
    rw [hoffsets]
  rw [hplaced]
  unfold placedResult buildValidatedReuseResult
  dsimp only
  rw [if_neg (not_not.mpr hvalid)]

theorem not_proves_of_better {result : DsaResult} {offsets : List UInt64} (other : List UInt64)
    (hstatus : result.status = .feasible)
    (hsome : result.solution = some (expandReuseNodeSolution problem.search offsets))
    (hother : validateSolution problem (expandReuseNodeSolution problem.search other) = [])
    (hlt : objectiveOf problem other < objectiveOf problem offsets) : ¬ Proves problem result := by
  rintro ⟨hproves, -⟩
  obtain ⟨solution, hsolution, -, hbest⟩ := hproves hstatus
  obtain rfl := Option.some.inj (hsome.symm.trans hsolution)
  exact absurd (hbest _ hother) (not_le.mpr hlt)

/-- **Optimality of the joined pools.**  The proved answers are right under every node limit
exactly when saturation is harmless. -/
theorem canonicalBranchAndBound_optimal_iff
    (hcompatible : (checkSolverCompatibility problem exactCapabilities).compatible = true)
    (random : Shuffler) :
    (∀ options, Proves problem (solve random options problem)) ↔
      (limitation problem = none → problem.search.placement.errors = [] →
        SaturationHarmless problem) := by
  constructor
  · intro hall hlimitation herrors
    have hproves := hall ⟨0⟩
    rw [solve_eq hcompatible hlimitation herrors] at hproves
    exact harmless_of_proves (searchOk_of_compatible hcompatible rfl rfl herrors)
      (costFirst_of_limitation hlimitation) hproves
  · intro hharmless options
    by_cases hsearched : limitation problem = none ∧ problem.search.placement.errors = []
    · obtain ⟨hlimitation, herrors⟩ := hsearched
      rw [solve_eq hcompatible hlimitation herrors]
      exact proves_of_harmless (searchOk_of_compatible hcompatible rfl rfl herrors)
        (costFirst_of_limitation hlimitation) (hharmless hlimitation herrors)
    · -- a rejected problem gets no answer
      have hstatus : (solve random options problem).status = .unsupported ∨
          (solve random options problem).status = .invalidProblem := by
        unfold solve
        rw [hcompatible, if_neg (by simp)]
        cases hlimitation : limitation problem with
        | some reason => exact .inl rfl
        | none =>
            dsimp only
            rw [buildSearch_eq, if_pos fun herrors => hsearched ⟨hlimitation, herrors⟩]
            exact .inr rfl
      rcases hstatus with hstatus | hstatus
      · exact ⟨fun hyes => absurd (hstatus.symm.trans hyes) nofun,
          fun hno => absurd (hstatus.symm.trans hno) nofun⟩
      · exact ⟨fun hyes => absurd (hstatus.symm.trans hyes) nofun,
          fun hno => absurd (hstatus.symm.trans hno) nofun⟩

theorem canonicalBranchAndBound_optimal_iff_pairProblem :
    (∀ options, Proves pairProblem
      (solve CanonicalGreedySolver.keepOrder options pairProblem)) ↔
      (limitation pairProblem = none → pairProblem.search.placement.errors = [] →
        SaturationHarmless pairProblem) :=
  canonicalBranchAndBound_optimal_iff (by decide +kernel) CanonicalGreedySolver.keepOrder

/-- A pool whose only placement costs the largest word, and one with a choice between cost and
peak. -/
def saturatedPools : DsaProblem where
  buffers := [{ id := 0, size := 4, liveIntervals := [⟨0, 1⟩], allowedPools := [0] },
    { id := 1, size := 4, liveIntervals := [⟨1, 2⟩], allowedPools := [0] },
    { id := 2, size := 4, liveIntervals := [⟨0, 1⟩], allowedPools := [1] },
    { id := 3, size := 4, liveIntervals := [⟨1, 2⟩], allowedPools := [1] }]
  pools := [{ id := 0, capacity := some 4 }, { id := 1, capacity := some 8 }]
  costModel := some
    ⟨[{ first := 0, second := 1, cost := maxU64 }, { first := 2, second := 3, cost := 5 }]⟩
  objective := { terms := [.reuseCost, .totalPeak] }

/-- The second pool avoids its cost, which the total no longer shows, at a higher peak. -/
theorem solve_saturatedPools :
    ¬ Proves saturatedPools (solve CanonicalGreedySolver.keepOrder {} saturatedPools) := by
  have hsome : (solve CanonicalGreedySolver.keepOrder {} saturatedPools).solution =
      some (expandReuseNodeSolution saturatedPools.search [0, 0, 0, 4]) := by
    rw [solve_eq (by decide +kernel) (by decide +kernel) (by decide +kernel)]
    exact solution_solvePrepared (by decide +kernel) (by decide +kernel)
  exact not_proves_of_better [0, 0, 0, 0] (by decide +kernel) hsome (by decide +kernel)
    (by decide +kernel)

end answers

end CanonicalBranchAndBoundSolver

end Dsa
