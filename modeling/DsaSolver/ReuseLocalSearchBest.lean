import DsaSolver.ReuseLocalSearch
import DsaSolver.RepairSoundness
import DsaSolver.Pairs

/-! # The result of the reuse-penalty local search

The search returns the best of the candidates it evaluates, all permutations of the default order,
and of the results of the two constructive solvers it starts from, within its budget.  `TrialOk`
carries an iteration, `State.Ok` the loops, `SeedsOk` the seeds; whatever fits is valid for the
problem itself although it was packed for one with more separations. -/

namespace Dsa

variable {problem : DsaProblem}

/-! ### Valid results -/

/-- A feasible result is a valid placement with its objective. -/
def ValidWhenFeasible (problem : DsaProblem) (result : DsaResult) : Prop :=
  result.status = .feasible → ∃ solution, result.solution = some solution ∧
    validateSolution problem solution = [] ∧ result.objective = evaluateObjective problem solution

theorem ValidWhenFeasible.congr {result other : DsaResult} (h : ValidWhenFeasible problem other)
    (hsame : FirstFitSolver.SamePlacement result other) : ValidWhenFeasible problem result := by
  intro hfeasible
  rw [hsame.status] at hfeasible
  rw [hsame.solution, hsame.objective]
  exact h hfeasible

/-- More separations and another objective leave valid placements only. -/
theorem ValidWhenFeasible.of_withSoft {separations : List Separation} {objective : ObjectiveSpec}
    {result : DsaResult} (hvalid : validateProblem problem = [])
    (hsubset : problem.separations ⊆ separations)
    (h : ValidWhenFeasible (problem.withSoft separations problem.costModel objective) result) :
    ValidWhenFeasible problem result := by
  intro hfeasible
  obtain ⟨solution, hsolution, hsound, hobjective⟩ := h hfeasible
  refine ⟨solution, hsolution, (validateSolution_eq_nil_iff _ _).mpr ⟨hvalid, ?_⟩, hobjective⟩
  obtain ⟨hhard, hapart⟩ :=
    solutionOk_withSoft_iff.mp ((validateSolution_eq_nil_iff _ _).mp hsound).2
  exact solutionOk_iff_hardOk.mpr ⟨hhard, fun constraint hmem => hapart constraint (hsubset hmem)⟩

theorem samePlacement_trans {first second third : DsaResult}
    (h : FirstFitSolver.SamePlacement first second)
    (h' : FirstFitSolver.SamePlacement second third) : FirstFitSolver.SamePlacement first third :=
  ⟨h.status.trans h'.status, h.solution.trans h'.solution, h.objective.trans h'.objective⟩

/-- A packing of the promoted problem that fits is valid for the problem. -/
theorem placePromoted_valid (hvalid : validateProblem problem = [])
    (search : ReusePenaltySearchSpace) (pairs : List (ℕ × ℕ)) (order : List BufferId) :
    ValidWhenFeasible problem
      (placeWithOrder (withPromotedReuseEdges problem search pairs) order .firstFit) :=
  ValidWhenFeasible.of_withSoft hvalid (List.subset_append_left _ _) placeWithOrder_feasible

/-! ### Promote and repair -/

namespace PromoteRepairSolver

variable {search : ReusePenaltySearchSpace} {orders : List (List ℕ)}

theorem step_valid (hvalid : validateProblem problem = []) {state ended : State}
    (h : step problem search orders state = .repaired ended ∨
      step problem search orders state = .failed ended) :
    ValidWhenFeasible problem ended.last := by
  have hpack : ValidWhenFeasible problem (pack problem search orders state) :=
    placePromoted_valid hvalid _ _ _
  have hrepair : ∀ packed : State, packed.last = pack problem search orders state →
      (repair problem search orders packed = .repaired ended ∨
        repair problem search orders packed = .failed ended) →
      ValidWhenFeasible problem ended.last := by
    intro packed hlast hended
    have hend := @repair_end problem orders search packed
    generalize repair problem search orders packed = result at hend hended
    cases hend with
    | failed same =>
        rcases hended with heq | heq
        · cases heq
        · cases heq
          rw [same, hlast]
          exact hpack
    | demoted => rcases hended with heq | heq <;> cases heq
    | reordered => rcases hended with heq | heq <;> cases heq
  unfold step at h
  dsimp only at h
  cases hsolution : (pack problem search orders state).solution with
  | none =>
      rw [hsolution] at h
      exact hrepair _ rfl h
  | some solution =>
      rw [hsolution] at h
      dsimp only at h
      split_ifs at h with hfeasible
      · rw [beq_iff_eq] at hfeasible
        obtain ⟨other, hother, hsound, -⟩ := hpack hfeasible
        obtain rfl : other = solution := Option.some.inj (hother.symm.trans hsolution)
        rcases h with h | h
        · cases h
          exact fun _ => ⟨other, hsolution, hsound, rfl⟩
        · cases h
      · exact hrepair _ rfl h

/-- Whatever the loop ends with is valid if it fits. -/
theorem loop_valid (hvalid : validateProblem problem = []) {packings : ℕ} {state last : State}
    {returned : Bool} (h : loop problem search orders packings state = some (returned, last)) :
    ValidWhenFeasible problem last.last := by
  induction packings generalizing state with
  | zero => cases h
  | succ packings ih =>
      unfold loop at h
      cases hstep : step problem search orders state with
      | repaired ended =>
          rw [hstep] at h
          cases h
          exact step_valid hvalid (.inl hstep)
      | failed ended =>
          rw [hstep] at h
          cases h
          exact step_valid hvalid (.inr hstep)
      | next next =>
          rw [hstep] at h
          exact ih h

theorem accepted_of_feasible {random : Shuffler} (h : (solve random problem).status = .feasible) :
    CanonicalGreedySolver.Accepted problem := by
  unfold solve rejectUnsupported at h
  dsimp only at h
  split_ifs at h with hcompatible hinvalid hcapacities herrors hflexible
  constructor
  · simpa using hcompatible
  · intro pool hpool hnone
    apply hcapacities
    rw [List.any_eq_true]
    exact ⟨pool, hpool, Option.isNone_iff_eq_none.mpr hnone⟩
  · exact not_not.mp herrors
  · exact Bool.not_eq_true _ ▸ hflexible

theorem fallBack_valid {random : Shuffler} {last : State}
    (hlast : ValidWhenFeasible problem last.last) :
    ValidWhenFeasible problem (fallBack random problem search last) := by
  unfold fallBack
  dsimp only
  split_ifs
  · exact ValidWhenFeasible.congr (fun h => CanonicalGreedySolver.solve_feasible h) ⟨rfl, rfl, rfl⟩
  · exact hlast.congr ⟨rfl, rfl, rfl⟩

/-- A feasible result of promote and repair is valid. -/
theorem solve_valid (random : Shuffler) (problem : DsaProblem) :
    ValidWhenFeasible problem (solve random problem) := by
  intro hfeasible
  have haccepted := accepted_of_feasible hfeasible
  have hsearch := searchOk_of_accepted haccepted
  obtain ⟨returned, last, hrun, -⟩ := run_spec random hsearch
  have hlast : ValidWhenFeasible problem last.last := loop_valid hsearch.valid hrun
  refine ValidWhenFeasible.congr ?_ ⟨rfl, rfl, rfl⟩ hfeasible
  rw [solve_eq random haccepted hrun]
  split_ifs
  · exact hlast
  · exact fallBack_valid hlast

end PromoteRepairSolver

namespace ReusePenaltyLocalSearchSolver

variable {random : SearchEngine} {search : ReusePenaltySearchSpace}
  {options : ReusePenaltyLocalSearchOptions}

/-! ### Scores -/

theorem resultScore_congr {result other : DsaResult}
    (h : FirstFitSolver.SamePlacement result other) :
    resultScore problem result = resultScore problem other := by
  unfold resultScore
  rw [h.status, h.solution, h.objective]

/-- A result is no worse than another one, and fits if the other does. -/
structure NoWorse (problem : DsaProblem) (result other : DsaResult) : Prop where
  score : resultScore problem result ≤ resultScore problem other
  fits : other.status = .feasible → result.status = .feasible

/-- Only results that fit score zero first. -/
theorem fits_of_score_le {result other : DsaResult} (hother : other.status = .feasible)
    (hsolution : other.solution.isNone = false)
    (hle : resultScore problem result ≤ resultScore problem other) :
    result.status = .feasible := by
  by_contra hstatus
  obtain ⟨tail, htail⟩ : ∃ tail, resultScore problem other = 0 :: tail := by
    unfold resultScore
    rw [hsolution, hother, if_neg (by decide)]
    exact ⟨_, rfl⟩
  obtain ⟨positive, rest, hpositive, hrest⟩ : ∃ positive rest, 0 < positive ∧
      resultScore problem result = positive :: rest := by
    unfold resultScore
    split_ifs with hnone hfeasible
    · exact ⟨maxU64, _, by decide, rfl⟩
    · exact absurd (beq_iff_eq.mp hfeasible) hstatus
    · exact ⟨1, _, by decide, rfl⟩
  rw [htail, hrest] at hle
  have hless : (0 :: tail) < positive :: rest := List.Lex.rel hpositive
  exact absurd hle (not_le.mpr hless)

theorem noWorse_of_score_le {result other : DsaResult} (hvalid : ValidWhenFeasible problem other)
    (hle : resultScore problem result ≤ resultScore problem other) :
    NoWorse problem result other := by
  refine ⟨hle, fun hfeasible => ?_⟩
  obtain ⟨solution, hsolution, -⟩ := hvalid hfeasible
  exact fits_of_score_le hfeasible (by rw [hsolution]; rfl) hle

/-! ### Candidates -/

theorem Evaluated.score_eq {c : Candidate} (h : Evaluated problem search c) :
    c.score = resultScore problem c.result := by
  rw [h.eq]
  rfl

theorem Evaluated.valid (hvalid : validateProblem problem = []) {c : Candidate}
    (h : Evaluated problem search c) : ValidWhenFeasible problem c.result := by
  have hplaced := placePromoted_valid hvalid search c.promoted.toList c.order
  rw [h.eq]
  unfold evaluate reevaluated
  dsimp only
  intro hfeasible
  generalize placeWithOrder (withPromotedReuseEdges problem search c.promoted.toList) c.order
    .firstFit = result at hplaced hfeasible ⊢
  cases hsolution : result.solution with
  | none =>
      rw [hsolution] at hfeasible
      obtain ⟨solution, hsome, -⟩ := hplaced hfeasible
      cases hsolution.symm.trans hsome
  | some solution =>
      rw [hsolution] at hfeasible
      obtain ⟨other, hother, hsound, -⟩ := hplaced hfeasible
      obtain rfl : other = solution := Option.some.inj (hother.symm.trans hsolution)
      exact ⟨other, rfl, hsound, rfl⟩

section best

variable {seen : List Candidate} {best c : Candidate}

theorem keepBetter_eq (best c : Candidate) : keepBetter best c = best ∨ keepBetter best c = c := by
  unfold keepBetter
  split_ifs
  · exact .inr rfl
  · exact .inl rfl

theorem score_keepBetter_le (best c : Candidate) :
    (keepBetter best c).score ≤ best.score ∧ (keepBetter best c).score ≤ c.score := by
  unfold keepBetter
  split_ifs with hbetter
  · exact ⟨score_le_of_better hbetter, le_rfl⟩
  · exact ⟨le_rfl, score_le_of_not_better hbetter⟩

theorem bestSeen_keepBetter (h : Theory.BestSeen Candidate.score seen best) (c : Candidate) :
    Theory.BestSeen Candidate.score (c :: seen) (keepBetter best c) := by
  obtain ⟨hbest, hcandidate⟩ := score_keepBetter_le best c
  constructor
  · rcases keepBetter_eq best c with heq | heq
    · rw [heq]
      exact List.mem_cons_of_mem _ h.mem
    · rw [heq]
      exact List.mem_cons_self
  · intro d hd
    rcases List.mem_cons.mp hd with rfl | hd
    · exact hcandidate
    · exact hbest.trans (h.le d hd)

end best

/-! ### The loops -/

/-- What every state of the search satisfies: the incumbent is the best seen, the search stands at
a candidate it has seen, all of them are evaluated, and the budget is kept. -/
structure State.Ok (problem : DsaProblem) (search : ReusePenaltySearchSpace) (maxEvaluations : ℕ)
    {Engine : Type} (state : State Engine) : Prop where
  best : Theory.BestSeen Candidate.score state.seen state.best
  current : state.current ∈ state.seen
  evaluated : ∀ c ∈ state.seen, Evaluated problem search c
  budget : state.seen.length ≤ max 1 maxEvaluations
  seedOrder : evaluate problem search (nodeOrder problem search) ∅ ∈ state.seen

section loops

variable {state : State random.Engine}

theorem State.Ok.visit (h : state.Ok problem search options.maxEvaluations)
    (hbudget : state.seen.length < options.maxEvaluations) {candidate : Candidate}
    (hcandidate : Evaluated problem search candidate) :
    (state.visit candidate).Ok problem search options.maxEvaluations where
  best := bestSeen_keepBetter h.best candidate
  current := List.mem_cons_self
  evaluated := List.forall_mem_cons.mpr ⟨hcandidate, h.evaluated⟩
  budget := (Nat.succ_le_of_lt hbudget).trans (le_max_right _ _)
  seedOrder := List.mem_cons_of_mem _ h.seedOrder

/-- The counters and the engine do not matter. -/
theorem State.Ok.congr (h : state.Ok problem search options.maxEvaluations)
    (other : State random.Engine) (hbest : other.best = state.best) (hseen : other.seen = state.seen)
    (hcurrent : other.current ∈ state.seen) : other.Ok problem search options.maxEvaluations := by
  constructor
  · rw [hbest, hseen]
    exact h.best
  · rw [hseen]
    exact hcurrent
  all_goals rw [hseen]
  · exact h.evaluated
  · exact h.budget
  · exact h.seedOrder

theorem State.Ok.kick (h : state.Ok problem search options.maxEvaluations)
    (hbudget : state.seen.length < options.maxEvaluations) (softCandidates : List (ℕ × ℕ)) :
    (kick random problem search softCandidates state).Ok problem search options.maxEvaluations := by
  have hperm := (applyOrderMove_perm state.current.order state.engine).trans
    (h.evaluated _ h.current).perm
  unfold ReusePenaltyLocalSearchSolver.kick
  dsimp only
  split_ifs
  all_goals
    apply State.Ok.visit
    · exact h.congr _ rfl rfl h.current
    · exact hbudget
    · exact evaluated_evaluate hperm _

/-- The state after the candidates of an iteration, before it moves. -/
theorem State.Ok.tried (h : state.Ok problem search options.maxEvaluations)
    {trial : Trial random.Engine} (htrial : TrialOk problem search options.maxEvaluations state trial) :
    (∀ c ∈ trial.state.seen, Evaluated problem search c) ∧
      trial.state.seen.length ≤ max 1 options.maxEvaluations ∧ trial.next ∈ trial.state.seen ∧
        ∀ c ∈ trial.state.seen, state.best.score ≤ c.score ∨ trial.next.score ≤ c.score := by
  refine ⟨fun c hc => ?_, ?_, ?_, fun c hc => ?_⟩
  · exact (htrial.evaluated (h.evaluated _ h.current).perm c hc).elim (h.evaluated c) id
  · exact htrial.budget.trans (max_le h.budget (le_max_right _ _))
  · refine htrial.next.elim (fun heq => ?_) id
    rw [heq]
    exact htrial.seen h.current
  · exact (htrial.covered c hc).imp_left (h.best.le c)

/-- The step lemma: what the next candidate improves on is kept. -/
theorem State.Ok.iterate (h : state.Ok problem search options.maxEvaluations) :
    (iterate random problem search options state).Ok problem search options.maxEvaluations := by
  have htrial : TrialOk problem search options.maxEvaluations state
    (trials random problem search options state) := trials_ok state
  unfold ReusePenaltyLocalSearchSolver.iterate
  dsimp only
  generalize trials random problem search options state = trial at htrial ⊢
  obtain ⟨hevaluated, hbudget, hnext, hcovered⟩ := h.tried htrial
  by_cases himproved : (trial.improved && better trial.next state.current) = true
  · rw [if_pos himproved]
    obtain ⟨hbest, hnew⟩ := score_keepBetter_le trial.state.best trial.next
    refine ⟨⟨?_, fun c hc => ?_⟩, hnext, hevaluated, hbudget, htrial.seen h.seedOrder⟩
    · rcases keepBetter_eq trial.state.best trial.next with heq | heq
      · rw [heq, htrial.best]
        exact htrial.seen h.best.mem
      · rw [heq]
        exact hnext
    · rcases hcovered c hc with hle | hle
      · rw [htrial.best] at hbest ⊢
        exact hbest.trans hle
      · exact hnew.trans hle
  · rw [if_neg himproved]
    -- nothing of the iteration beats the candidate the search stands at
    have hle : state.best.score ≤ trial.next.score := by
      cases hflag : trial.improved with
      | false =>
          rw [htrial.unimproved hflag]
          exact h.best.le _ h.current
      | true =>
          rw [hflag, Bool.true_and] at himproved
          exact (h.best.le _ h.current).trans (score_le_of_not_better himproved)
    have hstagnant : ∀ current ∈ trial.state.seen,
        ({ trial.state with
            current := current
            stagnation := trial.state.stagnation + 1 } : State random.Engine).Ok problem search
          options.maxEvaluations := by
      intro current hcurrent
      refine ⟨⟨?_, fun c hc => ?_⟩, hcurrent, hevaluated, hbudget, htrial.seen h.seedOrder⟩
      · rw [htrial.best]
        exact htrial.seen h.best.mem
      · rw [htrial.best]
        exact (hcovered c hc).elim id hle.trans
    have hcurrent : trial.state.current ∈ trial.state.seen := by
      rw [htrial.current]
      exact htrial.seen h.current
    cases hescape : trial.acceptedEscape with
    | some escape =>
        have hmem := htrial.escape escape hescape
        exact (hstagnant escape hmem).congr _ rfl rfl hmem
    | none =>
        dsimp only
        split_ifs with hkick
        · exact (hstagnant _ hcurrent).kick hkick.2 _
        · exact hstagnant _ hcurrent

/-- The run lemma of an iteration. -/
theorem State.Ok.climb (h : state.Ok problem search options.maxEvaluations) :
    (climb random problem search options state).Ok problem search options.maxEvaluations := by
  induction state using climb.induct random problem search options with
  | case1 state hless ih =>
      rw [ReusePenaltyLocalSearchSolver.climb, if_pos hless]
      exact ih h.iterate
  | case2 state hless =>
      rw [ReusePenaltyLocalSearchSolver.climb, if_neg hless]
      exact h

theorem State.Ok.begin (h : state.Ok problem search options.maxEvaluations)
    (hbudget : state.seen.length < options.maxEvaluations) (isFirst : Bool) :
    (begin random problem search isFirst state).Ok problem search options.maxEvaluations := by
  unfold ReusePenaltyLocalSearchSolver.begin
  dsimp only
  split_ifs
  · exact h.congr _ rfl rfl h.best.mem
  · apply State.Ok.visit
    · exact h.congr _ rfl rfl h.best.mem
    · exact hbudget
    · exact evaluated_evaluate
        ((random.shuffle_perm _ _).trans (h.evaluated _ h.best.mem).perm) _

/-- The run lemma of the restarts. -/
theorem State.Ok.restartLoop (h : state.Ok problem search options.maxEvaluations) (remaining : ℕ) :
    (restartLoop random problem search options remaining state).Ok problem search
      options.maxEvaluations := by
  induction remaining generalizing state with
  | zero => exact h
  | succ remaining ih =>
      unfold ReusePenaltyLocalSearchSolver.restartLoop
      split_ifs with hbudget
      · exact ih (h.begin hbudget _).climb
      · exact h

end loops

/-! ### The seeds -/

section incumbent

variable {kept : Option DsaResult} {result other : DsaResult}

/-- The constructive incumbent is no worse than a result. -/
def Covers (problem : DsaProblem) (kept : Option DsaResult) (result : DsaResult) : Prop :=
  ∃ incumbent ∈ kept, resultScore problem incumbent ≤ resultScore problem result

theorem mem_retainIncumbent (h : other ∈ retainIncumbent problem kept result) :
    other ∈ kept ∨ other = result := by
  unfold retainIncumbent at h
  split_ifs at h
  · exact .inl h
  · cases kept with
    | none => exact .inr (Option.some.inj h).symm
    | some incumbent =>
        dsimp only at h
        split_ifs at h
        · exact .inr (Option.some.inj h).symm
        · exact .inl h

theorem covers_retainIncumbent (hfeasible : result.status = .feasible)
    (hsolution : result.solution.isNone = false) :
    Covers problem (retainIncumbent problem kept result) result := by
  unfold retainIncumbent
  rw [hfeasible, hsolution, if_neg (by decide)]
  cases kept with
  | none => exact ⟨result, rfl, le_rfl⟩
  | some incumbent =>
      dsimp only
      split_ifs with hless
      · exact ⟨result, rfl, le_rfl⟩
      · exact ⟨incumbent, rfl, not_lt.mp hless⟩

/-- The incumbent gets no worse. -/
theorem Covers.retain (h : Covers problem kept other) (result : DsaResult) :
    Covers problem (retainIncumbent problem kept result) other := by
  obtain ⟨incumbent, hmem, hle⟩ := h
  obtain rfl := Option.mem_def.mp hmem
  unfold retainIncumbent
  split_ifs
  · exact ⟨incumbent, rfl, hle⟩
  · dsimp only
    split_ifs with hless
    · exact ⟨result, rfl, hless.le.trans hle⟩
    · exact ⟨incumbent, rfl, hle⟩

end incumbent

/-- What the seeds satisfy. -/
structure SeedsOk (problem : DsaProblem) (search : ReusePenaltySearchSpace) (maxEvaluations : ℕ)
    (seeds : Seeds) : Prop where
  best : Theory.BestSeen Candidate.score seeds.seen seeds.best
  evaluated : ∀ c ∈ seeds.seen, Evaluated problem search c
  budget : seeds.seen.length ≤ max 1 maxEvaluations
  seedOrder : evaluate problem search (nodeOrder problem search) ∅ ∈ seeds.seen

section seeds

variable {seeds : Seeds}

theorem SeedsOk.consider (h : SeedsOk problem search options.maxEvaluations seeds)
    (hbudget : seeds.seen.length < options.maxEvaluations) {candidate : Candidate}
    (hcandidate : Evaluated problem search candidate) :
    SeedsOk problem search options.maxEvaluations (seeds.consider candidate) where
  best := bestSeen_keepBetter h.best candidate
  evaluated := List.forall_mem_cons.mpr ⟨hcandidate, h.evaluated⟩
  budget := (Nat.succ_le_of_lt hbudget).trans (le_max_right _ _)
  seedOrder := List.mem_cons_of_mem _ h.seedOrder

/-- The nodes of a placement, with the placements. -/
theorem map_rankedNodes {solution : DsaSolution} {ranked : List (Placement × BufferId)}
    (h : rankedNodes search solution = some ranked) :
    ranked.map Prod.snd = search.placement.nodes.map PlacementSearchNode.representative := by
  unfold rankedNodes at h
  generalize search.placement.nodes = nodes at h ⊢
  induction nodes generalizing ranked with
  | nil =>
      cases h
      rfl
  | cons node nodes ih =>
      rw [List.mapM_cons, Option.bind_eq_bind, Option.bind_eq_some_iff] at h
      obtain ⟨first, hfirst, hrest⟩ := h
      rw [Option.bind_eq_bind, Option.bind_eq_some_iff] at hrest
      obtain ⟨rest, hrest, heq⟩ := hrest
      obtain ⟨placement, -, rfl⟩ := Option.map_eq_some_iff.mp hfirst
      cases heq
      rw [List.map_cons, List.map_cons, ih hrest]

/-- The nodes are those of the order. -/
def NodesOrdered (problem : DsaProblem) (search : ReusePenaltySearchSpace) : Prop :=
  (search.placement.nodes.map PlacementSearchNode.representative).Perm (nodeOrder problem search)

theorem evaluated_constructiveSeed (hnodes : NodesOrdered problem search) {result : DsaResult}
    {promoteSeparatedPairs : Bool} {candidate : Candidate}
    (h : constructiveSeed problem search result promoteSeparatedPairs = some candidate) :
    Evaluated problem search candidate := by
  unfold constructiveSeed at h
  by_cases hstatus : (result.status != .feasible) = true
  · rw [if_pos hstatus] at h
    cases h
  rw [if_neg hstatus] at h
  cases hsolution : result.solution with
  | none =>
      rw [hsolution] at h
      cases h
  | some solution =>
      rw [hsolution] at h
      obtain ⟨ranked, hranked, rfl⟩ := Option.map_eq_some_iff.mp h
      apply evaluated_evaluate
      refine ((List.perm_insertionSort _ ranked).map Prod.snd).trans ?_
      rw [map_rankedNodes hranked]
      exact hnodes

/-- A constructive solver adds its seed, if it has one, and its result. -/
theorem construct_spec (seeds : Seeds) (result : DsaResult) (promoteSeparatedPairs : Bool) :
    (seeds.construct problem search result promoteSeparatedPairs).constructiveIncumbent =
        retainIncumbent problem seeds.constructiveIncumbent result ∧
      (seeds.construct problem search result promoteSeparatedPairs).seen.length ≤
        seeds.seen.length + 1 := by
  unfold Seeds.construct
  dsimp only
  cases constructiveSeed problem search result promoteSeparatedPairs with
  | none => exact ⟨rfl, Nat.le_succ _⟩
  | some candidate => exact ⟨rfl, le_rfl⟩

theorem SeedsOk.construct (h : SeedsOk problem search options.maxEvaluations seeds)
    (hnodes : NodesOrdered problem search)
    (hbudget : seeds.seen.length < options.maxEvaluations) (result : DsaResult)
    (promoteSeparatedPairs : Bool) : SeedsOk problem search options.maxEvaluations
      (seeds.construct problem search result promoteSeparatedPairs) := by
  unfold Seeds.construct
  dsimp only
  cases hseed : constructiveSeed problem search result promoteSeparatedPairs with
  | none => exact ⟨h.best, h.evaluated, h.budget, h.seedOrder⟩
  | some candidate =>
      have hconsider := h.consider hbudget (evaluated_constructiveSeed hnodes hseed)
      exact ⟨hconsider.best, hconsider.evaluated, hconsider.budget, hconsider.seedOrder⟩

theorem orderSeeds_ok : SeedsOk problem search options.maxEvaluations
    (orderSeeds problem search options) := by
  have hfirst : SeedsOk problem search options.maxEvaluations
      { best := evaluate problem search (nodeOrder problem search) ∅
        seen := [evaluate problem search (nodeOrder problem search) ∅] } :=
    ⟨Theory.bestSeen_singleton _, fun c hc => by
      rw [List.mem_singleton.mp hc]
      exact evaluated_evaluate (.refl _) _, le_max_left _ _, List.mem_cons_self⟩
  unfold orderSeeds
  dsimp only
  split_ifs with hbudget
  · exact hfirst.consider hbudget (evaluated_evaluate (.refl _) _)
  · exact hfirst

theorem length_orderSeeds : (orderSeeds problem search options).seen.length ≤ 2 ∧
    (orderSeeds problem search options).constructiveIncumbent = none := by
  unfold orderSeeds
  dsimp only
  split_ifs
  · exact ⟨le_rfl, rfl⟩
  · exact ⟨Nat.le_succ 1, rfl⟩

variable {shuffler : Shuffler}

theorem greedySeeds_ok (hnodes : NodesOrdered problem search) :
    SeedsOk problem search options.maxEvaluations (greedySeeds problem search options shuffler) := by
  unfold greedySeeds
  dsimp only
  split_ifs with hbudget
  · exact orderSeeds_ok.construct hnodes hbudget _ _
  · exact orderSeeds_ok

theorem length_greedySeeds : (greedySeeds problem search options shuffler).seen.length ≤ 3 := by
  have hlength := (@length_orderSeeds problem search options).1
  unfold greedySeeds
  dsimp only
  split_ifs
  · exact (construct_spec _ _ _).2.trans (Nat.succ_le_succ hlength)
  · exact hlength.trans (Nat.le_succ 2)

theorem seeds_ok (hnodes : NodesOrdered problem search) :
    SeedsOk problem search options.maxEvaluations
      (ReusePenaltyLocalSearchSolver.seeds problem search options shuffler) := by
  unfold ReusePenaltyLocalSearchSolver.seeds
  dsimp only
  split_ifs with hbudget
  · exact (greedySeeds_ok hnodes).construct hnodes hbudget _ _
  · exact greedySeeds_ok hnodes

/-- The incumbent is a result of one of the two solvers. -/
theorem seeds_incumbent {result : DsaResult} (h : result ∈
    (ReusePenaltyLocalSearchSolver.seeds problem search options shuffler).constructiveIncumbent) :
    result = CanonicalGreedySolver.solve shuffler {} (seedProblem problem) ∨
      result = PromoteRepairSolver.solve shuffler (seedProblem problem) := by
  have hgreedy : ∀ other ∈ (greedySeeds problem search options shuffler).constructiveIncumbent,
      other = CanonicalGreedySolver.solve shuffler {} (seedProblem problem) := by
    intro other hother
    unfold greedySeeds at hother
    dsimp only at hother
    split_ifs at hother
    · rw [(construct_spec _ _ _).1, length_orderSeeds.2] at hother
      exact (mem_retainIncumbent hother).elim (fun hnone => by cases hnone) id
    · rw [length_orderSeeds.2] at hother
      cases hother
  unfold ReusePenaltyLocalSearchSolver.seeds at h
  dsimp only at h
  split_ifs at h
  · rw [(construct_spec _ _ _).1] at h
    exact (mem_retainIncumbent h).imp_left (hgreedy result)
  · exact .inl (hgreedy result h)

theorem seeds_covers_greedy (hbudget : 2 < options.maxEvaluations)
    (hfeasible : (CanonicalGreedySolver.solve shuffler {} (seedProblem problem)).status = .feasible) :
    Covers problem
      (ReusePenaltyLocalSearchSolver.seeds problem search options shuffler).constructiveIncumbent
      (CanonicalGreedySolver.solve shuffler {} (seedProblem problem)) := by
  obtain ⟨solution, hsolution, -⟩ := CanonicalGreedySolver.solve_feasible hfeasible
  have hgreedy : Covers problem (greedySeeds problem search options shuffler).constructiveIncumbent
      (CanonicalGreedySolver.solve shuffler {} (seedProblem problem)) := by
    unfold greedySeeds
    dsimp only
    rw [if_pos (length_orderSeeds.1.trans_lt hbudget), (construct_spec _ _ _).1]
    exact covers_retainIncumbent hfeasible (by rw [hsolution]; rfl)
  unfold ReusePenaltyLocalSearchSolver.seeds
  dsimp only
  split_ifs
  · rw [(construct_spec _ _ _).1]
    exact hgreedy.retain _
  · exact hgreedy

theorem seeds_covers_repaired (hbudget : 3 < options.maxEvaluations)
    (hfeasible : (PromoteRepairSolver.solve shuffler (seedProblem problem)).status = .feasible) :
    Covers problem
      (ReusePenaltyLocalSearchSolver.seeds problem search options shuffler).constructiveIncumbent
      (PromoteRepairSolver.solve shuffler (seedProblem problem)) := by
  obtain ⟨solution, hsolution, -⟩ := PromoteRepairSolver.solve_valid _ _ hfeasible
  unfold ReusePenaltyLocalSearchSolver.seeds
  dsimp only
  rw [if_pos (length_greedySeeds.trans_lt hbudget), (construct_spec _ _ _).1]
  exact covers_retainIncumbent hfeasible (by rw [hsolution]; rfl)

end seeds

/-! ### The output -/

/-- The output is the best of the incumbents. -/
theorem output_spec (seeds : Seeds) {best : Candidate} (hbest : Evaluated problem search best)
    (metrics : List (String × UInt64)) :
    (FirstFitSolver.SamePlacement (output problem seeds best metrics) best.result ∨
      ∃ incumbent ∈ seeds.constructiveIncumbent,
        FirstFitSolver.SamePlacement (output problem seeds best metrics) incumbent) ∧
      resultScore problem (output problem seeds best metrics) ≤ best.score ∧
        ∀ incumbent ∈ seeds.constructiveIncumbent,
          resultScore problem (output problem seeds best metrics) ≤ resultScore problem incumbent := by
  have hscore := hbest.score_eq
  have hkept : ∀ result, constructiveOutput problem seeds.constructiveIncumbent best = result →
      FirstFitSolver.SamePlacement (output problem seeds best metrics)
        (result.getD best.result) := by
    rintro result rfl
    exact ⟨rfl, rfl, rfl⟩
  cases hconstructive : constructiveOutput problem seeds.constructiveIncumbent best with
  | some kept =>
      have hsame := hkept _ hconstructive
      obtain ⟨hincumbent, hless⟩ := Option.filter_eq_some_iff.mp hconstructive
      have hless := of_decide_eq_true hless
      rw [resultScore_congr hsame, hincumbent]
      refine ⟨.inr ⟨kept, rfl, hsame⟩, hless.le, fun incumbent hmem => ?_⟩
      rw [← Option.some.inj hmem]
      exact le_rfl
  | none =>
      have hsame := hkept _ hconstructive
      rw [resultScore_congr hsame]
      refine ⟨.inl hsame, le_of_eq hscore.symm, fun incumbent hmem => ?_⟩
      have hnot := Option.filter_eq_none_iff.mp hconstructive incumbent hmem
      rw [decide_eq_true_eq] at hnot
      exact (le_of_eq hscore.symm).trans (not_lt.mp hnot)

/-- Representatives come back from their nodes. -/
theorem filterMap_nodeByRepresentative {nodes : List PlacementSearchNode} {order : List BufferId}
    (h : ∀ id ∈ order, id ∈ nodes.map PlacementSearchNode.representative) :
    ((order.filterMap (nodeByRepresentative nodes)).map fun node =>
      (nodes.getD node {}).representative) = order := by
  induction order with
  | nil => rfl
  | cons id order ih =>
      obtain ⟨hid, hrest⟩ := List.forall_mem_cons.mp h
      obtain ⟨node, hnode, rfl⟩ := List.mem_map.mp hid
      obtain ⟨index, hindex⟩ : ∃ index, nodeByRepresentative nodes node.representative =
          some index := by
        refine Option.isSome_iff_exists.mp (List.findIdx?_isSome.trans ?_)
        exact List.any_eq_true.mpr ⟨node, hnode, beq_self_eq_true _⟩
      obtain ⟨hlt, hfound, -⟩ := List.findIdx?_eq_some_iff_getElem.mp hindex
      rw [List.filterMap_cons_some hindex, List.map_cons, ih hrest, List.getD_eq_getElem _ _ hlt,
        beq_iff_eq.mp hfound]

/-- The checks of the solver pass. -/
structure Accepted (problem : DsaProblem) : Prop where
  valid : validateProblem problem = []
  compatible : (checkSolverCompatibility problem capabilities).compatible = true
  capacities : ∀ pool ∈ problem.pools, pool.capacity ≠ none
  errors : (buildReusePenaltySearchSpace problem).placement.errors = []
  fixedPools : (buildReusePenaltySearchSpace problem).placement.flexiblePools = false

theorem Accepted.solve_eq (h : Accepted problem) (random : SearchEngine) (shuffler : Shuffler)
    (options : ReusePenaltyLocalSearchOptions) : solve random shuffler options problem =
      solveAccepted random problem (buildReusePenaltySearchSpace problem) options shuffler := by
  have hcapacities : ¬(problem.pools.any fun pool => pool.capacity.isNone) = true := by
    rw [List.any_eq_true]
    rintro ⟨pool, hpool, hnone⟩
    exact h.capacities pool hpool (Option.isNone_iff_eq_none.mp hnone)
  unfold solve
  dsimp only
  rw [if_neg (not_not.mpr h.valid), h.compatible, if_neg (by simp), if_neg hcapacities, h.errors,
    if_neg (by simp), h.fixedPools, if_neg (by simp)]

/-- The order of the nodes is the default order, which has every node. -/
theorem Accepted.nodeOrder_eq (h : Accepted problem) :
    nodeOrder problem (buildReusePenaltySearchSpace problem) = defaultPlacementOrder problem ∧
      NodesOrdered problem (buildReusePenaltySearchSpace problem) := by
  have herrors := h.errors
  have hfixed := h.fixedPools
  have hplacement := SearchOk.placement_search problem
  unfold NodesOrdered nodeOrder defaultReuseNodeOrder ReusePenaltySearchSpace.nodeAt
  rw [buildSearch_eq, hplacement] at herrors hfixed ⊢
  have hclean : ¬((prepare problem).errors ≠ [] ∨ (prepare problem).flexiblePools = true) := by
    intro hdirty
    unfold buildPlacementSearchSpace at herrors hfixed
    dsimp only at herrors hfixed
    rw [if_pos hdirty] at herrors hfixed
    rcases hdirty with hdirty | hdirty
    · exact hdirty herrors
    · exact absurd (hdirty.symm.trans hfixed) (by decide)
  have hrepresentatives : (buildPlacementSearchSpace problem).nodes.map
      PlacementSearchNode.representative = (List.range (prepare problem).supers.length).map
        fun index => ((prepare problem).superAt index).representative := by
    unfold buildPlacementSearchSpace
    dsimp only
    rw [if_neg hclean, List.map_map]
    rfl
  have hperm : ((buildPlacementSearchSpace problem).nodes.map
      PlacementSearchNode.representative).Perm (defaultPlacementOrder problem) := by
    rw [hrepresentatives]
    unfold defaultPlacementOrder
    dsimp only
    rw [if_neg hclean]
    exact ((List.perm_insertionSort _ _).map _).symm
  have horder := filterMap_nodeByRepresentative fun id hid => hperm.symm.subset hid
  exact ⟨horder, by rw [horder]; exact hperm⟩

/-- The output of the search is chosen between the best candidate evaluated and the incumbent. -/
theorem solveAccepted_spec (random : SearchEngine) (search : ReusePenaltySearchSpace)
    (options : ReusePenaltyLocalSearchOptions) (shuffler : Shuffler)
    (hnodes : NodesOrdered problem search) :
    ∃ state : State random.Engine, state.Ok problem search options.maxEvaluations ∧
      evaluatedCandidates random problem search options shuffler = state.seen ∧ ∃ metrics,
        FirstFitSolver.SamePlacement (solveAccepted random problem search options shuffler)
          (output problem (seeds problem search options shuffler) state.best metrics) := by
  have hseeds := @seeds_ok problem search options shuffler hnodes
  have hstart : ({ current := (seeds problem search options shuffler).best
                   best := (seeds problem search options shuffler).best
                   seen := (seeds problem search options shuffler).seen
                   engine := random.seeded options.seed } : State random.Engine).Ok problem search
      options.maxEvaluations :=
    ⟨hseeds.best, hseeds.best.mem, hseeds.evaluated, hseeds.budget, hseeds.seedOrder⟩
  unfold solveAccepted evaluatedCandidates
  dsimp only
  split_ifs
  · exact ⟨_, hstart, rfl, _, rfl, rfl, rfl⟩
  · exact ⟨_, hstart.restartLoop options.restarts, rfl, _, OrderSearch.noted_same _ _⟩

/-- **The reuse-penalty local search returns the best it has seen.**  It evaluates permutations of
the default order, as many as it is allowed; its result is that of one of them or of a constructive
solver it started from.  No candidate and no feasible constructive result is better, and none of
them fits unless the result does.  A result that fits is valid for the problem, with the objective
reported. -/
theorem reuseLocalSearch_best (random : SearchEngine) (shuffler : Shuffler)
    (options : ReusePenaltyLocalSearchOptions) (problem : DsaProblem) (h : Accepted problem) :
    (evaluate problem (buildReusePenaltySearchSpace problem) (defaultPlacementOrder problem) ∅ ∈
        evaluatedCandidates random problem (buildReusePenaltySearchSpace problem) options shuffler ∧
      (evaluatedCandidates random problem (buildReusePenaltySearchSpace problem) options
        shuffler).length ≤ max 1 options.maxEvaluations ∧
      (∀ c ∈ evaluatedCandidates random problem (buildReusePenaltySearchSpace problem) options
          shuffler,
        c = evaluate problem (buildReusePenaltySearchSpace problem) c.order c.promoted ∧
        c.order.Perm (defaultPlacementOrder problem) ∧
        NoWorse problem (solve random shuffler options problem) c.result) ∧
      ((∃ c ∈ evaluatedCandidates random problem (buildReusePenaltySearchSpace problem) options
          shuffler,
          FirstFitSolver.SamePlacement (solve random shuffler options problem) c.result) ∨
        FirstFitSolver.SamePlacement (solve random shuffler options problem)
          (CanonicalGreedySolver.solve shuffler {} (seedProblem problem)) ∨
        FirstFitSolver.SamePlacement (solve random shuffler options problem)
          (PromoteRepairSolver.solve shuffler (seedProblem problem)))) ∧
    (2 < options.maxEvaluations →
      (CanonicalGreedySolver.solve shuffler {} (seedProblem problem)).status = .feasible →
        NoWorse problem (solve random shuffler options problem)
          (CanonicalGreedySolver.solve shuffler {} (seedProblem problem))) ∧
    (3 < options.maxEvaluations →
      (PromoteRepairSolver.solve shuffler (seedProblem problem)).status = .feasible →
        NoWorse problem (solve random shuffler options problem)
          (PromoteRepairSolver.solve shuffler (seedProblem problem))) ∧
    ValidWhenFeasible problem (solve random shuffler options problem) := by
  have hgreedy : ValidWhenFeasible problem
      (CanonicalGreedySolver.solve shuffler {} (seedProblem problem)) :=
    ValidWhenFeasible.of_withSoft h.valid (List.Subset.refl _) CanonicalGreedySolver.solve_feasible
  have hrepaired : ValidWhenFeasible problem
      (PromoteRepairSolver.solve shuffler (seedProblem problem)) :=
    ValidWhenFeasible.of_withSoft h.valid (List.Subset.refl _) (PromoteRepairSolver.solve_valid _ _)
  obtain ⟨horder, hnodes⟩ := h.nodeOrder_eq
  rw [h.solve_eq]
  obtain ⟨state, hstate, hseen, metrics, hsame⟩ := @solveAccepted_spec problem random
    (buildReusePenaltySearchSpace problem) options shuffler hnodes
  obtain ⟨hattained, hle, hleIncumbent⟩ :=
    output_spec (seeds problem (buildReusePenaltySearchSpace problem) options shuffler)
      (hstate.evaluated _ hstate.best.mem) metrics
  have hscore := @resultScore_congr problem _ _ hsame
  have hnoWorse : ∀ other, ValidWhenFeasible problem other →
      resultScore problem (output problem
        (seeds problem (buildReusePenaltySearchSpace problem) options shuffler) state.best metrics) ≤
          resultScore problem other →
      NoWorse problem (solveAccepted random problem (buildReusePenaltySearchSpace problem) options
        shuffler) other :=
    fun other hother hle => noWorse_of_score_le hother ((le_of_eq hscore).trans hle)
  have hcovered : ∀ other, ValidWhenFeasible problem other → Covers problem
      (seeds problem (buildReusePenaltySearchSpace problem) options shuffler).constructiveIncumbent
        other →
      NoWorse problem (solveAccepted random problem (buildReusePenaltySearchSpace problem) options
        shuffler) other := by
    rintro other hother ⟨incumbent, hmem, hbelow⟩
    exact hnoWorse other hother ((hleIncumbent incumbent hmem).trans hbelow)
  have hresult : (∃ c ∈ state.seen, FirstFitSolver.SamePlacement
        (solveAccepted random problem (buildReusePenaltySearchSpace problem) options shuffler)
          c.result) ∨
      FirstFitSolver.SamePlacement
        (solveAccepted random problem (buildReusePenaltySearchSpace problem) options shuffler)
          (CanonicalGreedySolver.solve shuffler {} (seedProblem problem)) ∨
      FirstFitSolver.SamePlacement
        (solveAccepted random problem (buildReusePenaltySearchSpace problem) options shuffler)
          (PromoteRepairSolver.solve shuffler (seedProblem problem)) := by
    rcases hattained with hbest | ⟨incumbent, hmem, hincumbent⟩
    · exact .inl ⟨state.best, hstate.best.mem, samePlacement_trans hsame hbest⟩
    · rcases seeds_incumbent hmem with rfl | rfl
      · exact .inr (.inl (samePlacement_trans hsame hincumbent))
      · exact .inr (.inr (samePlacement_trans hsame hincumbent))
  have hseedOrder := hstate.seedOrder
  rw [horder] at hseedOrder
  rw [hseen]
  refine ⟨⟨hseedOrder, hstate.budget, fun c hc => ?_, hresult⟩,
    fun hbudget hfeasible => hcovered _ hgreedy (seeds_covers_greedy hbudget hfeasible),
    fun hbudget hfeasible => hcovered _ hrepaired (seeds_covers_repaired hbudget hfeasible), ?_⟩
  · have hc' := hstate.evaluated c hc
    refine ⟨hc'.eq, horder ▸ hc'.perm, hnoWorse _ (hc'.valid h.valid) ?_⟩
    rw [← hc'.score_eq]
    exact hle.trans (hstate.best.le c hc)
  · rcases hresult with ⟨c, hc, hsame⟩ | hsame | hsame
    · exact ((hstate.evaluated c hc).valid h.valid).congr hsame
    · exact hgreedy.congr hsame
    · exact hrepaired.congr hsame

/-- An engine that counts, shuffles nothing and never escapes. -/
def countingSearch : SearchEngine where
  toRandomEngine := countingEngine
  shuffle order engine := (order, engine)
  shuffle_perm order _ := .refl order
  weighted _ engine := (0, engine)
  sampleBelow _ _ _ engine := (false, engine)

theorem reuseLocalSearch_best_sharedSlot :
    (evaluatedCandidates countingSearch PromoteRepairSolver.sharedSlot
        (buildReusePenaltySearchSpace PromoteRepairSolver.sharedSlot) {}
        CanonicalGreedySolver.keepOrder).length ≤ 20000 ∧
    (∀ c ∈ evaluatedCandidates countingSearch PromoteRepairSolver.sharedSlot
        (buildReusePenaltySearchSpace PromoteRepairSolver.sharedSlot) {}
        CanonicalGreedySolver.keepOrder,
      c.order.Perm (defaultPlacementOrder PromoteRepairSolver.sharedSlot) ∧
        NoWorse PromoteRepairSolver.sharedSlot
          (solve countingSearch CanonicalGreedySolver.keepOrder {} PromoteRepairSolver.sharedSlot)
            c.result) ∧
    ValidWhenFeasible PromoteRepairSolver.sharedSlot
      (solve countingSearch CanonicalGreedySolver.keepOrder {} PromoteRepairSolver.sharedSlot) := by
  obtain ⟨⟨-, hlength, hall, -⟩, -, -, hvalid⟩ := reuseLocalSearch_best countingSearch
    CanonicalGreedySolver.keepOrder {} PromoteRepairSolver.sharedSlot
    ⟨by decide +kernel, by decide +kernel, by decide, by decide +kernel, by decide +kernel⟩
  exact ⟨hlength, fun c hc => (hall c hc).2, hvalid⟩

end ReusePenaltyLocalSearchSolver

end Dsa
