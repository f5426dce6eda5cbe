import DsaSolver.HittingSetLoop
import DsaSolver.GreedyDominance
import DsaSolver.WithoutCaps

/-! # Exactness of the implicit hitting set solver

The caches of the oracle are transparent and shrinking ends at a core without a superfluous edge
(`oracle_transparent`).  The solver's placement has the least reuse cost of all valid placements
(`implicitHittingSet_optimal`), and without node limits its loop ends within the number of sets
of soft edges (`implicitHittingSet_ends`). -/

namespace Dsa

namespace ImplicitHittingSetSolver

open Theory (Sat)
open ExactHittingSetMaster (setWeight weightAt)

variable {problem : DsaProblem} {options : ImplicitHittingSetOptions}

/-! ### The cost of the overlapping edges -/

/-- The edges whose nodes overlap. -/
def activeEdges (problem : DsaProblem) (offsets : List UInt64) : Finset ℕ :=
  (Finset.range (softEdges problem).length).filter (Activates problem offsets)

theorem mem_activeEdges {offsets : List UInt64} {edge : ℕ} :
    edge ∈ activeEdges problem offsets ↔
      edge < (softEdges problem).length ∧ Activates problem offsets edge := by
  rw [activeEdges, Finset.mem_filter, Finset.mem_range]

theorem sum_range_eq {M : Type*} [AddCommMonoid M] (f : ℕ → M) (count : ℕ) :
    ∑ n ∈ Finset.range count, f n = ((List.range count).map f).sum := rfl

/-- The reuse cost is the weight of the overlapping edges. -/
theorem nodeCost_eq_setWeight (offsets : List UInt64) :
    nodeCost problem (positions offsets) =
      setWeight (softEdges problem) (activeEdges problem offsets) := by
  unfold setWeight activeEdges
  rw [Finset.sum_filter, sum_range_eq]
  unfold nodeCost weightOf Theory.total
  congr 1
  have hlength : (softEdges problem).length = problem.search.softWeights.toList.length :=
    List.length_map _
  apply List.ext_getElem
  · rw [List.length_map, List.length_map, List.length_range, hlength]
  · intro edge hedge _
    rw [List.length_map] at hedge
    rw [List.getElem_map, List.getElem_map, List.getElem_range]
    have hget : (softEdges problem).getD edge {} =
        ⟨(problem.search.softWeights.toList[edge]).1,
          (problem.search.softWeights.toList[edge]).2⟩ := by
      rw [List.getD_eq_getElem _ _ (hlength.symm ▸ hedge)]
      exact List.getElem_map _
    have hpair : ((softEdges problem).getD edge {}).pair =
        (problem.search.softWeights.toList[edge]).1 := by
      rw [hget]
    have hweight : weightAt (softEdges problem) edge =
        (problem.search.softWeights.toList[edge]).2 := by
      rw [weightAt, hget]
    refine if_congr ?_ (by rw [hweight]) rfl
    rw [Activates, hpair]

theorem reuseCost_eq_setWeight (h : SearchOk problem) {offsets : List UInt64}
    (hv : (nodePacking h).Valid (positions offsets)) :
    (evaluateObjective problem (expandReuseNodeSolution problem.search offsets)).reuseCost =
      (setWeight (softEdges problem) (activeEdges problem offsets)).val := by
  rw [reuseCost_expand h hv, nodeCost_eq_setWeight]

/-- The overlapping edges of a valid placement meet every core. -/
theorem meets_activeEdges (h : SearchOk problem) {state : State} (hok : LoopOk problem state)
    {offsets : List UInt64} (hv : (nodePacking h).Valid (positions offsets)) :
    ExactHittingSetMaster.Meets state.cores (activeEdges problem offsets) := by
  intro core hcore
  have hblocked := (inseparable_iff h (hok.inside core hcore)).mp (hok.inseparable core hcore)
  obtain ⟨edge, hedge, hactive⟩ :=
    hblocked offsets ((validateSolution_expand_iff h offsets).mpr hv)
  exact ⟨edge, hedge, mem_activeEdges.mpr ⟨hok.inside core hcore edge hedge, hactive⟩⟩

/-- A placement that separates all edges outside the selection costs at most what any valid
placement costs. -/
theorem reuseCost_le (h : SearchOk problem) {state : State} (hok : LoopOk problem state)
    (hlimit : (masterOf (softEdges problem) options state).limitHit = false)
    {solution other : DsaSolution}
    (hseparates : Separates problem
      (complement (masterOf (softEdges problem) options state).selected
        (softEdges problem).length) solution)
    (hother : validateSolution problem other = []) :
    (evaluateObjective problem solution).reuseCost ≤
      (evaluateObjective problem other).reuseCost := by
  obtain ⟨-, hbest⟩ := ExactHittingSetMaster.solve_found hok.coresOk hlimit
  have hin : EdgesIn problem (complement (masterOf (softEdges problem) options state).selected
      (softEdges problem).length) := fun edge hedge => (mem_complement.mp hedge).1
  obtain ⟨offsets, hfind, hv, hfree⟩ := (separates_iff h hin).mp hseparates
  obtain ⟨offsets', -, hfind'⟩ := exists_offsets h hother
  rw [validateSolution_congr hfind', validateSolution_expand_iff h] at hother
  rw [evaluateObjective_congr hfind, evaluateObjective_congr hfind', reuseCost_eq_setWeight h hv,
    reuseCost_eq_setWeight h hother]
  have hsub : activeEdges problem offsets ⊆
      (masterOf (softEdges problem) options state).selected.toFinset := by
    intro edge hedge
    obtain ⟨hlt, hactive⟩ := mem_activeEdges.mp hedge
    rw [List.mem_toFinset]
    by_contra hnot
    exact hfree edge (mem_complement.mpr ⟨hlt, hnot⟩) hactive
  have hlower := (ExactHittingSetMaster.solve_covers hok.coresOk hlimit
    (Finset.filter_subset _ _) (meets_activeEdges h hok hother)).2
  calc (setWeight (softEdges problem) (activeEdges problem offsets)).val
      ≤ (setWeight (softEdges problem)
          (masterOf (softEdges problem) options state).selected.toFinset).val :=
        ExactHittingSetMaster.setWeight_mono hsub
    _ = (masterOf (softEdges problem) options state).cost := hbest.cost.symm
    _ ≤ (setWeight (softEdges problem) (activeEdges problem offsets')).val := hlower

/-! ### The caches and the cores -/

/-- **The caches do not change an answer, and shrinking ends at a core all of whose edges are
needed.** -/
theorem oracle_transparent (h : SearchOk problem) (nodeLimit : UInt64)
    (calls : List PromotedDsaOracle.Call)
    (hcalls : ∀ call ∈ calls, PromotedDsaOracle.CallOk problem call) :
    (∀ promoted : EdgeSet, EdgesIn problem promoted → ∀ answer : OracleResult,
      (PromotedDsaOracle.solve problem problem.search (softEdges problem) nodeLimit promoted
          (PromotedDsaOracle.runCalls problem problem.search (softEdges problem) nodeLimit
            calls)).1 = answer →
        (answer.status = .feasible → ∃ solution, answer.solution = some solution ∧
            Separates problem promoted solution) ∧
          (answer.status = .infeasibleProven → Inseparable problem promoted)) ∧
    (options.maxOracleNodes = nodeLimit → options.shrinkCores = true →
      ∀ state : State,
        state.oracle = PromotedDsaOracle.runCalls problem problem.search (softEdges problem)
          nodeLimit calls →
        ∀ core : EdgeSet, EdgesIn problem core → core.Pairwise (· < ·) →
          Inseparable problem core → ∀ shrunk,
            shrinkCore problem problem.search (softEdges problem) options core state =
                .ok shrunk →
              (∀ edge ∈ shrunk.1, edge ∈ core) ∧ Inseparable problem shrunk.1 ∧
                ∀ edge ∈ shrunk.1, ∃ solution,
                  Separates problem (shrunk.1.erase edge) solution) := by
  have hok := @PromotedDsaOracle.runCalls_ok problem nodeLimit h calls hcalls
  constructor
  · rintro promoted hpromoted answer rfl
    obtain ⟨hend, -⟩ := @PromotedDsaOracle.solve_end problem nodeLimit h promoted hpromoted _ hok
    cases hend with
    | feasible solution status some separates =>
        exact ⟨fun _ => ⟨solution, some, separates⟩,
          fun hno => absurd (status.symm.trans hno) nofun⟩
    | infeasible status _ inseparable =>
        exact ⟨fun hyes => absurd (status.symm.trans hyes) nofun, fun _ => inseparable⟩
    | timeout status =>
        exact ⟨fun hyes => absurd (status.symm.trans hyes) nofun,
          fun hno => absurd (status.symm.trans hno) nofun⟩
  · intro hlimit hshrink state hstate core hin hsorted hnone shrunk hloop
    have horacle : PromotedDsaOracle.OracleOk problem state.oracle := by rwa [hstate]
    obtain ⟨hkept, hneeded⟩ :=
      (@shrinkCore_ok problem options h core hin hsorted hnone state horacle).1 shrunk hloop
    refine ⟨hkept.subset, hkept.inseparable, fun edge hedge => ?_⟩
    have hfeasible := hneeded hshrink edge hedge
    unfold Inseparable at hfeasible
    push Not at hfeasible
    exact hfeasible

/-- The pair of buffers in a pool that holds only one of them at a time. -/
def tightPair : DsaProblem := { pairProblem with pools := [{ capacity := some 4 }] }

theorem edgesIn_tightPair : EdgesIn tightPair [0] := by
  intro edge hedge
  rw [List.mem_singleton.mp hedge]
  decide +kernel

theorem oracle_transparent_tightPair :
    Inseparable tightPair [0] ∧ (∃ solution, Separates tightPair [] solution) ∧
      ∃ shrunk, shrinkCore tightPair tightPair.search (softEdges tightPair) ⟨0, 0, 3, true⟩ [0]
          { oracle := PromotedDsaOracle.runCalls tightPair tightPair.search (softEdges tightPair) 0
              [.solve [], .addInfeasibleCore [0]] } = .ok shrunk ∧
        Inseparable tightPair shrunk.1 := by
  have h : SearchOk tightPair := ⟨by decide +kernel, by decide +kernel, by decide +kernel⟩
  have hfresh := (@oracle_transparent tightPair {} h 0 [] nofun).1
  have hcore : Inseparable tightPair [0] :=
    (hfresh [0] edgesIn_tightPair _ rfl).2 (by decide +kernel)
  have hcalls : ∀ call ∈ [PromotedDsaOracle.Call.solve [], .addInfeasibleCore [0]],
      PromotedDsaOracle.CallOk tightPair call := by
    intro call hcall
    rcases List.mem_pair.mp hcall with rfl | rfl
    · exact List.forall_mem_nil _
    · exact ⟨edgesIn_tightPair, hcore⟩
  obtain ⟨hsolve, hshrink⟩ := @oracle_transparent tightPair ⟨0, 0, 3, true⟩ h 0 _ hcalls
  obtain ⟨solution, -, hseparates⟩ :=
    (hsolve [] (List.forall_mem_nil _) _ rfl).1 (by decide +kernel)
  refine ⟨hcore, ⟨solution, hseparates⟩, ?_⟩
  cases hrun : shrinkCore tightPair tightPair.search (softEdges tightPair) ⟨0, 0, 3, true⟩ [0]
      { oracle := PromotedDsaOracle.runCalls tightPair tightPair.search (softEdges tightPair) 0
          [.solve [], .addInfeasibleCore [0]] } with
  | error result =>
      have hok : (shrinkCore tightPair tightPair.search (softEdges tightPair) ⟨0, 0, 3, true⟩ [0]
          { oracle := PromotedDsaOracle.runCalls tightPair tightPair.search (softEdges tightPair)
              0 [.solve [], .addInfeasibleCore [0]] }).isOk = true := by
        decide +kernel
      rw [hrun] at hok
      cases hok
  | ok shrunk =>
      exact ⟨shrunk, rfl, (hshrink rfl rfl _ rfl [0] edgesIn_tightPair
        (List.pairwise_singleton _ _) hcore shrunk hrun).2.1⟩

/-! ### The run of the loop -/

/-- The run lemma: every iteration that does not return learns one core. -/
theorem iterations_ok (h : SearchOk problem) {start state : State} (hstart : LoopOk problem start)
    (hempty : start.cores = []) {count : ℕ}
    (hrun : iterations problem problem.search (softEdges problem) options start count =
      .ok state) : LoopOk problem state ∧ state.cores.length = count := by
  have hstep : ∀ done iteration rest state next, List.range count = done ++ iteration :: rest →
      LoopOk problem state ∧ state.cores.length = done.length →
        iterate problem problem.search (softEdges problem) options state iteration = .ok next →
          LoopOk problem next ∧ next.cores.length = (done ++ [iteration]).length := by
    intro done iteration rest state next _ hok hnext
    rcases @iterate_end problem options h _ hok.1 iteration with
      ⟨-, -, hend⟩ | ⟨-, result, -, herror⟩
    · rw [hnext] at hend
      cases hend with
      | learnt _ core cores _ _ _ ok =>
          rw [cores, List.length_append, List.length_append, hok.2]
          exact ⟨ok, rfl⟩
    · rw [hnext] at herror
      cases herror
  have hfinal := Theory.foldlM_induction
    (fun done state => LoopOk problem state ∧ state.cores.length = done.length)
    ⟨hstart, by rw [hempty]; rfl⟩ hstep hrun
  rwa [List.length_range] at hfinal

/-- Different cores are different sets. -/
theorem length_cores_le {state : State} (hok : LoopOk problem state) :
    state.cores.length ≤ 2 ^ (softEdges problem).length := by
  rw [← @List.length_map _ _ state.cores List.toFinset]
  apply Theory.length_le_two_pow
  · refine List.Nodup.map_on (fun first hfirst second hsecond heq => ?_) hok.nodup
    have hsorted := hok.sorted first hfirst
    have hsorted' := hok.sorted second hsecond
    have hperm : first.Perm second := by
      apply (List.perm_ext_iff_of_nodup (hsorted.imp fun hlt => hlt.ne)
        (hsorted'.imp fun hlt => hlt.ne)).mpr
      intro edge
      rw [← List.mem_toFinset, heq, List.mem_toFinset]
    exact hperm.eq_of_pairwise (fun _ _ _ _ hab hba => absurd hba hab.not_gt) hsorted hsorted'
  · intro s hs edge hedge
    obtain ⟨core, hcore, rfl⟩ := List.mem_map.mp hs
    exact Finset.mem_range.mpr (hok.inside core hcore edge (List.mem_toFinset.mp hedge))

/-! ### The result of the solver -/

section result

variable {random : Shuffler}

/-- The ends of the solver on a problem it accepts. -/
inductive SolverEnd (problem : DsaProblem) (options : ImplicitHittingSetOptions)
    (result : DsaResult) : Prop
  | proven (state : State) (solution : DsaSolution) (status : result.status = .feasible)
      (some : result.solution = some solution) (ok : LoopOk problem state)
      (complete : (masterOf (softEdges problem) options state).limitHit = false)
      (separates : Separates problem
        (complement (masterOf (softEdges problem) options state).selected
          (softEdges problem).length) solution)
  | infeasible (status : result.status = .infeasibleProven) (inseparable : Inseparable problem [])
  | timeout (status : result.status = .timeout)
      (limited : options.maxMasterNodes ≠ 0 ∨ options.maxOracleNodes ≠ 0 ∨
        options.maxIterations.toNat ≤ 2 ^ (softEdges problem).length)

theorem startState_cores : (startState random problem).cores = [] := by
  unfold startState
  rw [(considerIncumbent_oracle _ _).2, (considerIncumbent_oracle _ _).2,
    (considerIncumbent_oracle _ _).2]

theorem solvePrepared_end (h : SearchOk problem) :
    SolverEnd problem options (solvePrepared random options problem problem.search) := by
  have hstart := @startState_ok problem random
  unfold solvePrepared
  cases hrun : iterations problem problem.search (indexSoftEdges problem.search) options
      (startState random problem) options.maxIterations.toNat with
  | error result =>
      dsimp only
      have hstep : ∀ done iteration rest state next,
          List.range options.maxIterations.toNat = done ++ iteration :: rest →
            LoopOk problem state →
              iterate problem problem.search (softEdges problem) options state iteration =
                .ok next → LoopOk problem next := by
        intro done iteration rest state next _ hok hnext
        rcases @iterate_end problem options h _ hok iteration with
          ⟨-, -, hend⟩ | ⟨-, result, -, herror⟩
        · rw [hnext] at hend
          cases hend with
          | learnt _ _ _ _ _ _ ok => exact ok
        · rw [hnext] at herror
          cases herror
      obtain ⟨done, iteration, rest, state, -, hok, herror⟩ :=
        Theory.foldlM_error (fun _ state => LoopOk problem state) hstart hstep hrun
      rcases @iterate_end problem options h _ hok iteration with
        ⟨-, hcomplete, hend⟩ | ⟨hlimited, timeout, hstatus, hsame⟩
      · change iterate problem problem.search (softEdges problem) options state iteration =
          .error result at herror
        rw [herror] at hend
        cases hend with
        | proven _ solution status some separates =>
            exact .proven state solution status some hok hcomplete separates
        | infeasible _ status inseparable => exact .infeasible status inseparable
        | timeout _ status limited => exact .timeout status (or_assoc.mp (.inl limited))
      · obtain rfl := Except.error.inj (hsame.symm.trans herror)
        exact .timeout hstatus (.inl hlimited)
  | ok state =>
      dsimp only
      obtain ⟨hok, hlength⟩ := iterations_ok h hstart startState_cores hrun
      have hle := length_cores_le hok
      rw [hlength] at hle
      exact .timeout (attachIncumbent_status _ _) (.inr (.inr hle))

theorem solve_eq
    (hcompatible : (checkSolverCompatibility problem reuseCostExactCapabilities).compatible = true)
    (hlimitation : poolDecomposedReuseLimitation problem = none)
    (herrors : problem.search.placement.errors = []) :
    solve random options problem = solvePrepared random options problem problem.search := by
  unfold solve
  rw [hcompatible, if_neg (by simp), hlimitation]
  dsimp only
  rw [buildSearch_eq, if_neg (not_not.mpr herrors)]

/-- A problem that does not reach the loop gets no answer. -/
theorem solve_unreached
    (hcompatible : (checkSolverCompatibility problem reuseCostExactCapabilities).compatible = true)
    (hearly : poolDecomposedReuseLimitation problem ≠ none ∨
      problem.search.placement.errors ≠ []) :
    (solve random options problem).status = .unsupported ∨
      (solve random options problem).status = .invalidProblem := by
  unfold solve
  rw [hcompatible, if_neg (by simp)]
  cases hlimitation : poolDecomposedReuseLimitation problem with
  | some limitation => exact .inl rfl
  | none =>
      dsimp only
      rw [buildSearch_eq, if_pos (hearly.resolve_left (not_not.mpr hlimitation))]
      exact .inr rfl

/-- **The implicit hitting set solver is exact.** -/
theorem implicitHittingSet_optimal
    (hcompatible : (checkSolverCompatibility problem reuseCostExactCapabilities).compatible = true)
    (random : Shuffler) (options : ImplicitHittingSetOptions) :
    ((solve random options problem).status = .feasible →
      ∃ solution, (solve random options problem).solution = some solution ∧
        validateSolution problem solution = [] ∧
        ∀ other, validateSolution problem other = [] →
          (evaluateObjective problem solution).reuseCost ≤
            (evaluateObjective problem other).reuseCost) ∧
    ((solve random options problem).status = .infeasibleProven →
      ∀ other, validateSolution problem other ≠ []) := by
  by_cases hearly : poolDecomposedReuseLimitation problem ≠ none ∨
      problem.search.placement.errors ≠ []
  · rcases @solve_unreached problem options random hcompatible hearly with hstatus | hstatus
    · exact ⟨fun hyes => absurd (hstatus.symm.trans hyes) nofun,
        fun hno => absurd (hstatus.symm.trans hno) nofun⟩
    · exact ⟨fun hyes => absurd (hstatus.symm.trans hyes) nofun,
        fun hno => absurd (hstatus.symm.trans hno) nofun⟩
  · push Not at hearly
    have h := searchOk_of_compatible hcompatible rfl rfl hearly.2
    rw [solve_eq hcompatible hearly.1 hearly.2]
    cases @solvePrepared_end problem options random h with
    | proven state solution status some ok complete separates =>
        refine ⟨fun _ => ⟨solution, some, ?_, fun other hother => ?_⟩,
          fun hno => absurd (status.symm.trans hno) nofun⟩
        · obtain ⟨offsets, hfind, hv, -⟩ := (separates_iff h fun edge hedge =>
            (mem_complement.mp hedge).1).mp separates
          rw [validateSolution_congr hfind, validateSolution_expand_iff h]
          exact hv
        · exact reuseCost_le h ok complete separates hother
    | infeasible status inseparable =>
        refine ⟨fun hyes => absurd (status.symm.trans hyes) nofun, fun _ other hother => ?_⟩
        obtain ⟨offsets, -, hfind⟩ := exists_offsets h hother
        rw [validateSolution_congr hfind, validateSolution_expand_iff h] at hother
        exact inseparable other ((separates_iff h (List.forall_mem_nil _)).mpr
          ⟨offsets, hfind, hother, List.forall_mem_nil _⟩)
    | timeout status =>
        exact ⟨fun hyes => absurd (status.symm.trans hyes) nofun,
          fun hno => absurd (status.symm.trans hno) nofun⟩

theorem implicitHittingSet_optimal_pairProblem :
    ∃ solution,
      (solve CanonicalGreedySolver.keepOrder {} pairProblem).solution = some solution ∧
        validateSolution pairProblem solution = [] ∧
        ∀ other, validateSolution pairProblem other = [] →
          (evaluateObjective pairProblem solution).reuseCost ≤
            (evaluateObjective pairProblem other).reuseCost :=
  (implicitHittingSet_optimal (by decide +kernel) CanonicalGreedySolver.keepOrder {}).1
    (by decide +kernel)

/-- **Every iteration learns a core that the selection misses, so the loop ends.** -/
theorem implicitHittingSet_ends
    (hcompatible : (checkSolverCompatibility problem reuseCostExactCapabilities).compatible = true)
    (hlimitation : poolDecomposedReuseLimitation problem = none)
    (herrors : problem.search.placement.errors = []) (hmaster : options.maxMasterNodes = 0)
    (horacle : options.maxOracleNodes = 0) (random : Shuffler) :
    (∀ count state, iterations problem problem.search (softEdges problem) options
          (startState random problem) count = .ok state →
        (masterOf (softEdges problem) options state).found = true ∧
          ∀ next, iterate problem problem.search (softEdges problem) options state count =
              .ok next →
            ∃ core, next.cores = state.cores ++ [core] ∧ core ≠ [] ∧
              (∀ edge ∈ core, edge ∉ (masterOf (softEdges problem) options state).selected) ∧
              core ∉ state.cores) ∧
    (2 ^ (softEdges problem).length < options.maxIterations.toNat →
      (solve random options problem).status = .feasible ∨
        (solve random options problem).status = .infeasibleProven) := by
  have h := searchOk_of_compatible hcompatible rfl rfl herrors
  constructor
  · intro count state hrun
    have hok := (iterations_ok h (@startState_ok problem random) startState_cores hrun).1
    rcases @iterate_end problem options h state hok count with
      ⟨hfound, -, hend⟩ | ⟨hlimited, -⟩
    · refine ⟨hfound, fun next hnext => ?_⟩
      rw [hnext] at hend
      cases hend with
      | learnt _ core cores nonempty disjoint new _ =>
          exact ⟨core, cores, nonempty, disjoint, new⟩
    · exact absurd hmaster hlimited
  · intro hmany
    rw [solve_eq hcompatible hlimitation herrors]
    cases @solvePrepared_end problem options random h with
    | proven _ _ status => exact .inl status
    | infeasible status => exact .inr status
    | timeout _ limited =>
        rcases limited with hlimited | hlimited | hfew
        · exact absurd hmaster hlimited
        · exact absurd horacle hlimited
        · exact absurd hmany (Nat.not_lt.mpr hfew)

/-- The pair has one soft edge. -/
theorem implicitHittingSet_ends_pairProblem :
    (solve CanonicalGreedySolver.keepOrder ⟨0, 0, 3, true⟩ pairProblem).status = .feasible ∨
      (solve CanonicalGreedySolver.keepOrder ⟨0, 0, 3, true⟩ pairProblem).status =
        .infeasibleProven :=
  (@implicitHittingSet_ends pairProblem ⟨0, 0, 3, true⟩ (by decide +kernel) (by decide +kernel)
    (by decide +kernel) rfl rfl CanonicalGreedySolver.keepOrder).2 (by decide +kernel)

end result

end ImplicitHittingSetSolver

end Dsa
