import DsaSolver.ImplicitHittingSet
import DsaSolver.Theory.Loops

/-! # The loop of the implicit hitting set solver

Every core the loop has learnt is inseparable and new (`LoopOk`), and shrinking keeps it so
(`shrinkCore_ok`).  An iteration returns a placement that overlaps selected edges only, or a limit,
or adds a core that the selection does not meet (`iterate_end`). -/

namespace Dsa

namespace ImplicitHittingSetSolver

open Theory (Sat)

variable {problem : DsaProblem} {options : ImplicitHittingSetOptions}

/-! ### Shrinking a core -/

theorem considerIncumbent_oracle (candidate : DsaResult) (state : State) :
    (considerIncumbent problem candidate state).oracle = state.oracle ∧
      (considerIncumbent problem candidate state).cores = state.cores := by
  unfold considerIncumbent
  split
  · dsimp only
    split_ifs <;> exact ⟨rfl, rfl⟩
  · exact ⟨rfl, rfl⟩

theorem attachIncumbent_status (state : State) (result : DsaResult) :
    (attachIncumbent problem state result).status = result.status := by
  unfold attachIncumbent
  split <;> rfl

/-- No valid placement keeps the edges of the set apart. -/
abbrev BlockedEdges (problem : DsaProblem) : Set ℕ → Prop :=
  Theory.Blocked (ValidOffsets problem) (Activates problem)

/-- The loop that shrinks a core, after it has tested some edges. -/
structure ShrinkOk (problem : DsaProblem) (promoted : EdgeSet) (cores : List EdgeSet)
    (tested : List ℕ) (shrinking : EdgeSet × State) : Prop where
  subset : ∀ edge ∈ shrinking.1, edge ∈ promoted
  sorted : shrinking.1.Pairwise (· < ·)
  oracle : PromotedDsaOracle.OracleOk problem shrinking.2.oracle
  cores : shrinking.2.cores = cores
  shrunk : Theory.Shrunk (BlockedEdges problem) {edge | edge ∈ tested}
    {edge | edge ∈ shrinking.1}

theorem mem_erase_sorted {s : EdgeSet} (hs : s.Pairwise (· < ·)) (edge : ℕ) :
    {other | other ∈ s.erase edge} = {other | other ∈ s} \ {edge} := by
  ext other
  have hnodup : s.Nodup := hs.imp fun hlt => hlt.ne
  show other ∈ s.erase edge ↔ other ∈ s ∧ other ≠ edge
  rw [hnodup.mem_erase_iff, and_comm]

/-- The ends of one iteration of the loop that shrinks. -/
theorem shrinkStep_ok (h : SearchOk problem) {promoted : EdgeSet} (hin : EdgesIn problem promoted)
    {cores : List EdgeSet} {tested : List ℕ} {shrinking : EdgeSet × State} {edge : ℕ}
    (hok : ShrinkOk problem promoted cores tested shrinking) :
    (∀ next, shrinkStep problem problem.search (softEdges problem) options shrinking edge =
        .ok next → ShrinkOk problem promoted cores (tested ++ [edge]) next) ∧
      ∀ result, shrinkStep problem problem.search (softEdges problem) options shrinking edge =
        .error result → result.status = .timeout ∧ options.maxOracleNodes ≠ 0 := by
  have htrial : EdgesIn problem (shrinking.1.erase edge) := fun other hother =>
    hin other (hok.subset other (List.mem_of_mem_erase hother))
  obtain ⟨hend, horacle⟩ := @PromotedDsaOracle.solve_end problem options.maxOracleNodes h _ htrial
    _ hok.oracle
  have htested : {other | other ∈ tested ++ [edge]} = insert edge {other | other ∈ tested} := by
    ext other
    simp [or_comm]
  have herase := mem_erase_sorted hok.sorted edge
  have hblocked := inseparable_iff h htrial
  rw [herase] at hblocked
  unfold shrinkStep
  dsimp only
  generalize PromotedDsaOracle.solve problem problem.search (softEdges problem)
    options.maxOracleNodes (shrinking.1.erase edge) shrinking.2.oracle = answer at hend horacle ⊢
  generalize hstate : considerIncumbent problem
    { status := answer.1.status, solution := answer.1.solution }
    { shrinking.2 with oracle := answer.2, shrinkCalls := shrinking.2.shrinkCalls + 1 } = state
  have hsame : state.oracle = answer.2 ∧ state.cores = cores := by
    rw [← hstate, (considerIncumbent_oracle _ _).1, (considerIncumbent_oracle _ _).2]
    exact ⟨rfl, hok.cores⟩
  cases hend with
  | feasible solution status _ separates =>
      rw [status]
      refine ⟨fun next hnext => ?_, nofun⟩
      obtain rfl := Except.ok.inj hnext
      refine ⟨hok.subset, hok.sorted, hsame.1 ▸ horacle, hsame.2, ?_⟩
      rw [htested]
      exact hok.shrunk.keep fun hbad => hblocked.mpr hbad solution separates
  | infeasible status _ inseparable =>
      rw [status]
      refine ⟨fun next hnext => ?_, nofun⟩
      obtain rfl := Except.ok.inj hnext
      refine ⟨fun other hother => hok.subset other (List.mem_of_mem_erase hother),
        hok.sorted.sublist List.erase_sublist, hsame.1 ▸ horacle, hsame.2, ?_⟩
      rw [htested, herase]
      exact hok.shrunk.drop (fun _ _ => Theory.Blocked.mono) (hblocked.mp inseparable)
  | timeout status _ limited =>
      rw [status]
      refine ⟨nofun, fun result hresult => ?_⟩
      obtain rfl := Except.error.inj hresult
      exact ⟨attachIncumbent_status _ _, limited⟩

/-- What shrinking keeps of a core. -/
structure KeptCore (problem : DsaProblem) (promoted : EdgeSet) (cores : List EdgeSet)
    (shrunk : EdgeSet × State) : Prop where
  subset : ∀ edge ∈ shrunk.1, edge ∈ promoted
  sorted : shrunk.1.Pairwise (· < ·)
  inseparable : Inseparable problem shrunk.1
  oracle : PromotedDsaOracle.OracleOk problem shrunk.2.oracle
  cores : shrunk.2.cores = cores

theorem shrinkCore_ok (h : SearchOk problem) {core : EdgeSet} (hin : EdgesIn problem core)
    (hsorted : core.Pairwise (· < ·)) (hnone : Inseparable problem core) {state : State}
    (horacle : PromotedDsaOracle.OracleOk problem state.oracle) :
    (∀ shrunk, shrinkCore problem problem.search (softEdges problem) options core state =
        .ok shrunk → KeptCore problem core state.cores shrunk ∧
          (options.shrinkCores = true → ∀ edge ∈ shrunk.1,
            ¬ Inseparable problem (shrunk.1.erase edge))) ∧
      ∀ result, shrinkCore problem problem.search (softEdges problem) options core state =
        .error result → result.status = .timeout ∧ options.maxOracleNodes ≠ 0 := by
  have hstart : ShrinkOk problem core state.cores [] (core, state) := by
    refine ⟨fun _ hedge => hedge, hsorted, horacle, rfl, ?_⟩
    have hempty : {edge : ℕ | edge ∈ ([] : List ℕ)} = ∅ := by simp
    rw [hempty]
    exact Theory.Shrunk.start ((inseparable_iff h hin).mp hnone)
  have hstep : ∀ done edge rest shrinking next, core = done ++ edge :: rest →
      ShrinkOk problem core state.cores done shrinking →
        shrinkStep problem problem.search (softEdges problem) options shrinking edge = .ok next →
          ShrinkOk problem core state.cores (done ++ [edge]) next :=
    fun _ _ _ _ next _ hok hnext => (shrinkStep_ok h hin hok).1 next hnext
  unfold shrinkCore
  by_cases hshrink : options.shrinkCores = true
  · rw [if_pos hshrink]
    refine ⟨fun shrunk hloop => ?_, fun result hloop => ?_⟩
    · have hok := Theory.foldlM_induction (ShrinkOk problem core state.cores) hstart hstep hloop
      have hinner : EdgesIn problem shrunk.1 := fun edge hedge => hin edge (hok.subset edge hedge)
      refine ⟨⟨hok.subset, hok.sorted, (inseparable_iff h hinner).mpr hok.shrunk.blocks, hok.oracle,
        hok.cores⟩, fun _ edge hedge hbad => ?_⟩
      have herased : EdgesIn problem (shrunk.1.erase edge) := fun other hother =>
        hinner other (List.mem_of_mem_erase hother)
      rw [inseparable_iff h herased, mem_erase_sorted hok.sorted] at hbad
      exact hok.shrunk.needed edge hedge (hok.subset edge hedge) hbad
    · obtain ⟨done, edge, rest, shrinking, -, hok, herror⟩ :=
        Theory.foldlM_error (ShrinkOk problem core state.cores) hstart hstep hloop
      exact (shrinkStep_ok h hin hok).2 result herror
  · rw [if_neg hshrink]
    refine ⟨fun shrunk hloop => ?_, nofun⟩
    obtain rfl := Except.ok.inj hloop
    exact ⟨⟨fun _ hedge => hedge, hsorted, hnone, horacle, rfl⟩, fun htrue => absurd htrue hshrink⟩

/-! ### The iterations -/

/-- What the loop has learnt. -/
structure LoopOk (problem : DsaProblem) (state : State) : Prop where
  oracle : PromotedDsaOracle.OracleOk problem state.oracle
  inside : ∀ core ∈ state.cores, EdgesIn problem core
  nonempty : ∀ core ∈ state.cores, core ≠ []
  sorted : ∀ core ∈ state.cores, core.Pairwise (· < ·)
  inseparable : ∀ core ∈ state.cores, Inseparable problem core
  nodup : state.cores.Nodup

theorem LoopOk.coresOk {state : State} (hok : LoopOk problem state) :
    ExactHittingSetMaster.CoresOk (softEdges problem) state.cores where
  nonempty := hok.nonempty
  lt := hok.inside

theorem considerIncumbent_ok {candidate : DsaResult} {state : State} (hok : LoopOk problem state) :
    LoopOk problem (considerIncumbent problem candidate state) := by
  obtain ⟨horacle, hcores⟩ := @considerIncumbent_oracle problem candidate state
  constructor
  · rw [horacle]
    exact hok.oracle
  · rw [hcores]
    exact hok.inside
  · rw [hcores]
    exact hok.nonempty
  · rw [hcores]
    exact hok.sorted
  · rw [hcores]
    exact hok.inseparable
  · rw [hcores]
    exact hok.nodup

theorem startState_ok (random : Shuffler) : LoopOk problem (startState random problem) := by
  have hempty : LoopOk problem {} :=
    ⟨PromotedDsaOracle.oracleOk_initial problem, nofun, nofun, nofun, nofun, List.nodup_nil⟩
  exact considerIncumbent_ok (considerIncumbent_ok (considerIncumbent_ok hempty))

theorem mem_complement {selected : EdgeSet} {edgeCount edge : ℕ} :
    edge ∈ complement selected edgeCount ↔ edge < edgeCount ∧ edge ∉ selected := by
  unfold complement
  rw [List.mem_filter, List.mem_range, Bool.not_eq_true', ← Bool.not_eq_true, List.contains_iff_mem]

theorem complement_sorted (selected : EdgeSet) (edgeCount : ℕ) :
    (complement selected edgeCount).Pairwise (· < ·) := List.pairwise_lt_range.filter _

/-- The ends of an iteration. -/
inductive IterationEnd (problem : DsaProblem) (options : ImplicitHittingSetOptions)
    (selected : EdgeSet) (learnt : List EdgeSet) : Except DsaResult State → Prop
  | proven (result : DsaResult) (solution : DsaSolution) (status : result.status = .feasible)
      (some : result.solution = some solution)
      (separates : Separates problem (complement selected (softEdges problem).length) solution) :
      IterationEnd problem options selected learnt (.error result)
  | infeasible (result : DsaResult) (status : result.status = .infeasibleProven)
      (inseparable : Inseparable problem []) :
      IterationEnd problem options selected learnt (.error result)
  | timeout (result : DsaResult) (status : result.status = .timeout)
      (limited : options.maxMasterNodes ≠ 0 ∨ options.maxOracleNodes ≠ 0) :
      IterationEnd problem options selected learnt (.error result)
  | learnt (next : State) (core : EdgeSet) (cores : next.cores = learnt ++ [core])
      (nonempty : core ≠ []) (disjoint : ∀ edge ∈ core, edge ∉ selected)
      (new : core ∉ learnt) (ok : LoopOk problem next) :
      IterationEnd problem options selected learnt (.ok next)

/-- A core outside the selection is new: the selection meets all cores learnt before. -/
theorem notMem_cores {state : State} {selected : EdgeSet}
    (hmeets : ExactHittingSetMaster.Meets state.cores selected.toFinset) {core : EdgeSet}
    (hdisjoint : ∀ edge ∈ core, edge ∉ selected) : core ∉ state.cores := by
  intro hmem
  obtain ⟨edge, hedge, hselected⟩ := hmeets core hmem
  exact hdisjoint edge hedge (List.mem_toFinset.mp hselected)

theorem learnCore_end (h : SearchOk problem) {selected : EdgeSet} {state : State}
    (hok : LoopOk problem state)
    (hmeets : ExactHittingSetMaster.Meets state.cores selected.toFinset)
    (hnone : Inseparable problem (complement selected (softEdges problem).length))
    (iteration : ℕ) :
    IterationEnd problem options selected state.cores (learnCore problem problem.search
      (softEdges problem) options iteration (complement selected (softEdges problem).length)
        state) := by
  have hin : EdgesIn problem (complement selected (softEdges problem).length) :=
    fun edge hedge => (mem_complement.mp hedge).1
  have hadded := hok.oracle.addInfeasibleCore hin hnone
  obtain ⟨hshrunk, hcut⟩ := @shrinkCore_ok problem options h _ hin (complement_sorted _ _) hnone
    { state with
      oracle := PromotedDsaOracle.addInfeasibleCore
        (complement selected (softEdges problem).length) state.oracle } hadded
  unfold learnCore
  cases hloop : shrinkCore problem problem.search (softEdges problem) options
      (complement selected (softEdges problem).length)
      { state with
        oracle := PromotedDsaOracle.addInfeasibleCore
          (complement selected (softEdges problem).length) state.oracle } with
  | error result =>
      obtain ⟨hstatus, hlimited⟩ := hcut result hloop
      exact .timeout result hstatus (.inr hlimited)
  | ok shrunk =>
      obtain ⟨hkept, -⟩ := hshrunk shrunk hloop
      rw [Theory.ok_bind]
      by_cases hempty : shrunk.1.isEmpty = true
      · rw [if_pos hempty]
        rw [List.isEmpty_iff] at hempty
        exact .infeasible _ rfl (hempty ▸ hkept.inseparable)
      · rw [if_neg hempty]
        rw [List.isEmpty_iff] at hempty
        have hcores : shrunk.2.cores = state.cores := hkept.cores
        have hdisjoint : ∀ edge ∈ shrunk.1, edge ∉ selected := fun edge hedge =>
          (mem_complement.mp (hkept.subset edge hedge)).2
        have hnew := notMem_cores hmeets hdisjoint
        have hinside : EdgesIn problem shrunk.1 := fun edge hedge =>
          hin edge (hkept.subset edge hedge)
        have happend : (if shrunk.2.cores.contains shrunk.1 = true then shrunk.2.cores
            else shrunk.2.cores ++ [shrunk.1]) = state.cores ++ [shrunk.1] := by
          rw [if_neg, hcores]
          rw [List.contains_iff_mem, hcores]
          exact hnew
        have hlearnt : ∀ {p : EdgeSet → Prop}, (∀ core ∈ state.cores, p core) → p shrunk.1 →
            ∀ core ∈ state.cores ++ [shrunk.1], p core := by
          intro p hold hfresh core hcore
          rcases List.mem_append.mp hcore with hcore | hcore
          · exact hold core hcore
          · rw [List.mem_singleton.mp hcore]
            exact hfresh
        refine .learnt _ shrunk.1 happend hempty hdisjoint hnew ?_
        constructor
        · exact hkept.oracle.addInfeasibleCore hinside hkept.inseparable
        · rw [happend]
          exact hlearnt hok.inside hinside
        · rw [happend]
          exact hlearnt hok.nonempty hempty
        · rw [happend]
          exact hlearnt hok.sorted hkept.sorted
        · rw [happend]
          exact hlearnt hok.inseparable hkept.inseparable
        · rw [happend]
          exact List.Nodup.append hok.nodup (List.nodup_singleton _)
            (List.disjoint_singleton.mpr hnew)

theorem askOracle_end (h : SearchOk problem) {selected : EdgeSet} {state : State}
    (hok : LoopOk problem state)
    (hmeets : ExactHittingSetMaster.Meets state.cores selected.toFinset) (iteration : ℕ) :
    IterationEnd problem options selected state.cores (askOracle problem problem.search
      (softEdges problem) options iteration (complement selected (softEdges problem).length)
        state) := by
  have hin : EdgesIn problem (complement selected (softEdges problem).length) :=
    fun edge hedge => (mem_complement.mp hedge).1
  obtain ⟨hend, horacle⟩ := @PromotedDsaOracle.solve_end problem options.maxOracleNodes h _ hin
    _ hok.oracle
  unfold askOracle
  dsimp only
  generalize PromotedDsaOracle.solve problem problem.search (softEdges problem)
    options.maxOracleNodes (complement selected (softEdges problem).length) state.oracle =
      answer at hend horacle ⊢
  have hasked : LoopOk problem { state with oracle := answer.2 } :=
    ⟨horacle, hok.inside, hok.nonempty, hok.sorted, hok.inseparable, hok.nodup⟩
  cases hend with
  | feasible solution status some separates =>
      rw [status, some]
      exact .proven _ solution rfl rfl separates
  | infeasible status none inseparable =>
      rw [status, none]
      exact learnCore_end h hasked hmeets inseparable iteration
  | timeout status none limited =>
      rw [status, none]
      exact .timeout _ (attachIncumbent_status _ _) (.inr limited)

/-- The step lemma: an iteration whose master found a selection. -/
theorem iterate_end (h : SearchOk problem) {state : State} (hok : LoopOk problem state)
    (iteration : ℕ) :
    (masterOf (softEdges problem) options state).found = true ∧
        (masterOf (softEdges problem) options state).limitHit = false ∧
        IterationEnd problem options (masterOf (softEdges problem) options state).selected
          state.cores (iterate problem problem.search (softEdges problem) options state iteration) ∨
      options.maxMasterNodes ≠ 0 ∧ ∃ result, result.status = .timeout ∧
        iterate problem problem.search (softEdges problem) options state iteration =
          .error result := by
  unfold iterate
  dsimp only
  by_cases hlimit : (masterOf (softEdges problem) options state).limitHit = true
  · rw [if_pos hlimit]
    refine .inr ⟨fun hzero => ?_, _, attachIncumbent_status _ _, rfl⟩
    unfold masterOf at hlimit
    rw [hzero, ExactHittingSetMaster.solve_unlimited] at hlimit
    cases hlimit
  · rw [if_neg hlimit]
    rw [Bool.not_eq_true] at hlimit
    obtain ⟨hfound, hbest⟩ := ExactHittingSetMaster.solve_found hok.coresOk hlimit
    change (masterOf (softEdges problem) options state).found = true at hfound
    rw [if_neg (by rw [hfound]; simp)]
    refine .inl ⟨hfound, hlimit, ?_⟩
    have hasked : LoopOk problem
        { state with
          masterNodes := saturatingAdd state.masterNodes
            (masterOf (softEdges problem) options state).searchNodes } :=
      ⟨hok.oracle, hok.inside, hok.nonempty, hok.sorted, hok.inseparable, hok.nodup⟩
    exact askOracle_end h hasked hbest.meets iteration

end ImplicitHittingSetSolver

end Dsa
