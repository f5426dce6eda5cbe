import DsaSolver.WholeSearch
import DsaSolver.HittingSet
import DsaSolver.Theory.Cores

/-! # The promoted-DSA oracle

`PromotedDsaOracle` of `reuse_penalty_exact_solvers.cpp` asks whether a set of soft edges can all
be kept apart, and remembers placements and cores.  Every cached fact stays true of the sets it is
used for (`OracleOk`), so the caches do not change an answer (`solve_end`). -/

namespace Dsa

variable {problem : DsaProblem}

/-! ### Soft edges -/

def indexSoftEdges (search : ReusePenaltySearchSpace) : List IndexedSoftEdge :=
  search.softWeights.toList.map fun entry => ⟨entry.1, entry.2⟩

/-- The pairs of the edges; the edges are in the order of their pairs. -/
def promotedPairs (edges : List IndexedSoftEdge) (promoted : EdgeSet) : List (ℕ × ℕ) :=
  promoted.map fun edge => (edges.getD edge {}).pair

/-- `std::includes`. -/
def isSubset (subset superset : EdgeSet) : Bool := subset.all fun edge => superset.contains edge

theorem isSubset_iff {subset superset : EdgeSet} :
    isSubset subset superset = true ↔ ∀ edge ∈ subset, edge ∈ superset := by
  unfold isSubset
  simp only [List.all_eq_true, List.contains_iff_mem]

structure OracleResult where
  status : SolveStatus := .unsupported
  solution : Option DsaSolution := none

structure FeasibleCacheEntry where
  promoted : EdgeSet
  solution : DsaSolution

namespace PromotedDsaOracle

/-! ### The oracle -/

/-- The members of the class that a call changes. -/
structure State where
  feasibleCache : List FeasibleCacheEntry := []
  infeasibleCores : List EdgeSet := []
  calls : UInt64 := 0
  cacheHits : UInt64 := 0
  searchNodes : UInt64 := 0

section oracle

variable (problem : DsaProblem) (search : ReusePenaltySearchSpace) (edges : List IndexedSoftEdge)
  (nodeLimit : UInt64)

/-- `Solve` after the caches have been asked. -/
def solveAfresh (promoted : EdgeSet) (state : State) : OracleResult × State :=
  let promotedProblem := withPromotedReuseEdges problem search (promotedPairs edges promoted)
  let promotedSearch := buildReusePenaltySearchSpace promotedProblem
  let searchResult := runCanonicalExactSearch promotedProblem promotedSearch
    { nodeLimit := nodeLimit, stopAfterFirst := true }
  let state :=
    { state with searchNodes := saturatingAdd state.searchNodes searchResult.searchNodes }
  match searchResult.status, searchResult.offsets with
  | .feasible, some offsets =>
      let result := buildValidatedReuseResult promotedProblem promotedSearch offsets .feasible
      match result.status, result.solution with
      | .feasible, some solution =>
          (⟨.feasible, some solution⟩,
            { state with feasibleCache := state.feasibleCache ++ [⟨promoted, solution⟩] })
      | status, _ => (⟨status, none⟩, state)
  | status, _ => (⟨status, none⟩, state)

def solve (promoted : EdgeSet) (state : State) : OracleResult × State :=
  let state := { state with calls := state.calls + 1 }
  match state.feasibleCache.find? fun entry => isSubset promoted entry.promoted with
  | some entry =>
      (⟨.feasible, some entry.solution⟩, { state with cacheHits := state.cacheHits + 1 })
  | none =>
      if state.infeasibleCores.any fun core => isSubset core promoted then
        (⟨.infeasibleProven, none⟩, { state with cacheHits := state.cacheHits + 1 })
      else solveAfresh problem search edges nodeLimit promoted state

def addInfeasibleCore (core : EdgeSet) (state : State) : State :=
  { state with infeasibleCores := state.infeasibleCores ++ [core] }

/-- A call of one of the two methods. -/
inductive Call
  | solve (promoted : EdgeSet)
  | addInfeasibleCore (core : EdgeSet)

def runCall (state : State) : Call → State
  | .solve promoted => (solve problem search edges nodeLimit promoted state).2
  | .addInfeasibleCore core => addInfeasibleCore core state

/-- The oracle after a sequence of calls. -/
def runCalls (calls : List Call) : State :=
  calls.foldl (runCall problem search edges nodeLimit) {}

end oracle

end PromotedDsaOracle

/-! ### Placements that keep edges apart -/

section separates

/-- The soft edges of the problem. -/
abbrev softEdges (problem : DsaProblem) : List IndexedSoftEdge := indexSoftEdges problem.search

/-- The set names soft edges. -/
def EdgesIn (problem : DsaProblem) (s : EdgeSet) : Prop :=
  ∀ edge ∈ s, edge < (softEdges problem).length

/-- The placement is one of the problem with the edges promoted. -/
def Separates (problem : DsaProblem) (s : EdgeSet) (solution : DsaSolution) : Prop :=
  validateSolution (promote problem (promotedPairs (softEdges problem) s)) solution = []

/-- No placement keeps all edges of the set apart. -/
def Inseparable (problem : DsaProblem) (s : EdgeSet) : Prop :=
  ∀ solution, ¬ Separates problem s solution

/-- The nodes of the edge overlap. -/
def Activates (problem : DsaProblem) (offsets : List UInt64) (edge : ℕ) : Prop :=
  ¬ NodesApart problem (positions offsets) ((softEdges problem).getD edge {}).pair.1
    ((softEdges problem).getD edge {}).pair.2

instance (offsets : List UInt64) (edge : ℕ) : Decidable (Activates problem offsets edge) :=
  inferInstanceAs (Decidable (¬ _))

theorem softEdge_mem {edge : ℕ} (hedge : edge < (softEdges problem).length) :
    (((softEdges problem).getD edge {}).pair, ((softEdges problem).getD edge {}).weight) ∈
      problem.search.softWeights.toList := by
  have hlt : edge < problem.search.softWeights.toList.length := by
    rwa [softEdges, indexSoftEdges, List.length_map] at hedge
  have hentry : (softEdges problem).getD edge {} =
      ⟨(problem.search.softWeights.toList[edge]).1,
        (problem.search.softWeights.toList[edge]).2⟩ := by
    rw [List.getD_eq_getElem _ _ hedge]
    exact List.getElem_map _
  rw [hentry]
  exact List.getElem_mem hlt

theorem nodePairs_promotedPairs (h : SearchOk problem) {s : EdgeSet} (hs : EdgesIn problem s) :
    NodePairs problem (promotedPairs (softEdges problem) s) := by
  intro pair hpair
  obtain ⟨edge, hedge, rfl⟩ := List.mem_map.mp hpair
  obtain ⟨hlt, hcount, hpool, -⟩ := softWeights_pair h (softEdge_mem (hs edge hedge))
  exact ⟨hlt, hcount, hpool⟩

/-- A placement separates the edges when it is a valid one that activates none. -/
theorem separates_iff (h : SearchOk problem) {s : EdgeSet} (hs : EdgesIn problem s)
    {solution : DsaSolution} : Separates problem s solution ↔
      ∃ offsets : List UInt64,
        solution.find = (expandReuseNodeSolution problem.search offsets).find ∧
          (nodePacking h).Valid (positions offsets) ∧
            ∀ edge ∈ s, ¬ Activates problem offsets edge := by
  have hpairs := nodePairs_promotedPairs h hs
  have hiff : ∀ offsets : List UInt64,
      (∀ pair ∈ promotedPairs (softEdges problem) s,
        NodesApart problem (positions offsets) pair.1 pair.2) ↔
          ∀ edge ∈ s, ¬ Activates problem offsets edge := by
    intro offsets
    unfold promotedPairs Activates
    simp only [List.mem_map, forall_exists_index, and_imp, forall_apply_eq_imp_iff₂, not_not]
  constructor
  · intro hsep
    obtain ⟨offsets, -, hfind, hv, hapart⟩ := validateSolution_promote h hpairs hsep
    exact ⟨offsets, hfind, hv, (hiff offsets).mp hapart⟩
  · rintro ⟨offsets, hfind, hv, hfree⟩
    unfold Separates
    rw [validateSolution_congr hfind, ← expand_promote h hpairs,
      validateSolution_expand_iff (h.promote hpairs)]
    exact (promote_valid_iff h hpairs _).mpr ⟨hv, (hiff offsets).mpr hfree⟩

/-- The valid placements, as offsets. -/
def ValidOffsets (problem : DsaProblem) (offsets : List UInt64) : Prop :=
  validateSolution problem (expandReuseNodeSolution problem.search offsets) = []

theorem inseparable_iff (h : SearchOk problem) {s : EdgeSet} (hs : EdgesIn problem s) :
    Inseparable problem s ↔
      Theory.Blocked (ValidOffsets problem) (Activates problem) {edge | edge ∈ s} := by
  constructor
  · intro hnone offsets hvalid
    by_contra hfree
    push Not at hfree
    exact hnone _ ((separates_iff h hs).mpr
      ⟨offsets, rfl, (validateSolution_expand_iff h offsets).mp hvalid, hfree⟩)
  · intro hblocked solution hsep
    obtain ⟨offsets, -, hv, hfree⟩ := (separates_iff h hs).mp hsep
    obtain ⟨edge, hedge, hactive⟩ :=
      hblocked offsets ((validateSolution_expand_iff h offsets).mpr hv)
    exact hfree edge hedge hactive

/-- Fewer edges are kept apart as well. -/
theorem Separates.subset (h : SearchOk problem) {s t : EdgeSet} (ht : EdgesIn problem t)
    (hsub : ∀ edge ∈ s, edge ∈ t) {solution : DsaSolution} (hsep : Separates problem t solution) :
    Separates problem s solution := by
  obtain ⟨offsets, hfind, hv, hfree⟩ := (separates_iff h ht).mp hsep
  exact (separates_iff h fun edge hedge => ht edge (hsub edge hedge)).mpr
    ⟨offsets, hfind, hv, fun edge hedge => hfree edge (hsub edge hedge)⟩

end separates

namespace PromotedDsaOracle

/-! ### The caches -/

variable {nodeLimit : UInt64}

/-- What the oracle remembers is true. -/
structure OracleOk (problem : DsaProblem) (state : State) : Prop where
  feasible : ∀ entry ∈ state.feasibleCache,
    EdgesIn problem entry.promoted ∧ Separates problem entry.promoted entry.solution
  infeasible : ∀ core ∈ state.infeasibleCores, EdgesIn problem core ∧ Inseparable problem core

theorem oracleOk_initial (problem : DsaProblem) : OracleOk problem {} := ⟨nofun, nofun⟩

theorem OracleOk.addInfeasibleCore {state : State} (hok : OracleOk problem state) {core : EdgeSet}
    (hcore : EdgesIn problem core) (hnone : Inseparable problem core) :
    OracleOk problem (addInfeasibleCore core state) where
  feasible := hok.feasible
  infeasible other hother := by
    rcases List.mem_append.mp hother with hother | hother
    · exact hok.infeasible other hother
    · rw [List.mem_singleton.mp hother]
      exact ⟨hcore, hnone⟩

/-- The ends of a call of `Solve`. -/
inductive SolveEnd (problem : DsaProblem) (nodeLimit : UInt64) (promoted : EdgeSet)
    (result : OracleResult) : Prop
  | feasible (solution : DsaSolution) (status : result.status = .feasible)
      (some : result.solution = some solution) (separates : Separates problem promoted solution)
  | infeasible (status : result.status = .infeasibleProven) (none : result.solution = none)
      (inseparable : Inseparable problem promoted)
  | timeout (status : result.status = .timeout) (none : result.solution = none)
      (limited : nodeLimit ≠ 0)

/-- A fresh answer and what is remembered of it. -/
theorem solveAfresh_end (h : SearchOk problem) {promoted : EdgeSet}
    (hpromoted : EdgesIn problem promoted) {state : State} (hok : OracleOk problem state) :
    SolveEnd problem nodeLimit promoted
        (solveAfresh problem problem.search (softEdges problem) nodeLimit promoted state).1 ∧
      OracleOk problem
        (solveAfresh problem problem.search (softEdges problem) nodeLimit promoted state).2 := by
  have hpairs := nodePairs_promotedPairs h hpromoted
  have hpromote : withPromotedReuseEdges problem problem.search
      (promotedPairs (softEdges problem) promoted) =
        promote problem (promotedPairs (softEdges problem) promoted) := rfl
  have hlimited : nodeLimit = 0 → _ :=
    @runCanonicalExactSearch_unlimited _ ⟨nodeLimit, true, none⟩ (h.promote hpairs)
  have hanswer := runCanonicalExactSearch_answer (h.promote hpairs) ⟨nodeLimit, true, none⟩
  have hfeasible := @promotedSearch_feasible problem ⟨nodeLimit, true, none⟩ _ h hpairs rfl
  have hinfeasible := @promotedSearch_infeasible problem ⟨nodeLimit, true, none⟩ _ h hpairs
  unfold solveAfresh
  dsimp only
  rw [hpromote, buildSearch_eq]
  generalize runCanonicalExactSearch
    (promote problem (promotedPairs (softEdges problem) promoted))
    (promote problem (promotedPairs (softEdges problem) promoted)).search
    ⟨nodeLimit, true, none⟩ = result at hlimited hanswer hfeasible hinfeasible ⊢
  have hcut : result.status = .timeout → nodeLimit ≠ 0 := by
    intro hstatus hzero
    rcases hlimited hzero with hdone | hdone
    · exact absurd (hstatus.symm.trans hdone) nofun
    · exact absurd (hstatus.symm.trans hdone) nofun
  cases hanswer with
  | placed _ status =>
      obtain ⟨offsets, hsome, hvalid⟩ := hfeasible status
      rw [status, hsome]
      dsimp only
      unfold buildValidatedReuseResult
      dsimp only
      rw [if_neg (not_not.mpr hvalid)]
      refine ⟨.feasible _ rfl rfl hvalid, fun entry hentry => ?_, hok.infeasible⟩
      rcases List.mem_append.mp hentry with hentry | hentry
      · exact hok.feasible entry hentry
      · rw [List.mem_singleton.mp hentry]
        exact ⟨hpromoted, hvalid⟩
  | cutPlaced _ status =>
      rw [status]
      exact ⟨.timeout rfl rfl (hcut status), hok.feasible, hok.infeasible⟩
  | infeasible _ _ status =>
      rw [status]
      refine ⟨.infeasible rfl rfl fun solution hsep => ?_, hok.feasible, hok.infeasible⟩
      obtain ⟨offsets, -, -, hv, hapart⟩ := validateSolution_promote h hpairs hsep
      exact hinfeasible status hv hapart
  | cut status =>
      rw [status]
      exact ⟨.timeout rfl rfl (hcut status), hok.feasible, hok.infeasible⟩

/-- **A call answers the question.** -/
theorem solve_end (h : SearchOk problem) {promoted : EdgeSet}
    (hpromoted : EdgesIn problem promoted) {state : State} (hok : OracleOk problem state) :
    SolveEnd problem nodeLimit promoted
        (solve problem problem.search (softEdges problem) nodeLimit promoted state).1 ∧
      OracleOk problem
        (solve problem problem.search (softEdges problem) nodeLimit promoted state).2 := by
  unfold solve
  dsimp only
  cases hcached : state.feasibleCache.find? fun entry => isSubset promoted entry.promoted with
  | some entry =>
      -- a placement of a larger set
      obtain ⟨hin, hsep⟩ := hok.feasible entry (List.mem_of_find?_eq_some hcached)
      have hsub : isSubset promoted entry.promoted = true := by
        simpa using List.find?_some hcached
      exact ⟨.feasible entry.solution rfl rfl (hsep.subset h hin (isSubset_iff.mp hsub)),
        hok.feasible, hok.infeasible⟩
  | none =>
      dsimp only
      by_cases hcore : (state.infeasibleCores.any fun core => isSubset core promoted) = true
      · rw [if_pos hcore]
        obtain ⟨core, hmem, hsub⟩ := List.any_eq_true.mp hcore
        -- a core within the set
        refine ⟨.infeasible rfl rfl fun solution hsep => ?_, hok.feasible, hok.infeasible⟩
        exact (hok.infeasible core hmem).2 solution (hsep.subset h hpromoted (isSubset_iff.mp hsub))
      · rw [if_neg hcore]
        exact solveAfresh_end h hpromoted ⟨hok.feasible, hok.infeasible⟩

/-- The calls name soft edges, and the cores added are cores. -/
def CallOk (problem : DsaProblem) : Call → Prop
  | .solve promoted => EdgesIn problem promoted
  | .addInfeasibleCore core => EdgesIn problem core ∧ Inseparable problem core

theorem runCall_ok (h : SearchOk problem) {state : State} (hok : OracleOk problem state)
    {call : Call} (hcall : CallOk problem call) :
    OracleOk problem (runCall problem problem.search (softEdges problem) nodeLimit state call) := by
  cases call with
  | solve promoted => exact (solve_end h hcall hok).2
  | addInfeasibleCore core => exact hok.addInfeasibleCore hcall.1 hcall.2

theorem runCalls_ok (h : SearchOk problem) {calls : List Call}
    (hcalls : ∀ call ∈ calls, CallOk problem call) :
    OracleOk problem (runCalls problem problem.search (softEdges problem) nodeLimit calls) := by
  apply List.foldlRecOn (motive := fun state => OracleOk problem state)
  · exact oracleOk_initial problem
  · exact fun state hok call hmem => runCall_ok h hok (hcalls call hmem)

end PromotedDsaOracle

end Dsa
