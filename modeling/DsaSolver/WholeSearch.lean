import DsaSolver.CanonicalExactness
import DsaSolver.Compatibility
import DsaSolver.PromotedEdges
import DsaSolver.Theory.Loops

/-! # The canonical search of a whole problem

`RunCanonicalExactSearch` joins the answers of the pools (`runCanonicalExactSearch_answer`).  Its
feasible answer is a valid packing of all nodes, and its infeasible answer proves that there is
none.  The solvers reach it with problems whose features they support
(`searchOk_of_compatible`). -/

namespace Dsa

variable {problem : DsaProblem} {options : CanonicalExactSearchOptions}

/-! ### Problems that fix the pools -/

theorem length_setIntersection_le (first second : List PoolId) :
    (setIntersection first second).length ≤ first.length := by
  induction first generalizing second with
  | nil => exact le_rfl
  | cons a rest ih =>
      unfold setIntersection
      split
      · exact Nat.zero_le _
      · split_ifs
        · exact (ih _).trans (Nat.le_succ _)
        · exact Nat.succ_le_succ (ih _)

/-- Classes of buffers that allow one pool allow at most one pool. -/
theorem gatherBuffers_single
    (hsingle : ∀ buffer ∈ problem.buffers, buffer.allowedPools.length ≤ 1) {count : ℕ}
    (hcount : count ≤ problem.buffers.length) :
    ∀ super ∈ (gatherBuffers problem count).1, super.allowedPools.length ≤ 1 := by
  induction count with
  | zero =>
      intro super hsuper
      cases hsuper
  | succ count ih =>
      have hold := ih (by omega)
      have hlt : count < problem.buffers.length := hcount
      have hnew := hsingle _ (bufferAt_mem hlt)
      unfold gatherBuffers at hold ⊢
      rw [List.range_succ, List.foldl_append, List.foldl_cons, List.foldl_nil]
      generalize (List.range count).foldl (gatherBuffer problem) ([], []) = state at hold ⊢
      unfold gatherBuffer
      dsimp only
      split
      · intro super hsuper
        rcases List.mem_append.mp hsuper with hsuper | hsuper
        · exact hold super hsuper
        · rw [List.mem_singleton.mp hsuper]
          exact hnew
      · intro super hsuper
        obtain ⟨index, hindex⟩ := List.mem_iff_getElem?.mp hsuper
        rw [List.getElem?_modify] at hindex
        split_ifs at hindex
        · obtain ⟨earlier, hearlier, rfl⟩ := Option.map_eq_some_iff.mp hindex
          refine le_trans (length_setIntersection_le _ _) ?_
          rw [List.length_insertionSort]
          exact hold earlier (List.mem_of_getElem? hearlier)
        · exact hold super (List.mem_of_getElem? (by simpa using hindex))

theorem flexiblePools_eq_false
    (hsingle : ∀ buffer ∈ problem.buffers, buffer.allowedPools.length ≤ 1) :
    (prepare problem).flexiblePools = false := by
  unfold prepare
  split_ifs
  · rfl
  · show List.any _ _ = false
    rw [List.any_eq_false]
    intro super hsuper
    have := gatherBuffers_single hsingle le_rfl super hsuper
    simpa using this

/-- A problem without pins and flexible pools is one the search algorithms accept. -/
theorem searchOk_of_compatible {capabilities : SolverCapabilities}
    (hcompatible : (checkSolverCompatibility problem capabilities).compatible = true)
    (hpins : capabilities.pinnedAllocations = false)
    (hflexible : capabilities.flexiblePoolAssignment = false)
    (herrors : problem.search.placement.errors = []) : SearchOk problem where
  noErrors := herrors
  fixedPools := by
    have hnil := requireFeatures_of_compatible hcompatible
    unfold requireFeatures at hnil
    dsimp only at hnil
    have hpresent := (requireFeature_eq_nil hnil).2 hflexible
    have hsingle : ∀ buffer ∈ problem.buffers, buffer.allowedPools.length ≤ 1 := by
      intro buffer hbuffer
      have := List.any_eq_false.mp hpresent buffer hbuffer
      simpa using this
    rw [SearchOk.placement_search]
    unfold buildPlacementSearchSpace
    dsimp only
    split_ifs
    · exact flexiblePools_eq_false hsingle
    · rfl
  noPins := noPins_of_compatible hcompatible hpins

/-! ### The loop over the pools -/

section pools

open PoolCanonicalSearch (poolNodes)

theorem exists_poolNode_iff (search : ReusePenaltySearchSpace) (pool : PoolId) :
    (search.placement.nodes.any fun node => node.pool == pool) = true ↔
      poolNodes search pool ≠ [] := by
  rw [List.any_eq_true, ne_eq, List.eq_nil_iff_forall_not_mem, not_forall_not]
  constructor
  · rintro ⟨node, hnode, hpool⟩
    obtain ⟨n, hn, rfl⟩ := List.mem_iff_getElem.mp hnode
    refine ⟨n, PoolCanonicalSearch.mem_poolNodes.mpr ⟨hn, ?_⟩⟩
    rw [ReusePenaltySearchSpace.nodeAt, List.getD_eq_getElem _ _ hn]
    exact beq_iff_eq.mp hpool
  · rintro ⟨n, hn⟩
    obtain ⟨hcount, hpool⟩ := PoolCanonicalSearch.mem_poolNodes.mp hn
    have hlt : n < search.placement.nodes.length := hcount
    rw [ReusePenaltySearchSpace.nodeAt, List.getD_eq_getElem _ _ hlt] at hpool
    exact ⟨_, List.getElem_mem hlt, beq_iff_eq.mpr hpool⟩

theorem getD_mergePoolOffsets {search : ReusePenaltySearchSpace} {pool : PoolId}
    {offsets own : List UInt64} {n : ℕ} (hn : n < search.count) :
    (mergePoolOffsets search pool offsets own).getD n 0 =
      if (search.nodeAt n).pool = pool then own.getD n 0 else offsets.getD n 0 := by
  unfold mergePoolOffsets
  rw [List.getD_eq_getElem _ _ (by simpa using hn), List.getElem_map, List.getElem_range]
  exact if_congr beq_iff_eq rfl rfl

/-- The placements of the pools done are joined. -/
structure Joined (problem : DsaProblem) (options : CanonicalExactSearchOptions)
    (done : List Pool) (state : PoolsState) : Prop where
  length : state.offsets.length = problem.search.count
  agree : ∀ pool ∈ done, ∀ n ∈ poolNodes problem.search pool.id,
    state.offsets.getD n 0 =
      (PoolCanonicalSearch.run problem problem.search pool.id options).offsets.getD n 0
  feasible : state.anyTimeout = false → ∀ pool ∈ done, poolNodes problem.search pool.id ≠ [] →
    (PoolCanonicalSearch.run problem problem.search pool.id options).status = .feasible
  timeout : state.anyTimeout = true → ∃ pool ∈ done,
    (PoolCanonicalSearch.run problem problem.search pool.id options).status = .timeout
  noOffsets : state.result.offsets = none

/-- The ends of one iteration. -/
inductive PoolEnd (problem : DsaProblem) (options : CanonicalExactSearchOptions) (pool : Pool)
    (state : PoolsState) : Except CanonicalExactSearchResult PoolsState → Prop
  | skipped (none : poolNodes problem.search pool.id = []) : PoolEnd problem options pool state
      (.ok state)
  | stopped (result : CanonicalExactSearchResult)
      (unplaced :
        (PoolCanonicalSearch.run problem problem.search pool.id options).status ≠ .feasible)
      (status : result.status =
        (PoolCanonicalSearch.run problem problem.search pool.id options).status)
      (offsets : result.offsets = state.result.offsets) :
      PoolEnd problem options pool state (.error result)
  | merged (next : PoolsState)
      (offsets : next.offsets = mergePoolOffsets problem.search pool.id state.offsets
        (PoolCanonicalSearch.run problem problem.search pool.id options).offsets)
      (inTime : next.anyTimeout = false → state.anyTimeout = false ∧
        (PoolCanonicalSearch.run problem problem.search pool.id options).status = .feasible)
      (timeout : next.anyTimeout = true → state.anyTimeout = true ∨
        (PoolCanonicalSearch.run problem problem.search pool.id options).status = .timeout)
      (result : next.result.offsets = state.result.offsets) :
      PoolEnd problem options pool state (.ok next)

theorem searchPool_end (pool : Pool) (state : PoolsState) :
    PoolEnd problem options pool state (searchPool problem problem.search options state pool) := by
  unfold searchPool
  by_cases hnodes : (!problem.search.placement.nodes.any fun node => node.pool == pool.id) = true
  · rw [if_pos hnodes]
    rw [Bool.not_eq_true', ← Bool.not_eq_true, exists_poolNode_iff, not_not] at hnodes
    exact .skipped hnodes
  · rw [if_neg hnodes]
    dsimp only
    generalize hrun : PoolCanonicalSearch.run problem problem.search pool.id options = result
    by_cases hstop : (!(result.status == .timeout && !result.offsets.isEmpty) &&
        result.status != .feasible) = true
    · rw [if_pos hstop]
      rw [Bool.and_eq_true, bne_iff_ne] at hstop
      exact .stopped _ (hrun.symm ▸ hstop.2) (by rw [hrun]) rfl
    · rw [if_neg hstop]
      refine .merged _ (by rw [hrun]) (fun htimeout => ?_) (fun htimeout => ?_) rfl
      · dsimp only at htimeout
        rw [Bool.or_eq_false_iff] at htimeout
        rw [htimeout.2, Bool.not_false, Bool.true_and, bne_iff_ne, not_not] at hstop
        exact ⟨htimeout.1, hrun.symm ▸ hstop⟩
      · dsimp only at htimeout
        rw [Bool.or_eq_true, Bool.and_eq_true, beq_iff_eq] at htimeout
        exact htimeout.imp_right fun hlate => hrun.symm ▸ hlate.1

theorem Joined.step {done : List Pool} {pool : Pool} {state next : PoolsState}
    (hjoined : Joined problem options done state)
    (hnext : searchPool problem problem.search options state pool = .ok next) :
    Joined problem options (done ++ [pool]) next := by
  have hend := @searchPool_end problem options pool state
  rw [hnext] at hend
  cases hend with
  | skipped hnone =>
      refine ⟨hjoined.length, fun other hother n hn => ?_, fun htimeout other hother hne => ?_,
        fun htimeout => ?_, hjoined.noOffsets⟩
      · rcases List.mem_append.mp hother with hother | hother
        · exact hjoined.agree other hother n hn
        · rw [List.mem_singleton.mp hother, hnone] at hn
          cases hn
      · rcases List.mem_append.mp hother with hother | hother
        · exact hjoined.feasible htimeout other hother hne
        · rw [List.mem_singleton.mp hother, hnone] at hne
          exact absurd rfl hne
      · obtain ⟨other, hother, hlate⟩ := hjoined.timeout htimeout
        exact ⟨other, List.mem_append_left _ hother, hlate⟩
  | merged _ hoffsets htimeout hlate hresult =>
      refine ⟨?_, fun other hother n hn => ?_, fun hany other hother hne => ?_, fun hany => ?_, ?_⟩
      · rw [hoffsets, mergePoolOffsets, List.length_map, List.length_range]
      · obtain ⟨hcount, hpool⟩ := PoolCanonicalSearch.mem_poolNodes.mp hn
        rw [hoffsets, getD_mergePoolOffsets hcount, hpool]
        split_ifs with hsame
        · rw [hsame]
        · rcases List.mem_append.mp hother with hother | hother
          · exact hjoined.agree other hother n hn
          · rw [List.mem_singleton.mp hother] at hsame
            exact absurd rfl hsame
      · obtain ⟨hold, hfeasible⟩ := htimeout hany
        rcases List.mem_append.mp hother with hother | hother
        · exact hjoined.feasible hold other hother hne
        · rw [List.mem_singleton.mp hother]
          exact hfeasible
      · rcases hlate hany with hold | hnew
        · obtain ⟨other, hother, hother'⟩ := hjoined.timeout hold
          exact ⟨other, List.mem_append_left _ hother, hother'⟩
        · exact ⟨pool, List.mem_append_right _ List.mem_cons_self, hnew⟩
      · rw [hresult]
        exact hjoined.noOffsets

/-- The answers of the search. -/
inductive SearchAnswer (problem : DsaProblem) (options : CanonicalExactSearchOptions)
    (result : CanonicalExactSearchResult) : Prop
  | placed (offsets : List UInt64) (status : result.status = .feasible)
      (some : result.offsets = some offsets) (length : offsets.length = problem.search.count)
      (agree : ∀ pool ∈ problem.pools, ∀ n ∈ poolNodes problem.search pool.id,
        offsets.getD n 0 =
          (PoolCanonicalSearch.run problem problem.search pool.id options).offsets.getD n 0)
      (feasible : ∀ pool ∈ problem.pools, poolNodes problem.search pool.id ≠ [] →
        (PoolCanonicalSearch.run problem problem.search pool.id options).status = .feasible)
  | cutPlaced (offsets : List UInt64) (status : result.status = .timeout)
      (some : result.offsets = some offsets)
      (late : ∃ pool ∈ problem.pools,
        (PoolCanonicalSearch.run problem problem.search pool.id options).status = .timeout)
  | infeasible (pool : Pool) (mem : pool ∈ problem.pools)
      (status : result.status = .infeasibleProven)
      (none : result.offsets = none)
      (unplaced :
        (PoolCanonicalSearch.run problem problem.search pool.id options).status = .infeasibleProven)
  | cut (status : result.status = .timeout) (none : result.offsets = none)
      (late : ∃ pool ∈ problem.pools,
        (PoolCanonicalSearch.run problem problem.search pool.id options).status = .timeout)

theorem runCanonicalExactSearch_answer (h : SearchOk problem)
    (options : CanonicalExactSearchOptions) :
    SearchAnswer problem options (runCanonicalExactSearch problem problem.search options) := by
  have hstart : Joined problem options []
      { offsets := List.replicate problem.search.count 0 } :=
    ⟨List.length_replicate, nofun, nofun, nofun, rfl⟩
  have hstep : ∀ done pool rest state next, problem.pools = done ++ pool :: rest →
      Joined problem options done state →
        searchPool problem problem.search options state pool = .ok next →
          Joined problem options (done ++ [pool]) next :=
    fun _ _ _ _ _ _ hjoined hnext => hjoined.step hnext
  unfold runCanonicalExactSearch
  rw [if_neg (not_not.mpr h.noErrors), h.fixedPools, if_neg Bool.false_ne_true]
  cases hloop : problem.pools.foldlM (searchPool problem problem.search options)
      { offsets := List.replicate problem.search.count 0 } with
  | error result =>
      dsimp only
      obtain ⟨done, pool, rest, state, hpools, hjoined, herror⟩ :=
        Theory.foldlM_error (Joined problem options) hstart hstep hloop
      have hmem : pool ∈ problem.pools := by
        rw [hpools]
        exact List.mem_append_right _ List.mem_cons_self
      have hend := @searchPool_end problem options pool state
      rw [herror] at hend
      cases hend with
      | stopped _ unplaced status offsets =>
          rw [hjoined.noOffsets] at offsets
          cases PoolCanonicalSearch.run_answers problem pool.id options with
          | cut cut => exact .cut (status.trans cut) offsets ⟨pool, hmem, cut⟩
          | placement placed => exact absurd placed unplaced
          | nothing nothing =>
              exact .infeasible pool hmem (status.trans nothing) offsets nothing
  | ok state =>
      dsimp only
      have hjoined := Theory.foldlM_induction (Joined problem options) hstart hstep hloop
      cases htimeout : state.anyTimeout with
      | true => exact .cutPlaced state.offsets rfl rfl (hjoined.timeout htimeout)
      | false =>
          exact .placed state.offsets rfl rfl hjoined.length hjoined.agree
            (hjoined.feasible htimeout)

/-! ### Packings of all nodes -/

/-- A packing of the nodes is a placement of every pool. -/
theorem valid_iff_pools (h : SearchOk problem) {q : ℕ → ℕ} :
    (nodePacking h).Valid q ↔
      ∀ pool ∈ problem.pools, PoolCanonicalSearch.Placed problem pool.id q ∧
        PoolCanonicalSearch.Aligned problem pool.id q := by
  have hpoolOf : ∀ {n}, n < problem.search.count →
      ∃ pool ∈ problem.pools, n ∈ poolNodes problem.search pool.id := by
    intro n hn
    obtain ⟨pool, hpool⟩ := h.exists_pool hn
    have hid : pool.id = (problem.search.nodeAt n).pool := findPool_id hpool
    exact ⟨pool, findPool_mem hpool, PoolCanonicalSearch.mem_poolNodes.mpr ⟨hn, hid.symm⟩⟩
  constructor
  · intro hv pool _
    refine ⟨⟨fun n hn => ?_, fun n hn m hm hc => ?_⟩, fun n hn => ?_⟩
    · have hcount := PoolCanonicalSearch.lt_of_mem_poolNodes hn
      exact ((fitsAt_iff_room h hcount).mp (hv.fits n (Finset.mem_range.mpr hcount))).2
    · exact hv.apart n (Finset.mem_range.mpr (PoolCanonicalSearch.lt_of_mem_poolNodes hn)) m
        (Finset.mem_range.mpr (PoolCanonicalSearch.lt_of_mem_poolNodes hm)) hc
    · have hcount := PoolCanonicalSearch.lt_of_mem_poolNodes hn
      exact ((fitsAt_iff_room h hcount).mp (hv.fits n (Finset.mem_range.mpr hcount))).1
  · intro hall
    refine ⟨fun n hn => ?_, fun n hn m hm hc => ?_⟩
    · have hcount := Finset.mem_range.mp hn
      obtain ⟨pool, hpool, hmem⟩ := hpoolOf hcount
      obtain ⟨hplaced, haligned⟩ := hall pool hpool
      exact (fitsAt_iff_room h hcount).mpr ⟨haligned n hmem, hplaced.room n hmem⟩
    · have hcount := Finset.mem_range.mp hn
      obtain ⟨pool, hpool, hmem⟩ := hpoolOf hcount
      have hsame : m ∈ poolNodes problem.search pool.id := by
        rw [PoolCanonicalSearch.mem_poolNodes] at hmem ⊢
        refine ⟨Finset.mem_range.mp hm, ?_⟩
        rw [h.pool_eq (Finset.mem_range.mp hm), ← hc.pool, ← h.pool_eq hcount]
        exact hmem.2
      exact (hall pool hpool).1.apart n hmem m hsame hc

/-- A feasible answer without an incumbent is a valid packing. -/
theorem runCanonicalExactSearch_valid (h : SearchOk problem)
    (hown : options.stopAfterFirst = true ∨ options.incumbentOffsets = none)
    (hfeasible : (runCanonicalExactSearch problem problem.search options).status = .feasible) :
    ∃ offsets, (runCanonicalExactSearch problem problem.search options).offsets = some offsets ∧
      offsets.length = problem.search.count ∧ (nodePacking h).Valid (positions offsets) := by
  cases runCanonicalExactSearch_answer h options with
  | cutPlaced _ status => exact absurd (hfeasible.symm.trans status) nofun
  | infeasible _ _ status => exact absurd (hfeasible.symm.trans status) nofun
  | cut status => exact absurd (hfeasible.symm.trans status) nofun
  | placed offsets _ some length agree feasible =>
      refine ⟨offsets, some, length, (valid_iff_pools h).mpr fun pool hpool => ?_⟩
      have hagree : ∀ n ∈ poolNodes problem.search pool.id, positions offsets n =
          positions (PoolCanonicalSearch.run problem problem.search pool.id options).offsets n :=
        fun n hn => congrArg UInt64.toNat (agree pool hpool n hn)
      by_cases hnodes : poolNodes problem.search pool.id = []
      · refine ⟨⟨fun n hn => ?_, fun n hn => ?_⟩, fun n hn => ?_⟩
        · rw [hnodes] at hn
          cases hn
        · rw [hnodes] at hn
          cases hn
        · rw [hnodes] at hn
          cases hn
      · have hkept := PoolCanonicalSearch.run_kept h (feasible pool hpool hnodes)
        refine ⟨hkept.placed.congr hagree, PoolCanonicalSearch.Aligned.congr ?_ hagree⟩
        rcases hkept.aligned with haligned | ⟨hstop, hincumbent⟩
        · exact haligned
        · rcases hown with hown | hown
          · exact absurd (hown.symm.trans hstop) nofun
          · exact absurd (hown.symm.trans hincumbent) nofun

/-- An infeasible answer proves that there is no valid packing. -/
theorem runCanonicalExactSearch_infeasible (h : SearchOk problem)
    (hinfeasible :
      (runCanonicalExactSearch problem problem.search options).status = .infeasibleProven)
    (q : ℕ → ℕ) : ¬ (nodePacking h).Valid q := by
  intro hv
  cases runCanonicalExactSearch_answer h options with
  | placed _ status => exact absurd (hinfeasible.symm.trans status) nofun
  | cutPlaced _ status => exact absurd (hinfeasible.symm.trans status) nofun
  | cut status => exact absurd (hinfeasible.symm.trans status) nofun
  | infeasible pool hpool _ _ unplaced =>
      obtain ⟨hplaced, haligned⟩ := (valid_iff_pools h).mp hv pool hpool
      exact PoolCanonicalSearch.run_infeasible h unplaced hplaced haligned

end pools

/-! ### Promoted problems -/

section promoted

variable {pairs : List (ℕ × ℕ)}

/-- A feasible answer for the promoted problem keeps the pairs apart. -/
theorem promotedSearch_feasible (h : SearchOk problem) (hpairs : NodePairs problem pairs)
    (hstop : options.stopAfterFirst = true)
    (hfeasible : (runCanonicalExactSearch (promote problem pairs) (promote problem pairs).search
      options).status = .feasible) :
    ∃ offsets, (runCanonicalExactSearch (promote problem pairs) (promote problem pairs).search
        options).offsets = some offsets ∧
      validateSolution (promote problem pairs)
        (expandReuseNodeSolution (promote problem pairs).search offsets) = [] := by
  obtain ⟨offsets, hsome, -, hv⟩ :=
    runCanonicalExactSearch_valid (h.promote hpairs) (.inl hstop) hfeasible
  exact ⟨offsets, hsome, (validateSolution_expand_iff (h.promote hpairs) offsets).mpr hv⟩

/-- An infeasible answer for the promoted problem: no packing keeps the pairs apart. -/
theorem promotedSearch_infeasible (h : SearchOk problem) (hpairs : NodePairs problem pairs)
    (hinfeasible : (runCanonicalExactSearch (promote problem pairs) (promote problem pairs).search
      options).status = .infeasibleProven) {q : ℕ → ℕ} (hv : (nodePacking h).Valid q) :
    ¬ ∀ pair ∈ pairs, NodesApart problem q pair.1 pair.2 := fun hapart =>
  runCanonicalExactSearch_infeasible (h.promote hpairs) hinfeasible q
    ((promote_valid_iff h hpairs q).mpr ⟨hv, hapart⟩)

/-- The search without a limit decides. -/
theorem runCanonicalExactSearch_unlimited (h : SearchOk problem) (hlimit : options.nodeLimit = 0) :
    (runCanonicalExactSearch problem problem.search options).status = .feasible ∨
      (runCanonicalExactSearch problem problem.search options).status = .infeasibleProven := by
  cases runCanonicalExactSearch_answer h options with
  | placed _ status => exact .inl status
  | infeasible _ _ status => exact .inr status
  | cutPlaced _ _ _ late =>
      obtain ⟨pool, -, hlate⟩ := late
      exact absurd hlate (PoolCanonicalSearch.run_unlimited hlimit)
  | cut _ _ late =>
      obtain ⟨pool, -, hlate⟩ := late
      exact absurd hlate (PoolCanonicalSearch.run_unlimited hlimit)

end promoted

end Dsa
