import DsaSolver.CapacityTwoSearch

/-! # The answers of the capacity-two solver

The colours of the flips are the placements of a pool with two addresses (`placed_of_flips`), so
a search that ends has found a cheapest one (`run_end`), and the answer of the solver proves the
least reuse cost (`capacityTwo_leastCost`). -/

namespace Dsa

namespace PoolTwoSearch

open Theory (TwoColors)
open PoolCanonicalSearch (Placed)

variable {problem : DsaProblem} {pool : PoolId} {components : Components}

/-! ### The answers of a pool -/

/-- What `PoolTwoSearch` answers. -/
inductive PoolAnswer (problem : DsaProblem) (pool : PoolId) (unit nodeLimit : UInt64)
    (result : PoolTwoResult) : Prop
  | cheapest (status : result.status = .feasible)
      (placed : Placed problem pool
        (positions (result.colors.map fun color => color.toUInt64 * unit)))
      (aligned : PoolCanonicalSearch.Aligned problem pool
        (positions (result.colors.map fun color => color.toUInt64 * unit)))
      (cheapest : .reuseCost ∈ problem.objective.terms → CheapestPlaced problem pool
        (positions (result.colors.map fun color => color.toUInt64 * unit)))
  | cut (status : result.status = .timeout) (limited : nodeLimit ≠ 0)
      (placed : result.colors = [] ∨ Placed problem pool
          (positions (result.colors.map fun color => color.toUInt64 * unit)) ∧
        PoolCanonicalSearch.Aligned problem pool
          (positions (result.colors.map fun color => color.toUInt64 * unit)))
  | infeasible (status : result.status = .infeasibleProven)
      (none : ∀ q, ¬ Placed problem pool q)

section answer

variable {unitPool : Pool} {unit capacity nodeLimit : UInt64}

theorem twoColors_of_coloring {g : ℕ → ℕ} {colors : ℕ} (hcolors : colors ≤ 2)
    (hg : Coloring problem pool colors g) :
    TwoColors (HardPair problem pool) fun n => decide (g n = 1) := by
  intro n m hpair heq
  have hn := mem_nodes.mp hpair.first
  have hm := mem_nodes.mp hpair.second
  have hlt := hg.lt n hn
  have hlt' := hg.lt m hm
  have hne := hg.proper n hn m hm hpair.conflict
  rw [decide_eq_decide] at heq
  omega

/-- The colours of flips are a placement, no dearer than those of the others that cost more. -/
theorem placed_of_flips (h : SearchOk problem) (hunits : UnitPool problem unitPool unit capacity)
    (htwo : capacity.toNat / unit.toNat = 2) (hparts : Parts problem unitPool.id components)
    (flips : Flips) :
    (Placed problem unitPool.id (positions ((colorsOf problem.search unitPool.id components
        flips).map fun color => color.toUInt64 * unit)) ∧
      PoolCanonicalSearch.Aligned problem unitPool.id (positions ((colorsOf problem.search
        unitPool.id components flips).map fun color => color.toUInt64 * unit))) ∧
    ((∀ flip : ℕ → Bool,
        flipCost problem unitPool.id components (fun c => (flipOf flips c).getD false) ≤
          flipCost problem unitPool.id components flip) →
      CheapestPlaced problem unitPool.id (positions ((colorsOf problem.search unitPool.id components
        flips).map fun color => color.toUInt64 * unit))) := by
  have hlength : (colorsOf problem.search unitPool.id components flips).length =
      problem.search.count := by
    unfold colorsOf
    refine List.foldlRecOn (motive := fun colors : List Bool => colors.length = _) _ _
      List.length_replicate fun colors hcolors node _ => ?_
    rw [List.length_set, hcolors]
  have hoffsets : ∀ n ∈ PoolCanonicalSearch.poolNodes problem.search unitPool.id,
      positions ((colorsOf problem.search unitPool.id components flips).map
        fun color => color.toUInt64 * unit) n =
          (flipColor components (fun c => (flipOf flips c).getD false) n).toNat * unit.toNat := by
    intro n hn
    have hcount := PoolCanonicalSearch.lt_of_mem_poolNodes hn
    rw [← getD_colorsOf (mem_nodes.mpr hn)]
    unfold positions
    rw [List.getD_eq_getElem _ _ (by rwa [List.length_map, hlength]), List.getElem_map,
      List.getD_eq_getElem _ _ (by rwa [hlength])]
    cases (colorsOf problem.search unitPool.id components flips)[n] with
    | false =>
        rw [Bool.toNat_false, zero_mul]
        exact congrArg UInt64.toNat (UInt64.zero_mul)
    | true =>
        rw [Bool.toNat_true, one_mul]
        exact congrArg UInt64.toNat (UInt64.one_mul _)
  have hproper := hparts.parted.twoColors_flips (fun a b hab => hparts.assigned a hab.first)
    fun component => (flipOf flips (component.getD 0)).getD false
  have hcoloring : Coloring problem unitPool.id (capacity.toNat / unit.toNat)
      fun n => (flipColor components (fun c => (flipOf flips c).getD false) n).toNat := by
    refine ⟨fun n _ => ?_, fun n hn m hm hconflict heq => ?_⟩
    · rw [htwo]
      exact Nat.lt_succ_of_le (Bool.toNat_le _)
    · exact hproper n m ⟨mem_nodes.mpr hn, mem_nodes.mpr hm, hconflict⟩ (toNat_eq_iff.mp heq)
  obtain ⟨hplaced, haligned, -⟩ := hunits.placed_of_coloring h hcoloring hoffsets
  refine ⟨⟨hplaced, haligned⟩, fun hleast => ?_⟩
  refine (hunits.cheapest_of_coloring h hcoloring hoffsets fun g hg => ?_).1
  obtain ⟨flip, hflip⟩ := hparts.parted.exists_flips
    (twoColors_of_coloring ((min_le_left _ _).trans_eq htwo) hg)
  refine (hleast flip).trans_eq (colorCost_congr fun n hn m hm => ?_)
  have hcolor : ∀ k ∈ PoolCanonicalSearch.poolNodes problem.search unitPool.id,
      flipColor components flip k = decide (g k = 1) := by
    intro k hk
    unfold flipColor
    cases hcomponent : components.componentOf k with
    | none => exact absurd hcomponent (hparts.assigned k (mem_nodes.mpr hk))
    | some c => exact (hflip k c hcomponent).symm
  have hn' := hg.lt n hn
  have hm' := hg.lt m hm
  rw [hcolor n hn, hcolor m hm, toNat_eq_iff, decide_eq_decide]
  omega

theorem run_end (h : SearchOk problem) (hunits : UnitPool problem unitPool unit capacity)
    (htwo : capacity.toNat / unit.toNat = 2) (horder : CostFirst problem.objective.terms) :
    PoolAnswer problem unitPool.id unit nodeLimit
      (run problem.search unitPool.id problem unit nodeLimit) := by
  unfold run
  rcases buildComponents_end h unitPool.id with ⟨hnone, hodd⟩ | ⟨components, hsome, hparts⟩
  · rw [hnone]
    refine .infeasible rfl fun q hplaced => ?_
    obtain ⟨g, hg, -⟩ := hunits.exists_coloring h hplaced
    exact hodd _ (twoColors_of_coloring ((min_le_left _ _).trans_eq htwo) hg)
  · rw [hsome]
    obtain ⟨hok, hcovers, hunlimited⟩ := @finalState_spec problem unitPool.id components unit
      nodeLimit h hparts
    dsimp only
    generalize finalState problem.search unitPool.id problem unit nodeLimit components = state
      at hok hcovers hunlimited ⊢
    cases hlimit : state.limitHit with
    | true =>
        refine .cut rfl (fun hzero => ?_) ?_
        · exact absurd ((hunlimited hzero).symm.trans hlimit) (by decide)
        · cases hfound : state.found with
          | false => exact .inl rfl
          | true =>
              obtain ⟨flips, hcolors, -⟩ := hok hfound
              refine .inr ?_
              rw [if_pos rfl, hcolors]
              exact (placed_of_flips h hunits htwo hparts flips).1
    | false =>
        have hfound : state.found = true := by
          rcases hcovers fun _ => false with hcut | ⟨best, hbest, -⟩
          · exact absurd (hlimit.symm.trans hcut) (by decide)
          · exact (found_of_view hbest).1
        obtain ⟨flips, hcolors, hscore⟩ := hok hfound
        obtain ⟨⟨hplaced, haligned⟩, hcheapest⟩ := placed_of_flips h hunits htwo hparts flips
        rw [hfound, hcolors]
        refine .cheapest rfl hplaced haligned fun hreuse => hcheapest fun flip => ?_
        rcases hcovers flip with hcut | ⟨best, hbest, hle⟩
        · exact absurd (hlimit.symm.trans hcut) (by decide)
        · rw [← (found_of_view hbest).2, hscore] at hle
          exact (rank_of_poolScore_le horder hle).1 hreuse

end answer

end PoolTwoSearch

namespace CapacityTwoExactSolver

open PoolTwoSearch (nodes mem_nodes)
open PoolCanonicalSearch (Placed)

variable {problem : DsaProblem} {options : Options}

/-! ### The shapes -/

/-- The pools that pass the checks. -/
theorem shape_of_limitation {pool : Pool} (hpool : pool ∈ problem.pools)
    (hnone : poolShapeLimitation problem.search pool = none) :
    unitOf problem.search pool.id = none ∧
        PoolCanonicalSearch.poolNodes problem.search pool.id = [] ∨
      ∃ unit capacity, unitOf problem.search pool.id = some unit ∧
        UnitPool problem pool unit capacity ∧ capacity.toNat / unit.toNat = 2 := by
  unfold poolShapeLimitation at hnone
  cases hcapacity : pool.capacity with
  | none =>
      rw [hcapacity] at hnone
      cases hnone
  | some capacity =>
      rw [hcapacity] at hnone
      dsimp only at hnone
      split_ifs at hnone with hreserved
      cases hunit : unitOf problem.search pool.id with
      | none =>
          refine .inl ⟨rfl, ?_⟩
          unfold unitOf at hunit
          rw [Option.map_eq_none_iff, List.head?_eq_none_iff] at hunit
          refine List.eq_nil_iff_forall_not_mem.mpr fun n hn => ?_
          exact List.not_mem_nil (hunit ▸ mem_nodes.mpr hn)
      | some unit =>
          rw [hunit] at hnone
          dsimp only at hnone
          split_ifs at hnone with hsizes hdivides
          rw [Bool.or_eq_true, not_or, beq_iff_eq, bne_iff_ne, not_not] at hdivides
          refine .inr ⟨unit, capacity, rfl, ?_, ?_⟩
          · have hall : ∀ n ∈ PoolCanonicalSearch.poolNodes problem.search pool.id,
                (problem.search.nodeAt n).size = unit ∧
                  unit % (problem.search.nodeAt n).alignment = 0 := by
              intro n hn
              rw [Bool.not_eq_true, List.any_eq_false] at hsizes
              have := hsizes n (mem_nodes.mpr hn)
              simpa using this
            refine ⟨hpool, hcapacity, not_not.mp hreserved, hdivides.1, fun n hn => (hall n hn).1,
              fun n hn => ?_⟩
            have hmod := congrArg UInt64.toNat (hall n hn).2
            rw [UInt64.toNat_mod] at hmod
            exact Nat.dvd_of_mod_eq_zero hmod
          · rw [← UInt64.toNat_div, hdivides.2]
            rfl

theorem costFirst_of_shape (hnone : shapeLimitation problem problem.search = none) :
    (∀ pool ∈ problem.pools, poolShapeLimitation problem.search pool = none) ∧
      CostFirst problem.objective.terms := by
  unfold shapeLimitation at hnone
  cases hfind : problem.pools.findSome? (poolShapeLimitation problem.search) with
  | some limitation =>
      rw [hfind] at hnone
      cases hnone
  | none =>
      rw [hfind] at hnone
      refine ⟨List.findSome?_eq_none_iff.mp hfind, ?_⟩
      obtain ⟨hreuse, hpeak, -⟩ :=
        CanonicalBranchAndBoundSolver.noteTerms_spec problem.objective.terms
      refine List.pairwise_iff_getElem.mpr fun i j hi hj hij hmetric hcost => ?_
      obtain ⟨p, hp, hle⟩ := hpeak i _ (List.getElem?_eq_getElem hi) hmetric
      obtain ⟨r, hr, hle'⟩ := hreuse j (by rw [List.getElem?_eq_getElem hj, hcost])
      unfold objectiveIndices at hnone
      rw [hp, hr] at hnone
      dsimp only at hnone
      rw [if_pos (by omega)] at hnone
      cases hnone

/-! ### The loop over the pools -/

/-- What holds of the pools done. -/
structure Joined (problem : DsaProblem) (options : Options) (done : List Pool)
    (state : SolveState) : Prop where
  placed : ∀ pool ∈ done, Placed problem pool.id (positions state.offsets) ∧
    PoolCanonicalSearch.Aligned problem pool.id (positions state.offsets)
  cheapest : state.anyTimeout = false → .reuseCost ∈ problem.objective.terms →
    ∀ pool ∈ done, CheapestPlaced problem pool.id (positions state.offsets)
  late : state.anyTimeout = true → options.maxSearchNodes ≠ 0

/-- The ends of one iteration. -/
inductive PoolEnd (problem : DsaProblem) (options : Options) (done : List Pool) (pool : Pool) :
    Except DsaResult SolveState → Prop
  | joined (next : SolveState) (joined : Joined problem options (done ++ [pool]) next) :
      PoolEnd problem options done pool (.ok next)
  | infeasible (result : DsaResult) (status : result.status = .infeasibleProven)
      (none : ∀ q, ¬ Placed problem pool.id q) : PoolEnd problem options done pool (.error result)
  | cut (result : DsaResult) (status : result.status = .timeout)
      (limited : options.maxSearchNodes ≠ 0) : PoolEnd problem options done pool (.error result)

/-- The offsets of a pool, merged into those of the pools done. -/
theorem Joined.merge {done : List Pool} {state next : SolveState} {pool : Pool}
    {own : List UInt64} (hjoined : Joined problem options done state)
    (hnew : ∀ other ∈ done, other.id ≠ pool.id)
    (hoffsets : next.offsets = mergePoolOffsets problem.search pool.id state.offsets own)
    (hplaced : Placed problem pool.id (positions own))
    (haligned : PoolCanonicalSearch.Aligned problem pool.id (positions own))
    (hcheapest : next.anyTimeout = false → state.anyTimeout = false ∧
      (.reuseCost ∈ problem.objective.terms → CheapestPlaced problem pool.id (positions own)))
    (hlate : next.anyTimeout = true → options.maxSearchNodes ≠ 0) :
    Joined problem options (done ++ [pool]) next := by
  have hself : ∀ n ∈ PoolCanonicalSearch.poolNodes problem.search pool.id,
      positions next.offsets n = positions own n :=
    fun n hn => by rw [hoffsets, positions_merge hn, if_pos rfl]
  have hothers : ∀ other ∈ done, ∀ n ∈ PoolCanonicalSearch.poolNodes problem.search other.id,
      positions next.offsets n = positions state.offsets n :=
    fun other hother n hn => by rw [hoffsets, positions_merge hn, if_neg (hnew other hother)]
  refine ⟨fun other hother => ?_, fun hintime hreuse other hother => ?_, hlate⟩
  · rcases List.mem_append.mp hother with hother | hother
    · obtain ⟨hold, hold'⟩ := hjoined.placed other hother
      exact ⟨hold.congr (hothers other hother), hold'.congr (hothers other hother)⟩
    · rw [List.mem_singleton.mp hother]
      exact ⟨hplaced.congr hself, haligned.congr hself⟩
  · obtain ⟨hold, hown⟩ := hcheapest hintime
    rcases List.mem_append.mp hother with hother | hother
    · exact (hjoined.cheapest hold hreuse other hother).congr (hothers other hother)
    · rw [List.mem_singleton.mp hother]
      exact (hown hreuse).congr hself

theorem joinPool_end (h : SearchOk problem)
    (hshape : shapeLimitation problem problem.search = none) {done : List Pool} {pool : Pool}
    (hpool : pool ∈ problem.pools) (hnew : ∀ other ∈ done, other.id ≠ pool.id) {state : SolveState}
    (hjoined : Joined problem options done state) :
    PoolEnd problem options done pool (joinPool problem problem.search options state pool) := by
  obtain ⟨hshapes, horder⟩ := costFirst_of_shape hshape
  unfold joinPool
  rcases shape_of_limitation hpool (hshapes pool hpool) with
    ⟨hunit, hnone⟩ | ⟨unit, capacity, hunit, hunits, htwo⟩
  · rw [hunit]
    have hcheapest := cheapestPlaced_of_empty hnone (positions state.offsets)
    refine .joined _ ⟨fun other hother => ?_, fun hintime hreuse other hother => ?_, hjoined.late⟩
    · rcases List.mem_append.mp hother with hother | hother
      · exact hjoined.placed other hother
      · rw [List.mem_singleton.mp hother]
        exact ⟨hcheapest.placed, hcheapest.aligned⟩
    · rcases List.mem_append.mp hother with hother | hother
      · exact hjoined.cheapest hintime hreuse other hother
      · rw [List.mem_singleton.mp hother]
        exact hcheapest
  · rw [hunit]
    have hanswer := @PoolTwoSearch.run_end problem pool unit capacity options.maxSearchNodes h hunits
      htwo horder
    dsimp only
    generalize PoolTwoSearch.run problem.search pool.id problem unit options.maxSearchNodes =
      result at hanswer ⊢
    cases hanswer with
    | cheapest status placed aligned cheapest =>
        rw [status, if_neg (by simp)]
        refine .joined _ (hjoined.merge hnew rfl placed aligned (fun hintime => ⟨?_, cheapest⟩) ?_)
        · exact (Bool.or_eq_false_iff.mp hintime).1
        · exact fun hlate => hjoined.late (by simpa using hlate)
    | cut status limited placed =>
        rw [status]
        rcases placed with hnone | ⟨placed, aligned⟩
        · rw [hnone, if_pos (by decide)]
          exact .cut _ rfl limited
        · by_cases hcolors : result.colors = []
          · rw [hcolors, if_pos (by decide)]
            exact .cut _ rfl limited
          · rw [if_neg (by simp [hcolors])]
            refine .joined _ (hjoined.merge hnew rfl placed aligned (fun hintime => ?_)
              fun _ => limited)
            simp [hcolors] at hintime
    | infeasible status none =>
        rw [status, if_pos (by simp)]
        exact .infeasible _ rfl none

/-- The outcomes of the loop. -/
inductive LoopEnd (problem : DsaProblem) (options : Options) : Except DsaResult SolveState → Prop
  | joined (state : SolveState) (joined : Joined problem options problem.pools state) :
      LoopEnd problem options (.ok state)
  | infeasible (result : DsaResult) (pool : Pool) (mem : pool ∈ problem.pools)
      (status : result.status = .infeasibleProven) (none : ∀ q, ¬ Placed problem pool.id q) :
      LoopEnd problem options (.error result)
  | cut (result : DsaResult) (status : result.status = .timeout)
      (limited : options.maxSearchNodes ≠ 0) : LoopEnd problem options (.error result)

theorem joinPools_end (h : SearchOk problem)
    (hshape : shapeLimitation problem problem.search = none) :
    LoopEnd problem options (problem.pools.foldlM (joinPool problem problem.search options)
      { offsets := List.replicate problem.search.count 0 }) := by
  have hpoolsNodup := h.prepared.wellFormed.poolIds
  have hstart : Joined problem options [] { offsets := List.replicate problem.search.count 0 } :=
    ⟨fun _ hmem => (List.not_mem_nil hmem).elim, fun _ _ _ hmem => (List.not_mem_nil hmem).elim,
      fun hlate => Bool.noConfusion hlate⟩
  have hmem : ∀ {done pool rest}, problem.pools = done ++ pool :: rest → pool ∈ problem.pools ∧
      ∀ other ∈ done, other.id ≠ pool.id := by
    intro done pool rest hpools
    refine ⟨hpools ▸ List.mem_append_right _ List.mem_cons_self, fun other hother => ?_⟩
    rw [hpools, List.map_append, List.nodup_append] at hpoolsNodup
    exact hpoolsNodup.2.2 _ (List.mem_map_of_mem hother) _ (List.mem_map_of_mem List.mem_cons_self)
  have hstep : ∀ done pool rest state next, problem.pools = done ++ pool :: rest →
      Joined problem options done state →
        joinPool problem problem.search options state pool = .ok next →
          Joined problem options (done ++ [pool]) next := by
    intro done pool rest state next hpools hjoined hnext
    have hend := joinPool_end h hshape (hmem hpools).1 (hmem hpools).2 hjoined
    rw [hnext] at hend
    cases hend with
    | joined _ joined => exact joined
  cases hloop : problem.pools.foldlM (joinPool problem problem.search options)
      { offsets := List.replicate problem.search.count 0 } with
  | ok state =>
      exact .joined state
        (Theory.foldlM_induction (Joined problem options) hstart hstep hloop)
  | error result =>
      obtain ⟨done, pool, rest, state, hpools, hjoined, herror⟩ :=
        Theory.foldlM_error (Joined problem options) hstart hstep hloop
      have hend := joinPool_end h hshape (hmem hpools).1 (hmem hpools).2 hjoined
      rw [herror] at hend
      cases hend with
      | infeasible _ status none => exact .infeasible _ pool (hmem hpools).1 status none
      | cut _ status limited => exact .cut _ status limited

/-! ### The solver -/

/-- The solver after its checks. -/
theorem solvePrepared_end (h : SearchOk problem)
    (hshape : shapeLimitation problem problem.search = none)
    (hreuse : .reuseCost ∈ problem.objective.terms) :
    ProvesLeastCost problem (solvePrepared options problem problem.search) ∧
    ((solvePrepared options problem problem.search).status ≠ .invalidProblem ∧
      (solvePrepared options problem problem.search).status ≠ .bestEffortNoFit) ∧
    (options.maxSearchNodes = 0 →
      (solvePrepared options problem problem.search).status = .feasible ∨
        (solvePrepared options problem problem.search).status = .infeasibleProven) := by
  have hend := @joinPools_end problem options h hshape
  unfold solvePrepared
  generalize problem.pools.foldlM (joinPool problem problem.search options)
    { offsets := List.replicate problem.search.count 0 } = loop at hend ⊢
  cases hend with
  | joined state joined =>
      have hvalid : validateSolution problem
          (expandReuseNodeSolution problem.search state.offsets) = [] :=
        (validateSolution_expand_iff h _).mpr ((valid_iff_pools h).mpr joined.placed)
      have hfinish : (finishSolve problem problem.search state).status =
            (if state.anyTimeout then .timeout else .feasible) ∧
          (finishSolve problem problem.search state).solution =
            some (expandReuseNodeSolution problem.search state.offsets) ∧
          (finishSolve problem problem.search state).objective =
            evaluateObjective problem (expandReuseNodeSolution problem.search state.offsets) := by
        unfold finishSolve buildValidatedReuseResult
        dsimp only
        rw [if_neg (not_not.mpr hvalid)]
        exact ⟨rfl, rfl, rfl⟩
      obtain ⟨hstatus, hsolution, hobjective⟩ := hfinish
      dsimp only
      cases htimeout : state.anyTimeout with
      | true =>
          rw [htimeout, if_pos rfl] at hstatus
          refine ⟨.of_status ?_ ?_, ?_, fun hzero => absurd hzero (joined.late htimeout)⟩
          · rw [hstatus]
            decide
          · rw [hstatus]
            decide
          · rw [hstatus]
            decide
      | false =>
          rw [htimeout, if_neg Bool.false_ne_true] at hstatus
          refine ⟨.of_cheapest h (joined.cheapest htimeout hreuse) ?_ hsolution hobjective, ?_,
            fun _ => .inl hstatus⟩
          · rw [hstatus]
            decide
          · rw [hstatus]
            decide
  | infeasible result pool mem status none =>
      dsimp only
      refine ⟨⟨fun heq => absurd (status.symm.trans heq) (by decide), fun _ =>
        no_valid_of_pool h mem fun q hplaced => absurd hplaced (none q)⟩, ?_, fun _ => .inr status⟩
      rw [status]
      decide
  | cut result status limited =>
      dsimp only
      refine ⟨.of_status ?_ ?_, ?_, fun hzero => absurd hzero limited⟩
      · rw [status]
        decide
      · rw [status]
        decide
      · rw [status]
        decide

/-- The checks of the solver. -/
theorem solve_cases (problem : DsaProblem) (options : Options) :
    ((checkSolverCompatibility problem capacityTwoCapabilities).compatible = true ∧
        problem.search.placement.errors = [] ∧ shapeLimitation problem problem.search = none) ∧
      solve options problem = solvePrepared options problem problem.search ∨
    ¬((checkSolverCompatibility problem capacityTwoCapabilities).compatible = true ∧
        problem.search.placement.errors = [] ∧ shapeLimitation problem problem.search = none) ∧
      Refused problem (solve options problem) := by
  unfold solve
  cases hcompatible : (checkSolverCompatibility problem capacityTwoCapabilities).compatible with
  | false => exact .inr ⟨fun hall => absurd hall.1 (by decide), refused_rejectUnsupported ..⟩
  | true =>
      rw [Bool.not_true, if_neg Bool.false_ne_true]
      dsimp only
      rw [buildSearch_eq]
      by_cases herrors : problem.search.placement.errors = []
      · rw [if_neg (not_not.mpr herrors)]
        cases hshape : shapeLimitation problem problem.search with
        | none => exact .inl ⟨⟨rfl, herrors, rfl⟩, rfl⟩
        | some limitation => exact .inr ⟨fun hall => absurd hall.2.2 (by simp), .unsupported rfl rfl⟩
      · rw [if_pos herrors]
        exact .inr ⟨fun hall => herrors hall.2.1, .invalid rfl rfl (.inr herrors)⟩

theorem solvePrepared_carries (problem : DsaProblem) (search : ReusePenaltySearchSpace)
    (options : Options) : CarriesValid problem (solvePrepared options problem search) := by
  unfold solvePrepared
  cases hloop : problem.pools.foldlM (joinPool problem search options)
      { offsets := List.replicate search.count 0 } with
  | ok state => exact (carriesValid_buildValidated search state.offsets _).congr rfl rfl
  | error result =>
      -- a pool without colours carries no placement
      refine .of_none ?_
      obtain ⟨-, pool, -, state, -, -, herror⟩ := Theory.foldlM_error (fun _ _ => True) trivial
        (fun _ _ _ _ _ _ _ _ => trivial) hloop
      unfold joinPool at herror
      cases hunit : unitOf search pool.id with
      | none =>
          rw [hunit] at herror
          cases herror
      | some unit =>
          rw [hunit] at herror
          dsimp only at herror
          split_ifs at herror <;> exact (congrArg DsaResult.solution (Except.error.inj herror)).symm

/-- **The capacity-two solver is exact**: its proved answers have the least reuse cost, its
placements are valid, and without a node limit it answers. -/
theorem capacityTwo_leastCost (hreuse : .reuseCost ∈ problem.objective.terms) (options : Options) :
    ProvesLeastCost problem (solve options problem) ∧
    ((solve options problem).status = .invalidProblem →
      validateProblem problem ≠ [] ∨ problem.search.placement.errors ≠ []) ∧
    ((checkSolverCompatibility problem capacityTwoCapabilities).compatible = true →
      problem.search.placement.errors = [] → shapeLimitation problem problem.search = none →
      options.maxSearchNodes = 0 → (solve options problem).status = .feasible ∨
        (solve options problem).status = .infeasibleProven) := by
  rcases solve_cases problem options with ⟨⟨hcompatible, herrors, hshape⟩, heq⟩ | ⟨hnot, hrefused⟩
  · have h := searchOk_of_compatible hcompatible rfl rfl herrors
    obtain ⟨hproves, hvalid, hanswers⟩ := @solvePrepared_end problem options h hshape hreuse
    rw [heq]
    exact ⟨hproves, fun hinvalid => absurd hinvalid hvalid.1, fun _ _ _ => hanswers⟩
  · exact ⟨hrefused.proves, hrefused.reason, fun hcompatible herrors hshape =>
      absurd ⟨hcompatible, herrors, hshape⟩ hnot⟩

/-- The pair has two addresses. -/
theorem capacityTwo_leastCost_pairProblem :
    ∃ solution, (solve {} pairProblem).solution = some solution ∧
      validateSolution pairProblem solution = [] ∧
        (solve {} pairProblem).objective = evaluateObjective pairProblem solution ∧
          ∀ other, validateSolution pairProblem other = [] →
            (evaluateObjective pairProblem solution).reuseCost ≤
              (evaluateObjective pairProblem other).reuseCost :=
  (@capacityTwo_leastCost pairProblem (by decide) {}).1.1 (by decide +kernel)

end CapacityTwoExactSolver

end Dsa
