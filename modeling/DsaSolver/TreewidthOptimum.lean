import DsaSolver.ImplicitHittingSet
import DsaSolver.TreewidthElimination
import DsaSolver.TreewidthPotentials

/-! # The answers of the treewidth solver

`TreewidthPartitionDpSolver::Solve`: every pool is eliminated and reconstructed, so the offsets
are a cheapest placement of the pool (`solvePool_end`), and the answer proves the least reuse
cost (`treewidth_leastCost`). -/

namespace Dsa

namespace TreewidthPartitionDpSolver

open Theory (Sat Admitted EliminationRun rebuild)

def treewidthCapabilities : SolverCapabilities where
  multiInterval := true
  reuseCost := true
  colocations := true
  separations := true
  temporalExclusions := true
  multiPool := true
  lexicographicObjective := true
  capacityObjective := true
  peakObjective := false

def objectiveLimitation (problem : DsaProblem) : Option String :=
  match (objectiveIndices problem).reuse, (objectiveIndices problem).firstPeak with
  | none, _ => some "treewidth_partition_dp requires reuse_cost in the objective"
  | some reuse, some peak =>
      if peak < reuse then some "treewidth_partition_dp requires reuse_cost before peak metrics"
      else none
  | some _, none => none

/-- What the loop over the pools has gathered. -/
structure SolveState where
  offsets : List UInt64
  maxWidth : UInt64 := 0
  states : UInt64 := 0
  transitions : UInt64 := 0
  expectedReuseCost : UInt64 := 0

/-- One iteration of the loop over the pools; a pool without an answer ends it. -/
def joinPool (search : ReusePenaltySearchSpace) (options : Options) (state : SolveState)
    (pool : Pool) : Except DsaResult SolveState :=
  let poolResult := solvePool search pool options
  if poolResult.status ≠ .feasible then
    .error
      { status := poolResult.status
        diagnostics := if poolResult.diagnostic = "" then [] else [poolResult.diagnostic] }
  else
    .ok
      { offsets := mergePoolOffsets search pool.id state.offsets poolResult.offsets
        maxWidth := max state.maxWidth (UInt64.ofNat poolResult.width)
        states := saturatingAdd state.states poolResult.states
        transitions := saturatingAdd state.transitions poolResult.transitions
        expectedReuseCost := saturatingAdd state.expectedReuseCost poolResult.reuseCost }

/-- The solver after its loop over the pools. -/
def finishSolve (problem : DsaProblem) (search : ReusePenaltySearchSpace) (state : SolveState) :
    DsaResult :=
  let result := buildValidatedReuseResult problem search state.offsets .feasible
  if result.status = .feasible ∧ result.objective.reuseCost ≠ state.expectedReuseCost then
    { result with
      status := .invalidProblem
      solution := none
      diagnostics := result.diagnostics ++
        ["treewidth_partition_dp objective reconstruction disagrees with the dynamic program"] }
  else
    { result with
      solverMetrics := Std.TreeMap.ofList
        [("min_fill_width", state.maxWidth), ("dp_states", state.states),
          ("dp_transitions", state.transitions), ("partition_state_dp", 1),
          ("optimal_reuse_cost_proven", 1)]
      diagnostics := result.diagnostics ++
        ["treewidth_partition_dp proved minimum reuse cost by exact " ++
          "min-sum variable elimination over color-symmetry partition states; " ++
          "peak tie-breaking is not optimized"] }

/-- The solver after its checks. -/
def solvePrepared (options : Options) (problem : DsaProblem) (search : ReusePenaltySearchSpace) :
    DsaResult :=
  match problem.pools.foldlM (joinPool search options)
      { offsets := List.replicate search.count 0 } with
  | .error result => result
  | .ok state => finishSolve problem search state

/-- `TreewidthPartitionDpSolver::Solve`. -/
def solve (options : Options) (problem : DsaProblem) : DsaResult :=
  if !(checkSolverCompatibility problem treewidthCapabilities).compatible then
    rejectUnsupported problem "treewidth_partition_dp" treewidthCapabilities
  else
    match objectiveLimitation problem with
    | some limitation => { status := .unsupported, diagnostics := [limitation] }
    | none =>
        let search := buildReusePenaltySearchSpace problem
        if search.placement.errors ≠ [] then
          { status := .invalidProblem, diagnostics := search.placement.errors }
        else solvePrepared options problem search

variable {problem : DsaProblem} {pool : Pool} {unit colors : UInt64} {options : Options}

/-! ### The shape of a pool -/

/-- The outcomes of the shape checks. -/
inductive ShapeEnd (problem : DsaProblem) (pool : Pool) :
    Except (SolveStatus × String) (UInt64 × UInt64) → Prop
  | units (unit colors capacity : UInt64) (units : UnitPool problem pool unit capacity)
      (colors_eq : colors.toNat = min (capacity.toNat / unit.toNat)
        (PoolCanonicalSearch.poolNodes problem.search pool.id).length)
      (pos : 0 < colors.toNat) (max : colors.toNat ≤ 4294967295) :
      ShapeEnd problem pool (.ok (unit, colors))
  | empty (diagnostic : String)
      (none : PoolCanonicalSearch.poolNodes problem.search pool.id = []) :
      ShapeEnd problem pool (.error (.feasible, diagnostic))
  | full (diagnostic : String)
      (none : ∀ q, ¬ PoolCanonicalSearch.Placed problem pool.id q) :
      ShapeEnd problem pool (.error (.infeasibleProven, diagnostic))
  | refused (diagnostic : String) : ShapeEnd problem pool (.error (.unsupported, diagnostic))

theorem poolShape_end (h : SearchOk problem) (hpool : pool ∈ problem.pools)
    (hsmall : problem.search.count ≤ 4294967295) :
    ShapeEnd problem pool (poolShape problem.search pool) := by
  have hnodes := length_poolNodes problem.search pool.id
  have hmem : ∀ {n}, n ∈ poolNodes problem.search pool.id ↔
      n ∈ PoolCanonicalSearch.poolNodes problem.search pool.id := mem_poolNodes_iff
  have hlength : (poolNodes problem.search pool.id).length ≤ problem.search.count := by
    unfold poolNodes
    exact (List.length_filter_le _ _).trans_eq List.length_range
  unfold poolShape
  cases hcapacity : pool.capacity with
  | none => exact .refused _
  | some capacity =>
      dsimp only
      by_cases hreserved : pool.reservedRanges ≠ []
      · rw [if_pos hreserved]
        exact .refused _
      · rw [if_neg hreserved]
        cases hlist : poolNodes problem.search pool.id with
        | nil =>
            rw [hlist] at hnodes
            exact .empty _ (List.length_eq_zero_iff.mp hnodes.symm)
        | cons front rest =>
            rw [hlist] at hnodes hlength
            dsimp only
            by_cases hunits : ((front :: rest).any fun node =>
                (problem.search.nodeAt node).size != (problem.search.nodeAt front).size ||
                  (problem.search.nodeAt front).size %
                    (problem.search.nodeAt node).alignment != 0) = true
            · rw [if_pos hunits]
              exact .refused _
            rw [if_neg hunits]
            generalize hunit : (problem.search.nodeAt front).size = unit at hunits ⊢
            by_cases hdivides : (unit == 0 || capacity % unit != 0) = true
            · rw [if_pos hdivides]
              exact .refused _
            rw [if_neg hdivides]
            have hunitPool : UnitPool problem pool unit capacity := by
              rw [Bool.not_eq_true, List.any_eq_false] at hunits
              have hall : ∀ n ∈ PoolCanonicalSearch.poolNodes problem.search pool.id,
                  (problem.search.nodeAt n).size = unit ∧
                    unit % (problem.search.nodeAt n).alignment = 0 := by
                intro n hn
                have := hunits n (hlist ▸ hmem.mpr hn)
                simpa using this
              refine ⟨hpool, hcapacity, not_not.mp hreserved, ?_, fun n hn => (hall n hn).1,
                fun n hn => ?_⟩
              · rintro rfl
                simp at hdivides
              · have hmod := congrArg UInt64.toNat (hall n hn).2
                rw [UInt64.toNat_mod] at hmod
                exact Nat.dvd_of_mod_eq_zero hmod
            have hcolors : (min (capacity / unit) (UInt64.ofNat (front :: rest).length)).toNat =
                min (capacity.toNat / unit.toNat)
                  (PoolCanonicalSearch.poolNodes problem.search pool.id).length := by
              rw [Theory.toNat_min, UInt64.toNat_div, UInt64.toNat_ofNat', hnodes]
              rw [Nat.mod_eq_of_lt (by omega)]
            have hmax : (min (capacity / unit) (UInt64.ofNat (front :: rest).length)).toNat ≤
                4294967295 := by
              rw [hcolors, ← hnodes]
              omega
            split_ifs with hnone
            · refine .full _ fun q hplaced => ?_
              have hfront : front ∈ PoolCanonicalSearch.poolNodes problem.search pool.id :=
                hmem.mp (hlist ▸ List.mem_cons_self)
              have hroom := (hunitPool.nodeRoom_iff h hfront).mp (hplaced.room front hfront)
              have hone : 0 < capacity.toNat / unit.toNat :=
                Nat.div_pos (by omega) hunitPool.unit_pos
              rw [Bool.or_eq_true, beq_iff_eq, decide_eq_true_iff, gt_iff_lt,
                UInt64.lt_iff_toNat_lt] at hnone
              rcases hnone with hnone | hnone
              · have hzero := congrArg UInt64.toNat hnone
                rw [hcolors, ← hnodes, List.length_cons, UInt64.toNat_zero] at hzero
                omega
              · exact absurd hmax (Nat.not_le.mpr hnone)
            · refine .units _ _ _ hunitPool hcolors ?_ hmax
              rw [Bool.or_eq_true, not_or, beq_iff_eq] at hnone
              exact Nat.pos_of_ne_zero (toNat_ne_zero hnone.1)

/-! ### The terminal factors -/

/-- The loop over terminal factors that hold one entry each adds their costs. -/
theorem terminalCost_end {factors : List Factor} (hscopes : ScopesIn factors [])
    (hconstants : ConstantsOk factors) (f : ℕ → UInt32) (cost : UInt64) :
    (∃ total, terminalCost factors cost = .ok total ∧
      ((⟨total⟩ : Sat) : WithTop Sat) = ((⟨cost⟩ : Sat) : WithTop Sat) + totalAt factors f) ∨
    terminalCost factors cost = .error (.infeasibleProven, "") ∧ totalAt factors f = ⊤ := by
  induction factors generalizing cost with
  | nil => exact .inl ⟨cost, rfl, (add_zero _).symm⟩
  | cons factor rest ih =>
      have hscope : factor.scope = [] :=
        List.eq_nil_iff_forall_not_mem.mpr fun u hu =>
          List.not_mem_nil (hscopes factor List.mem_cons_self u hu)
      obtain ⟨value, hvalue⟩ := hconstants factor List.mem_cons_self hscope
      have htotal : totalAt (factor :: rest) f = factor.costAt f + totalAt rest f := List.sum_cons
      have hcost : factor.costAt f = value.toTop := by
        have hget : factor.values[([] : List UInt32)]? = some value := by
          rw [← Std.TreeMap.mem_toList_iff_getElem?_eq_some, hvalue]
          exact List.mem_cons_self
        have hnil : canonicalPartition [] = [] := rfl
        unfold Factor.costAt
        rw [hscope, List.map_nil, hnil, hget, Option.elim_some]
      unfold terminalCost
      rw [hvalue, htotal, hcost]
      dsimp only
      rw [if_neg (not_not.mpr hscope)]
      cases hfeasible : value.feasible with
      | false =>
          rw [toTop_infeasible hfeasible, Bool.not_false, if_pos rfl]
          exact .inr ⟨rfl, WithTop.top_add _⟩
      | true =>
          rw [toTop_feasible hfeasible, Bool.not_true, if_neg Bool.false_ne_true]
          rcases ih (fun other hother => hscopes other (List.mem_cons_of_mem _ hother))
              (fun other hother => hconstants other (List.mem_cons_of_mem _ hother))
              (saturatingAdd cost value.cost) with ⟨total, hok, heq⟩ | ⟨herror, heq⟩
          · refine .inl ⟨total, hok, ?_⟩
            rw [heq, ← add_assoc]
            rfl
          · refine .inr ⟨herror, ?_⟩
            rw [heq, WithTop.add_top]

/-! ### The answer of a pool -/

/-- A pool of the shape that the solver supports, of small width, with tables of any size. -/
def Solvable (search : ReusePenaltySearchSpace) (pool : Pool) (options : Options) : Prop :=
  (∀ diagnostic, poolShape search pool ≠ .error (.unsupported, diagnostic)) ∧
    (poolFill search pool.id).result.width ≤ options.maxTreewidth.toNat ∧
    options.maxTableEntries = 0

/-- What `SolvePool` answers. -/
inductive PoolAnswer (problem : DsaProblem) (pool : Pool) (options : Options)
    (result : PoolDpResult) : Prop
  | cheapest (status : result.status = .feasible)
      (cheapest : CheapestPlaced problem pool.id (positions result.offsets))
      (cost : (⟨result.reuseCost⟩ : Sat) =
        PoolCanonicalSearch.poolCost problem pool.id (positions result.offsets))
  | infeasible (status : result.status = .infeasibleProven)
      (none : ∀ q, ¬ PoolCanonicalSearch.Placed problem pool.id q)
  | refused (status : result.status = .unsupported)
      (limited : ¬ Solvable problem.search pool options)

theorem labelOf_zeros (count : ℕ) :
    labelOf (List.replicate count 0) = fun _ => 0 := by
  funext n
  unfold labelOf
  rw [List.getD_eq_getElem?_getD, List.getElem?_replicate]
  split_ifs <;> rfl

/-- A colouring by words. -/
def wordColors (problem : DsaProblem) (pool : PoolId) (g : ℕ → ℕ) (n : ℕ) : UInt32 :=
  if n ∈ PoolCanonicalSearch.poolNodes problem.search pool then UInt32.ofNat (g n) else 0

section eliminated

variable {capacity : UInt64} (hcolors : colors.toNat = min (capacity.toNat / unit.toNat)
    (PoolCanonicalSearch.poolNodes problem.search pool.id).length)
  (hpos : 0 < colors.toNat) (hmax : colors.toNat ≤ 4294967295)

include hcolors hpos hmax

/-- The cost of a colouring, in the factors of the pool. -/
theorem totalAt_wordColors (h : SearchOk problem) {g : ℕ → ℕ}
    (hg : Coloring problem pool.id (min (capacity.toNat / unit.toNat)
      (PoolCanonicalSearch.poolNodes problem.search pool.id).length) g) :
    Admitted (palette colors) (wordColors problem pool.id g) ∧
    totalAt (pairFactors (buildPotentials problem.search (poolNodes problem.search pool.id)))
        (wordColors problem pool.id g) =
      ((colorCost problem pool.id g : Sat) : WithTop Sat) := by
  have hvalue : ∀ n ∈ PoolCanonicalSearch.poolNodes problem.search pool.id,
      (wordColors problem pool.id g n).toNat = g n := by
    intro n hn
    have hlt := hg.lt n hn
    unfold wordColors
    rw [if_pos hn, UInt32.toNat_ofNat']
    omega
  refine ⟨fun n => ?_, ?_⟩
  · by_cases hn : n ∈ PoolCanonicalSearch.poolNodes problem.search pool.id
    · show (wordColors problem pool.id g n).toNat < colors.toNat
      rw [hvalue n hn, hcolors]
      exact hg.lt n hn
    · unfold wordColors
      rw [if_neg hn]
      exact hpos
  · rw [totalAt_of_proper h fun n hn m hm hconflict heq => hg.proper n hn m hm hconflict (by
      rw [← hvalue n hn, ← hvalue m hm, heq])]
    refine congrArg WithTop.some ?_
    unfold colorCost
    refine weightOf_congr_mem fun entry _ => ?_
    refine and_congr_right fun hn => and_congr_right fun hm => ?_
    dsimp only
    rw [hvalue _ hn, hvalue _ hm]

/-- The elimination of a pool that has ended, read back. -/
theorem finishPool_end (h : SearchOk problem) (hunits : UnitPool problem pool unit capacity)
    {state : DpState} (hrun : runElimination problem.search (poolNodes problem.search pool.id)
      colors options = (state, none)) (width : ℕ) :
    PoolAnswer problem pool options (finishPool problem.search (poolNodes problem.search pool.id) unit
      colors width state) := by
  have hsoft := softWeights_ne problem
  obtain ⟨hperm, -⟩ := poolFill_run problem pool.id
  rw [buildSearch_eq] at hsoft hperm
  have hpairs := @buildPotentials_pairIn problem.search (poolNodes problem.search pool.id) hsoft
  have horder : ∀ {u}, u ∈ (poolFill problem.search pool.id).result.nodes ↔
      u ∈ poolNodes problem.search pool.id := hperm.mem_iff
  have hscopes : ScopesIn (pairFactors (buildPotentials problem.search
      (poolNodes problem.search pool.id))) (poolFill problem.search pool.id).result.nodes := by
    intro factor hfactor u hu
    obtain ⟨entry, hentry, rfl⟩ := List.mem_map.mp hfactor
    obtain ⟨hfirst, hsecond, -⟩ := hpairs entry.1 (mem_potentials_iff.mpr ⟨entry, hentry, rfl⟩)
    rw [horder]
    rcases List.mem_cons.mp hu with rfl | hu
    · exact hfirst
    · rw [List.mem_singleton.mp hu]
      exact hsecond
  have hconstants : ConstantsOk (pairFactors (buildPotentials problem.search
      (poolNodes problem.search pool.id))) := by
    intro factor hfactor hnil
    obtain ⟨entry, -, rfl⟩ := List.mem_map.mp hfactor
    exact absurd hnil (List.cons_ne_nil _ _)
  obtain ⟨traces, htraces, hnodes, hscopesLast, hconstantsLast, helim, hrebuild⟩ :=
    eliminateVariables_run hpos hmax (poolFill problem.search pool.id).result.nodes hscopes
      hconstants (fun u hu => by
        rw [List.length_replicate]
        exact lt_of_mem_poolNodes (horder.mp hu)) hrun
  rw [List.nil_append] at htraces
  have hzeros : Admitted (palette colors) (labelOf (List.replicate problem.search.count 0)) := by
    rw [labelOf_zeros]
    exact fun _ => hpos
  -- the last cost is a constant below that of every colouring
  have hconstant : ∀ f, totalAt state.factors f =
      totalAt state.factors (labelOf (List.replicate problem.search.count 0)) := fun f =>
    totalAt_congr fun factor hfactor a ha =>
      (List.not_mem_nil (hscopesLast factor hfactor a ha)).elim
  have hbelow : ∀ g, Coloring problem pool.id (min (capacity.toNat / unit.toNat)
      (PoolCanonicalSearch.poolNodes problem.search pool.id).length) g →
        totalAt state.factors (labelOf (List.replicate problem.search.count 0)) ≤
          ((colorCost problem pool.id g : Sat) : WithTop Sat) := by
    intro g hg
    obtain ⟨hadmitted, hcost⟩ := totalAt_wordColors hcolors hpos hmax h hg
    rw [← hcost, ← hconstant (wordColors problem pool.id g)]
    exact helim.le hadmitted
  unfold finishPool
  rcases terminalCost_end hscopesLast hconstantsLast
    (labelOf (List.replicate problem.search.count 0)) 0 with ⟨total, hok, htotal⟩ | ⟨herror, htop⟩
  · rw [hok]
    obtain ⟨final, hfold, hlength, hfinal, hadmitted⟩ := reconstruct_foldlM hrebuild
      (fun trace htrace => helim.choice_mem _ (List.mem_map_of_mem htrace)) (fun trace htrace => by
        rw [List.length_replicate]
        refine lt_of_mem_poolNodes (horder.mp ?_)
        rw [← hnodes]
        exact List.mem_map_of_mem htrace) hzeros
    have hcost : totalAt (pairFactors (buildPotentials problem.search
        (poolNodes problem.search pool.id))) (labelOf final) = ((⟨total⟩ : Sat) : WithTop Sat) := by
      have hzero : (((⟨0⟩ : Sat)) : WithTop Sat) = 0 := rfl
      rw [htotal, hzero, zero_add, hfinal]
      exact helim.rebuild_eq hzeros
    have hproper : ∀ n ∈ PoolCanonicalSearch.poolNodes problem.search pool.id,
        ∀ m ∈ PoolCanonicalSearch.poolNodes problem.search pool.id,
          NodesConflict problem n m → labelOf final n ≠ labelOf final m := by
      intro n hn m hm hconflict hsame
      rw [totalAt_of_improper h hn hm hconflict hsame] at hcost
      exact WithTop.top_ne_coe hcost
    rw [totalAt_of_proper h hproper, WithTop.coe_inj] at hcost
    have hcoloring : Coloring problem pool.id (capacity.toNat / unit.toNat)
        fun n => (labelOf final n).toNat := by
      refine ⟨fun n _ => lt_of_lt_of_le (hadmitted n) ?_, fun n hn m hm hconflict heq => ?_⟩
      · rw [hcolors]
        exact min_le_left _ _
      · exact hproper n hn m hm hconflict (UInt32.toNat_inj.mp heq)
    dsimp only
    rw [htraces, hfold]
    have hoffsets : ∀ n ∈ PoolCanonicalSearch.poolNodes problem.search pool.id,
        positions ((poolNodes problem.search pool.id).foldl
          (fun offsets node => offsets.set node ((final.getD node 0).toUInt64 * unit))
          (List.replicate problem.search.count 0)) n =
            (labelOf final n).toNat * unit.toNat := by
      intro n hn
      have hlt := hcoloring.lt n hn
      have hfits : (labelOf final n).toNat * unit.toNat < 2 ^ 64 :=
        lt_of_le_of_lt ((Nat.mul_le_mul_right _ hlt.le).trans (Nat.div_mul_le_self _ _))
          capacity.toNat_lt
      unfold positions
      rw [getD_foldl_set _ _ _ _ (by
          rw [List.length_replicate]
          exact PoolCanonicalSearch.lt_of_mem_poolNodes hn), if_pos (mem_poolNodes_iff.mpr hn),
        UInt64.toNat_mul, UInt32.toNat_toUInt64]
      exact Nat.mod_eq_of_lt hfits
    obtain ⟨hcheapest, hpoolCost⟩ := hunits.cheapest_of_coloring h hcoloring hoffsets fun g hg => by
      have hle := hbelow g hg
      have hzero : (((⟨0⟩ : Sat)) : WithTop Sat) = 0 := rfl
      rw [hzero, zero_add] at htotal
      rw [← htotal, WithTop.coe_le_coe] at hle
      rwa [hcost]
    exact .cheapest rfl hcheapest (hcost.symm.trans hpoolCost.symm)
  · rw [herror]
    refine .infeasible rfl fun q hplaced => ?_
    obtain ⟨g, hg, -⟩ := hunits.exists_coloring h hplaced
    have hle := hbelow g hg
    rw [htop, top_le_iff] at hle
    exact WithTop.coe_ne_top hle

end eliminated

theorem eliminateVariables_ok (hunlimited : options.maxTableEntries = 0) (order : List ℕ)
    (state : DpState) : (eliminateVariables colors options order state).2 = none := by
  induction order generalizing state with
  | nil => rfl
  | cons node rest ih =>
      unfold eliminateVariables eliminateVariable
      dsimp only
      rw [hunlimited, if_neg (by simp)]
      exact ih _

/-- **The answer of a pool is a cheapest placement**, or there is none. -/
theorem solvePool_end (h : SearchOk problem) (hpool : pool ∈ problem.pools)
    (hsmall : problem.search.count ≤ 4294967295) :
    PoolAnswer problem pool options (solvePool problem.search pool options) := by
  have hshape := poolShape_end h hpool hsmall
  unfold solvePool
  generalize hshapeEq : poolShape problem.search pool = shape at hshape ⊢
  cases hshape with
  | units unit colors capacity units colors_eq pos max =>
      dsimp only
      have hwidth : (minFillOrder problem.search (poolNodes problem.search pool.id)
          (buildPotentials problem.search (poolNodes problem.search pool.id))).width =
            (poolFill problem.search pool.id).result.width := rfl
      split_ifs with hwide hpairs
      · refine .refused rfl fun hsolvable => absurd hsolvable.2.1 ?_
        rw [← hwidth]
        exact Nat.not_le.mpr hwide
      · refine .refused rfl fun hsolvable => ?_
        rw [hsolvable.2.2] at hpairs
        simp at hpairs
      · cases hrun : runElimination problem.search (poolNodes problem.search pool.id) colors
            options with
        | mk state stop =>
            cases stop with
            | none => exact finishPool_end colors_eq pos max h units hrun _
            | some diagnostic =>
                refine .refused rfl fun hsolvable => ?_
                have hnone : (runElimination problem.search (poolNodes problem.search pool.id)
                    colors options).2 = none := eliminateVariables_ok hsolvable.2.2 _ _
                rw [hrun] at hnone
                cases hnone
  | empty diagnostic none =>
      refine .cheapest rfl (cheapestPlaced_of_empty none _) ?_
      rw [poolCost_of_empty none]
      rfl
  | full diagnostic none => exact .infeasible rfl none
  | refused diagnostic => exact .refused rfl fun hsolvable => hsolvable.1 diagnostic hshapeEq

/-! ### The loop over the pools -/

/-- The outcomes of the loop. -/
inductive LoopEnd (problem : DsaProblem) (options : Options) : Except DsaResult SolveState → Prop
  | joined (state : SolveState)
      (joined : CheapestJoined problem problem.pools state.offsets ⟨state.expectedReuseCost⟩) :
      LoopEnd problem options (.ok state)
  | infeasible (result : DsaResult) (pool : Pool) (mem : pool ∈ problem.pools)
      (status : result.status = .infeasibleProven)
      (none : ∀ q, ¬ PoolCanonicalSearch.Placed problem pool.id q) :
      LoopEnd problem options (.error result)
  | refused (result : DsaResult) (pool : Pool) (mem : pool ∈ problem.pools)
      (status : result.status = .unsupported)
      (limited : ¬ Solvable problem.search pool options) : LoopEnd problem options (.error result)

theorem joinPools_end (h : SearchOk problem) (hsmall : problem.search.count ≤ 4294967295) :
    LoopEnd problem options (problem.pools.foldlM (joinPool problem.search options)
      { offsets := List.replicate problem.search.count 0 }) := by
  have hpoolsNodup := h.prepared.wellFormed.poolIds
  have hstart : CheapestJoined problem [] (List.replicate problem.search.count 0) ⟨0⟩ :=
    ⟨fun _ hmem => (List.not_mem_nil hmem).elim, rfl⟩
  have hstep : ∀ done pool rest state next, problem.pools = done ++ pool :: rest →
      CheapestJoined problem done state.offsets ⟨state.expectedReuseCost⟩ →
        joinPool problem.search options state pool = .ok next →
          CheapestJoined problem (done ++ [pool]) next.offsets ⟨next.expectedReuseCost⟩ := by
    intro done pool rest state next hpools hjoined hnext
    have hpool : pool ∈ problem.pools := by
      rw [hpools]
      exact List.mem_append_right _ List.mem_cons_self
    have hnew : ∀ other ∈ done, other.id ≠ pool.id := by
      rw [hpools, List.map_append, List.nodup_append] at hpoolsNodup
      intro other hother
      exact hpoolsNodup.2.2 _ (List.mem_map_of_mem hother) _
        (List.mem_map_of_mem List.mem_cons_self)
    unfold joinPool at hnext
    dsimp only at hnext
    split_ifs at hnext with hstatus
    obtain rfl := Except.ok.inj hnext
    rw [not_not] at hstatus
    cases @solvePool_end problem pool options h hpool hsmall with
    | cheapest _ cheapest cost => exact hjoined.merge hnew cheapest cost
    | infeasible status _ => exact absurd (hstatus.symm.trans status) (by decide)
    | refused status _ => exact absurd (hstatus.symm.trans status) (by decide)
  cases hloop : problem.pools.foldlM (joinPool problem.search options)
      { offsets := List.replicate problem.search.count 0 } with
  | ok state =>
      exact .joined state (Theory.foldlM_induction (fun done (state : SolveState) =>
        CheapestJoined problem done state.offsets ⟨state.expectedReuseCost⟩) hstart hstep hloop)
  | error result =>
      obtain ⟨done, pool, rest, state, hpools, -, herror⟩ := Theory.foldlM_error
        (fun done (state : SolveState) =>
          CheapestJoined problem done state.offsets ⟨state.expectedReuseCost⟩) hstart hstep hloop
      have hpool : pool ∈ problem.pools := by
        rw [hpools]
        exact List.mem_append_right _ List.mem_cons_self
      unfold joinPool at herror
      dsimp only at herror
      by_cases hstatus : (solvePool problem.search pool options).status ≠ .feasible
      · rw [if_pos hstatus] at herror
        obtain rfl := Except.error.inj herror
        cases @solvePool_end problem pool options h hpool hsmall with
        | cheapest status _ _ => exact absurd status hstatus
        | infeasible status none => exact .infeasible _ pool hpool status none
        | refused status limited => exact .refused _ pool hpool status limited
      · rw [if_neg hstatus] at herror
        cases herror

/-! ### The solver -/

theorem count_le_buffers (h : SearchOk problem) :
    problem.search.count ≤ problem.buffers.length := by
  have hsub : Finset.range problem.search.count ⊆
      (Finset.range problem.buffers.length).image (classOf problem) := by
    intro k hk
    obtain ⟨i, hi, hclass, -⟩ := h.representative_mem (Finset.mem_range.mp hk)
    exact Finset.mem_image.mpr ⟨i, Finset.mem_range.mpr hi, hclass⟩
  have hcard := (Finset.card_le_card hsub).trans Finset.card_image_le
  rwa [Finset.card_range, Finset.card_range] at hcard

/-- The solver after its checks. -/
theorem solvePrepared_end (h : SearchOk problem) (hsmall : problem.buffers.length ≤ 4294967295) :
    ProvesLeastCost problem (solvePrepared options problem problem.search) ∧
    ((solvePrepared options problem problem.search).status ≠ .invalidProblem ∧
      (solvePrepared options problem problem.search).status ≠ .bestEffortNoFit) ∧
    ((∀ pool ∈ problem.pools, Solvable problem.search pool options) →
      (solvePrepared options problem problem.search).status = .feasible ∨
        (solvePrepared options problem problem.search).status = .infeasibleProven) := by
  have hend := @joinPools_end problem options h ((count_le_buffers h).trans hsmall)
  unfold solvePrepared
  generalize problem.pools.foldlM (joinPool problem.search options)
    { offsets := List.replicate problem.search.count 0 } = loop at hend ⊢
  cases hend with
  | joined state joined =>
      have hbuilt := buildValidated_of_cheapest h joined.cheapest .feasible
      have hvalid : (nodePacking h).Valid (positions state.offsets) :=
        (validateSolution_expand_iff h _).mp (buildValidated_leastCost h joined.cheapest).1
      -- the cost of the dynamic program is that of the placement
      have hcost := (reuseCost_eq_poolCosts h hvalid).trans joined.cost_eq.symm
      have hfinish : (finishSolve problem problem.search state).status = .feasible ∧
          (finishSolve problem problem.search state).solution =
            some (expandReuseNodeSolution problem.search state.offsets) ∧
          (finishSolve problem problem.search state).objective =
            evaluateObjective problem (expandReuseNodeSolution problem.search state.offsets) := by
        unfold finishSolve
        dsimp only
        rw [hbuilt, if_neg fun hdiffers => hdiffers.2 (congrArg Sat.val hcost)]
        exact ⟨rfl, rfl, rfl⟩
      obtain ⟨hstatus, hsolution, hobjective⟩ := hfinish
      dsimp only
      refine ⟨.of_cheapest h joined.cheapest ?_ hsolution hobjective, ?_, fun _ => .inl hstatus⟩
      · rw [hstatus]
        decide
      · rw [hstatus]
        decide
  | infeasible result pool mem status none =>
      dsimp only
      refine ⟨⟨fun heq => absurd (status.symm.trans heq) (by decide), fun _ =>
        no_valid_of_pool h mem fun q hplaced => absurd hplaced (none q)⟩, ?_, fun _ => .inr status⟩
      rw [status]
      decide
  | refused result pool mem status limited =>
      dsimp only
      refine ⟨.of_unsupported status, ?_, fun hall => absurd (hall pool mem) limited⟩
      rw [status]
      decide

/-- The checks of the solver. -/
theorem solve_cases (problem : DsaProblem) (options : Options) :
    ((checkSolverCompatibility problem treewidthCapabilities).compatible = true ∧
        objectiveLimitation problem = none ∧ problem.search.placement.errors = []) ∧
      solve options problem = solvePrepared options problem problem.search ∨
    ¬((checkSolverCompatibility problem treewidthCapabilities).compatible = true ∧
        objectiveLimitation problem = none ∧ problem.search.placement.errors = []) ∧
      Refused problem (solve options problem) := by
  unfold solve
  cases hcompatible : (checkSolverCompatibility problem treewidthCapabilities).compatible with
  | false => exact .inr ⟨fun hall => absurd hall.1 (by decide), refused_rejectUnsupported ..⟩
  | true =>
      rw [Bool.not_true, if_neg Bool.false_ne_true]
      cases hlimitation : objectiveLimitation problem with
      | some limitation => exact .inr ⟨fun hall => absurd hall.2.1 (by simp), .unsupported rfl rfl⟩
      | none =>
          dsimp only
          rw [buildSearch_eq]
          by_cases herrors : problem.search.placement.errors = []
          · rw [if_neg (not_not.mpr herrors)]
            exact .inl ⟨⟨rfl, rfl, herrors⟩, rfl⟩
          · rw [if_pos herrors]
            exact .inr ⟨fun hall => herrors hall.2.2, .invalid rfl rfl (.inr herrors)⟩

theorem solvePrepared_carries (problem : DsaProblem) (search : ReusePenaltySearchSpace)
    (options : Options) : CarriesValid problem (solvePrepared options problem search) := by
  unfold solvePrepared
  cases hloop : problem.pools.foldlM (joinPool search options)
      { offsets := List.replicate search.count 0 } with
  | ok state =>
      dsimp only
      unfold finishSolve
      dsimp only
      split_ifs
      · exact .of_none rfl
      · exact (carriesValid_buildValidated search state.offsets .feasible).congr rfl rfl
  | error result =>
      -- a pool without an answer carries no placement
      refine .of_none ?_
      obtain ⟨-, pool, -, state, -, -, herror⟩ := Theory.foldlM_error (fun _ _ => True) trivial
        (fun _ _ _ _ _ _ _ _ => trivial) hloop
      unfold joinPool at herror
      dsimp only at herror
      split_ifs at herror <;> exact (congrArg DsaResult.solution (Except.error.inj herror)).symm

/-- **The treewidth solver is exact**: its answers have the least reuse cost, the dynamic program
and the placement never disagree, and it answers where the pools are within its limits. -/
theorem treewidth_leastCost (hsmall : problem.buffers.length ≤ 4294967295) (options : Options) :
    ProvesLeastCost problem (solve options problem) ∧
    ((solve options problem).status = .invalidProblem →
      validateProblem problem ≠ [] ∨ problem.search.placement.errors ≠ []) ∧
    ((checkSolverCompatibility problem treewidthCapabilities).compatible = true →
      objectiveLimitation problem = none → problem.search.placement.errors = [] →
      (∀ pool ∈ problem.pools, Solvable problem.search pool options) →
        (solve options problem).status = .feasible ∨
          (solve options problem).status = .infeasibleProven) := by
  rcases solve_cases problem options with
    ⟨⟨hcompatible, hlimitation, herrors⟩, heq⟩ | ⟨hnot, hrefused⟩
  · have h := searchOk_of_compatible hcompatible rfl rfl herrors
    obtain ⟨hproves, hvalid, hanswers⟩ := @solvePrepared_end problem options h hsmall
    rw [heq]
    exact ⟨hproves, fun hinvalid => absurd hinvalid hvalid.1, fun _ _ _ => hanswers⟩
  · exact ⟨hrefused.proves, hrefused.reason, fun hcompatible hlimitation herrors =>
      absurd ⟨hcompatible, hlimitation, herrors⟩ hnot⟩

/-- The dynamic program places the pair. -/
theorem treewidth_leastCost_pairProblem :
    ∃ solution, (solve {} pairProblem).solution = some solution ∧
      validateSolution pairProblem solution = [] ∧
        (solve {} pairProblem).objective = evaluateObjective pairProblem solution ∧
          ∀ other, validateSolution pairProblem other = [] →
            (evaluateObjective pairProblem solution).reuseCost ≤
              (evaluateObjective pairProblem other).reuseCost :=
  (treewidth_leastCost (by decide) {}).1.1 (by decide +kernel)

end TreewidthPartitionDpSolver

end Dsa
