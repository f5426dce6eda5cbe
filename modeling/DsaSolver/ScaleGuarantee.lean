import DsaSolver.ScalePools
import DsaSolver.WithoutCaps

/-! # What the grid solver guarantees

The pools are independent: the rounded cost of the problem is the sum of those of the pools,
and the offsets of a node are those of its pool (`solvePools_ok`).  `solve_bicriteria` is the
cost guarantee.  The composed placement is structurally valid exactly when no node that overhangs
its track hits another (`solve_structural_iff`). -/

namespace Dsa

namespace ScaleGrid

open Theory (Apart Sat)

variable {problem : DsaProblem} {options : Options}

/-! ### One pool -/

/-- In a pool without soft penalties, whose tracks come from the capacity, the nodes higher than
their tracks are clear of the nodes above them. -/
def TracksClear (problem : DsaProblem) (pool : Pool) : Prop :=
  minimumSoftEndpointSize problem.search pool.id = none → ∀ capacity, pool.capacity = some capacity →
    ∀ poolAlignment,
      mergeAlignments problem.search
          ⟨.unsupported, "scale_separated_grid_dp pool alignment overflows"⟩ 1
          (nodesInPool problem.search pool.id) = .ok poolAlignment →
        ∀ color offset, Tracks problem poolAlignment 0 (harmonicClasses problem.search
            (nodesInPool problem.search pool.id) capacity poolAlignment) color offset →
          OverhangsClear problem (nodesInPool problem.search pool.id) capacity poolAlignment offset

/-- Enough: every node fits its own track, its size is at most the capacity rounded up to the
pool's alignment. -/
def TracksFit (problem : DsaProblem) (pool : Pool) : Prop :=
  minimumSoftEndpointSize problem.search pool.id = none → ∀ capacity, pool.capacity = some capacity →
    ∀ poolAlignment,
      mergeAlignments problem.search
          ⟨.unsupported, "scale_separated_grid_dp pool alignment overflows"⟩ 1
          (nodesInPool problem.search pool.id) = .ok poolAlignment →
        ∀ n ∈ nodesInPool problem.search pool.id, poolAlignment.toNat ∣ nodeSize problem n ∧
          FitsTrack (nodeSize problem n) capacity.toNat poolAlignment.toNat

theorem tracksClear_of_fits (h : SearchOk problem) {pool : Pool} (hfits : TracksFit problem pool) :
    TracksClear problem pool := by
  intro hnone capacity hcapacity poolAlignment hmerged color offset _ n hn hover
  obtain ⟨hne, -, -⟩ := mergeAlignments_ok h (by decide)
    (fun n hn => (mem_nodesInPool.mp hn).1) hmerged
  obtain ⟨hgrid, hfits⟩ := hfits hnone capacity hcapacity poolAlignment hmerged n hn
  exact absurd (trackHolds_of_fits hne hgrid hfits) (not_le.mpr hover)

theorem weightOf_softFree {pool : PoolId}
    (hnone : minimumSoftEndpointSize problem.search pool = none) (q : ℕ → ℕ) :
    (weightOf problem fun pair => (problem.search.nodeAt pair.1).pool = pool ∧
      ¬ NodesApart problem q pair.1 pair.2) = 0 := by
  have hempty := minimumSoftEndpointSize_eq_none hnone
  have hzero : (weightOf problem fun _ => False) = 0 := by
    unfold weightOf Theory.total
    simp
  rw [← hzero]
  exact weightOf_congr_mem fun entry he => iff_of_false (fun hc => hempty entry he hc.1) id

theorem solveSoftFree_ok (h : SearchOk problem) {pool : Pool} {capacity poolAlignment : UInt64}
    {offsets : List UInt64} (hchecked : PoolChecked problem pool capacity poolAlignment)
    (hlength : offsets.length = problem.search.count)
    (hnone : minimumSoftEndpointSize problem.search pool.id = none) {result : PoolScaleResult}
    (hresult : solveSoftFree problem problem.search (nodesInPool problem.search pool.id) capacity
      poolAlignment offsets = .ok result) :
    PoolCost h pool.id result ∧
      (PoolPlaced problem pool.id result.offsets ↔
        ∀ color offset, Tracks problem poolAlignment 0 (harmonicClasses problem.search
            (nodesInPool problem.search pool.id) capacity poolAlignment) color offset →
          OverhangsClear problem (nodesInPool problem.search pool.id) capacity poolAlignment
            offset) := by
  unfold solveSoftFree at hresult
  obtain ⟨_, -, hresult⟩ := Theory.bind_eq_ok.mp hresult
  obtain ⟨band, hband, hresult⟩ := Theory.bind_eq_ok.mp hresult
  obtain rfl := Except.ok.inj hresult
  have hcount : ∀ n ∈ nodesInPool problem.search pool.id, n < problem.search.count :=
    fun n hn => (mem_nodesInPool.mp hn).1
  have hbanded := placeSmallBand_tracks h hchecked.alignmentNe hlength (List.nodup_range.filter _)
    hcount hband
  refine ⟨⟨?_, fun p _ => ?_⟩, ?_⟩
  · rw [weightOf_softFree hnone]
    exact Sat.zero_le _
  · exact Sat.zero_le _
  · refine Iff.trans ?_ ((hbanded.clear_iff fun n hn => h.size_pos (hcount n hn)).trans
      hbanded.overhangsClear_iff)
    exact ⟨fun hplaced => ⟨hplaced.inRange, hplaced.apart⟩, fun hboth =>
      ⟨fun n hn => (hchecked.alignment n hn).trans (hbanded.aligned hchecked.alignmentNe hn),
        hboth.1, hboth.2⟩⟩

theorem solveSoftFree_error {poolNodes : List ℕ} {capacity poolAlignment : UInt64}
    {offsets : List UInt64} {failure : Failure} {none : Prop}
    (hfail : solveSoftFree problem problem.search poolNodes capacity poolAlignment offsets =
      .error failure) : failure.Sound none := by
  unfold solveSoftFree at hfail
  obtain hfail | ⟨_, -, hfail⟩ := Theory.bind_eq_error.mp hfail
  · obtain ⟨-, rfl⟩ := failIf_eq_error.mp hfail
    exact Failure.sound_of_ne (by decide)
  · obtain hfail | ⟨band, -, hfail⟩ := Theory.bind_eq_error.mp hfail
    · exact placeSmallBand_error hfail
    · cases hfail

/-- The checks of a pool before it is placed. -/
theorem poolChecked_of (h : SearchOk problem) {pool : Pool} {capacity poolAlignment : UInt64}
    {failure failure' : Failure} {value : Unit} (hmem : pool ∈ problem.pools)
    (hcapacity : pool.capacity = some capacity)
    (hmerged : mergeAlignments problem.search failure 1 (nodesInPool problem.search pool.id) =
      .ok poolAlignment)
    (hsizes : failIf ((nodesInPool problem.search pool.id).any fun node =>
      (problem.search.nodeAt node).size % poolAlignment != 0) failure' = .ok value) :
    PoolChecked problem pool capacity poolAlignment := by
  obtain ⟨hne, -, hdvd⟩ := mergeAlignments_ok h (by decide)
    (fun n hn => (mem_nodesInPool.mp hn).1) hmerged
  refine ⟨hmem, hcapacity, hne, hdvd, fun n hn => ?_⟩
  rw [failIf_eq_ok, List.any_eq_false] at hsizes
  have hmod := hsizes n hn
  rw [bne_iff_ne, not_not, ← UInt64.toNat_inj, UInt64.toNat_mod, UInt64.toNat_zero] at hmod
  exact Nat.dvd_of_mod_eq_zero hmod

/-- What a placed pool guarantees. -/
structure PoolOk (h : SearchOk problem) (pool : Pool) (result : PoolScaleResult) : Prop where
  unreserved : pool.reservedRanges = []
  cost : PoolCost h pool.id result
  placed : PoolPlaced problem pool.id result.offsets ↔ TracksClear problem pool

theorem solvePool_ok (h : SearchOk problem) (hepsilon : options.epsilonDenominator ≠ 0) {pool : Pool}
    (hmem : pool ∈ problem.pools) {result : PoolScaleResult}
    (hresult : solvePool problem problem.search options pool = .ok result) :
    PoolOk h pool result := by
  have hlength : (List.replicate problem.search.count (0 : UInt64)).length =
      problem.search.count := List.length_replicate
  unfold solvePool at hresult
  dsimp only at hresult
  split at hresult
  · cases hresult
  · next capacity hcapacity =>
      obtain ⟨_, hreserved, hresult⟩ := Theory.bind_eq_ok.mp hresult
      rw [failIf_eq_ok, Bool.not_eq_false', List.isEmpty_iff] at hreserved
      by_cases hempty : (nodesInPool problem.search pool.id).isEmpty = true
      · -- an empty pool has no pair and no node
        rw [if_pos hempty] at hresult
        obtain rfl := Except.ok.inj hresult
        rw [List.isEmpty_iff] at hempty
        have hnone : ∀ n, n ∉ nodesInPool problem.search pool.id := fun n hn => by
          rw [hempty] at hn
          cases hn
        have hzero : ∀ q : ℕ → ℕ, (weightOf problem fun pair =>
            (problem.search.nodeAt pair.1).pool = pool.id ∧
              ¬ NodesApart problem q pair.1 pair.2) = 0 := by
          intro q
          have hzero : (weightOf problem fun _ => False) = 0 := by
            unfold weightOf Theory.total
            simp
          rw [← hzero]
          exact weightOf_congr h fun pair hlt hcount _ => iff_of_false
            (fun hc => hnone pair.1 (mem_nodesInPool.mpr ⟨hlt.trans hcount, hc.1⟩)) id
        refine ⟨hreserved, ⟨?_, fun p _ => Sat.zero_le _⟩, iff_of_true
          ⟨fun n hn => absurd hn (hnone n), fun n hn => absurd hn (hnone n),
            fun n hn => absurd hn (hnone n)⟩
          fun _ _ _ _ _ _ _ _ n hn => absurd hn (hnone n)⟩
        rw [hzero]
        exact Sat.zero_le _
      · rw [if_neg hempty] at hresult
        obtain ⟨poolAlignment, hmerged, hresult⟩ := Theory.bind_eq_ok.mp hresult
        obtain ⟨_, hsizes, hresult⟩ := Theory.bind_eq_ok.mp hresult
        have hchecked := poolChecked_of h hmem hcapacity hmerged hsizes
        split at hresult
        · next hnone =>
            obtain ⟨hcost, hplaced⟩ := solveSoftFree_ok h hchecked hlength hnone hresult
            refine ⟨hreserved, hcost, hplaced.trans ⟨fun hclear _ other hother merged hmerged' => ?_,
              fun hclear => hclear hnone capacity hcapacity poolAlignment hmerged⟩⟩
            obtain rfl := Option.some.inj (hcapacity.symm.trans hother)
            obtain rfl := Except.ok.inj (hmerged.symm.trans hmerged')
            exact hclear
        · next minimum hminimum =>
            obtain ⟨hcost, hplaced⟩ :=
              solveSoft_ok h hepsilon hchecked hlength hminimum hresult
            refine ⟨hreserved, hcost, iff_of_true hplaced fun hnone => ?_⟩
            rw [hminimum] at hnone
            cases hnone

theorem solvePool_error (h : SearchOk problem) (hepsilon : options.epsilonDenominator ≠ 0)
    {pool : Pool} (hmem : pool ∈ problem.pools) {failure : Failure}
    (hfail : solvePool problem problem.search options pool = .error failure) :
    failure.Sound (∀ p, ¬ (nodePacking h).Valid p) := by
  unfold solvePool at hfail
  dsimp only at hfail
  split at hfail
  · obtain rfl := Except.error.inj hfail
    exact Failure.sound_of_ne (by decide)
  · next capacity hcapacity =>
      obtain hfail | ⟨_, -, hfail⟩ := Theory.bind_eq_error.mp hfail
      · obtain ⟨-, rfl⟩ := failIf_eq_error.mp hfail
        exact Failure.sound_of_ne (by decide)
      by_cases hempty : (nodesInPool problem.search pool.id).isEmpty = true
      · rw [if_pos hempty] at hfail
        cases hfail
      rw [if_neg hempty] at hfail
      obtain hfail | ⟨poolAlignment, hmerged, hfail⟩ := Theory.bind_eq_error.mp hfail
      · obtain rfl := mergeAlignments_error hfail
        exact Failure.sound_of_ne (by decide)
      obtain hfail | ⟨_, hsizes, hfail⟩ := Theory.bind_eq_error.mp hfail
      · obtain ⟨-, rfl⟩ := failIf_eq_error.mp hfail
        exact Failure.sound_of_ne (by decide)
      have hchecked := poolChecked_of h hmem hcapacity hmerged hsizes
      split at hfail
      · exact solveSoftFree_error hfail
      · exact solveSoft_error h hepsilon hchecked hfail

/-! ### All pools -/

/-- The rounded cost of a pool that is placed. -/
def poolCost (problem : DsaProblem) (options : Options) (pool : Pool) : Sat :=
  match solvePool problem problem.search options pool with
  | .ok result => ⟨result.roundedCost⟩
  | .error _ => 0

theorem positions_mergeOffsets {pool : PoolId} {offsets own : List UInt64} {n : ℕ}
    (hn : n < problem.search.count) :
    positions (mergeOffsets problem.search pool offsets own) n =
      if (problem.search.nodeAt n).pool = pool then positions own n else positions offsets n := by
  unfold positions mergeOffsets
  rw [List.getD_eq_getElem _ _ (by simpa using hn), List.getElem_map, List.getElem_range]
  by_cases hpool : (problem.search.nodeAt n).pool = pool
  · rw [if_pos (beq_iff_eq.mpr hpool), if_pos hpool]
  · rw [if_neg (by simpa using hpool), if_neg hpool]

/-- The pools are placed one by one, each node with its pool. -/
structure PoolsDone (problem : DsaProblem) (options : Options) (done : List Pool) (totals : Totals) :
    Prop where
  results : ∀ pool ∈ done, ∃ result,
    solvePool problem problem.search options pool = .ok result ∧
      ∀ n ∈ nodesInPool problem.search pool.id,
        positions totals.offsets n = positions result.offsets n
  cost : (⟨totals.roundedCost⟩ : Sat) = (done.map (poolCost problem options)).sum

theorem solvePools_ok (h : SearchOk problem) {totals : Totals}
    (htotals : solvePools problem problem.search options = .ok totals) :
    PoolsDone problem options problem.pools totals := by
  have hids := h.prepared.wellFormed.poolIds
  refine Theory.foldlM_induction (PoolsDone problem options) ?_ ?_ htotals
  · exact ⟨fun pool hpool => absurd hpool List.not_mem_nil, rfl⟩
  · intro done pool rest totals next hsplit hdone hnext
    obtain ⟨result, hresult, hnext⟩ := Theory.bind_eq_ok.mp hnext
    obtain rfl := Except.ok.inj hnext
    refine ⟨fun other hother => ?_, ?_⟩
    · obtain hother | hlast := List.mem_append.mp hother
      · obtain ⟨own, hown, hpositions⟩ := hdone.results other hother
        refine ⟨own, hown, fun n hn => ?_⟩
        obtain ⟨hcount, hpool⟩ := mem_nodesInPool.mp hn
        show positions (mergeOffsets problem.search pool.id totals.offsets result.offsets) n = _
        rw [positions_mergeOffsets hcount, if_neg, hpositions n hn]
        rw [hpool]
        rw [hsplit, List.map_append, List.map_cons, List.nodup_append] at hids
        exact hids.2.2 other.id (List.mem_map_of_mem hother) pool.id List.mem_cons_self
      · obtain rfl := List.mem_singleton.mp hlast
        refine ⟨result, hresult, fun n hn => ?_⟩
        obtain ⟨hcount, hpool⟩ := mem_nodesInPool.mp hn
        show positions (mergeOffsets problem.search other.id totals.offsets result.offsets) n = _
        rw [positions_mergeOffsets hcount, if_pos hpool]
    · have hcost : poolCost problem options pool = ⟨result.roundedCost⟩ := by
        unfold poolCost
        rw [hresult]
      rw [List.map_append, List.map_singleton, List.sum_append, ← hdone.cost, List.sum_singleton,
        hcost]
      rfl

theorem solvePools_error {failure : Failure}
    (hfail : solvePools problem problem.search options = .error failure) :
    ∃ pool ∈ problem.pools, solvePool problem problem.search options pool = .error failure := by
  obtain ⟨done, pool, rest, totals, hsplit, -, hstep⟩ :=
    Theory.foldlM_error (fun _ _ => True) trivial (fun _ _ _ _ _ _ _ _ => trivial) hfail
  refine ⟨pool, ?_, ?_⟩
  · rw [hsplit]
    exact List.mem_append_right _ List.mem_cons_self
  · obtain hstep | ⟨result, -, hstep⟩ := Theory.bind_eq_error.mp hstep
    · exact hstep
    · cases hstep

/-- The rounded cost bounds the cost of the composed offsets. -/
theorem PoolsDone.cost_le (h : SearchOk problem) (hepsilon : options.epsilonDenominator ≠ 0)
    {totals : Totals} (hdone : PoolsDone problem options problem.pools totals) :
    nodeCost problem (positions totals.offsets) ≤ ⟨totals.roundedCost⟩ := by
  unfold nodeCost
  rw [hdone.cost, weightOf_pools h]
  refine List.sum_le_sum fun pool hpool => ?_
  obtain ⟨result, hresult, hpositions⟩ := hdone.results pool hpool
  have hcost : poolCost problem options pool = ⟨result.roundedCost⟩ := by
    unfold poolCost
    rw [hresult]
  rw [hcost]
  refine le_trans (le_of_eq ?_) (solvePool_ok h hepsilon hpool hresult).cost.costLe
  refine weightOf_congr h fun pair hlt hcount hsame => ?_
  refine and_congr_right fun hfirst => ?_
  unfold NodesApart
  rw [hpositions pair.1 (mem_nodesInPool.mpr ⟨hlt.trans hcount, hfirst⟩),
    hpositions pair.2 (mem_nodesInPool.mpr ⟨hcount, hsame.symm.trans hfirst⟩)]

/-- The rounded cost is at most that of any valid placement. -/
theorem PoolsDone.le_cost (h : SearchOk problem) (hepsilon : options.epsilonDenominator ≠ 0)
    {totals : Totals} (hdone : PoolsDone problem options problem.pools totals) {p : ℕ → ℕ}
    (hv : (nodePacking h).Valid p) : (⟨totals.roundedCost⟩ : Sat) ≤ nodeCost problem p := by
  unfold nodeCost
  rw [hdone.cost, weightOf_pools h]
  refine List.sum_le_sum fun pool hpool => ?_
  obtain ⟨result, hresult, -⟩ := hdone.results pool hpool
  have hcost : poolCost problem options pool = ⟨result.roundedCost⟩ := by
    unfold poolCost
    rw [hresult]
  rw [hcost]
  exact (solvePool_ok h hepsilon hpool hresult).cost.leCost p hv

/-- The composed offsets are structurally valid exactly when those of every pool are. -/
theorem PoolsDone.structural_iff (h : SearchOk problem) (hepsilon : options.epsilonDenominator ≠ 0)
    {totals : Totals} (hdone : PoolsDone problem options problem.pools totals) :
    Structural problem (positions totals.offsets) ↔
      ∀ pool ∈ problem.pools, TracksClear problem pool := by
  have hpool : ∀ pool ∈ problem.pools, ∃ result, PoolOk h pool result ∧
      ∀ n ∈ nodesInPool problem.search pool.id,
        positions totals.offsets n = positions result.offsets n := by
    intro pool hmem
    obtain ⟨result, hresult, hpositions⟩ := hdone.results pool hmem
    exact ⟨result, solvePool_ok h hepsilon hmem hresult, hpositions⟩
  constructor
  · intro hstructural pool hmem
    obtain ⟨result, hok, hpositions⟩ := hpool pool hmem
    refine hok.placed.mp ⟨fun n hn => ?_, fun n hn => ?_, fun k hk l hl hconflict => ?_⟩
    · rw [← hpositions n hn]
      exact hstructural.aligned n (mem_nodesInPool.mp hn).1
    · rw [← hpositions n hn]
      exact hstructural.inRange n (mem_nodesInPool.mp hn).1
    · unfold NodesApart
      rw [← hpositions k hk, ← hpositions l hl]
      exact hstructural.apart k (mem_nodesInPool.mp hk).1 l (mem_nodesInPool.mp hl).1 hconflict
  · intro hclear
    have hnode : ∀ n < problem.search.count, ∃ pool ∈ problem.pools, ∃ result,
        n ∈ nodesInPool problem.search pool.id ∧ PoolOk h pool result ∧
          PoolPlaced problem pool.id result.offsets ∧
            ∀ m ∈ nodesInPool problem.search pool.id,
              positions totals.offsets m = positions result.offsets m := by
      intro n hn
      obtain ⟨pool, hfind⟩ := h.exists_pool hn
      have hmem := findPool_mem hfind
      obtain ⟨result, hok, hpositions⟩ := hpool pool hmem
      exact ⟨pool, hmem, result, mem_nodesInPool.mpr ⟨hn, (findPool_id hfind).symm⟩, hok,
        hok.placed.mpr (hclear pool hmem), hpositions⟩
    refine ⟨fun n hn => ?_, fun n hn => ?_, fun n hn other hother range hrange => ?_,
      fun k hk l hl hconflict => ?_⟩
    · obtain ⟨pool, -, result, hin, -, hplaced, hpositions⟩ := hnode n hn
      rw [hpositions n hin]
      exact hplaced.aligned n hin
    · obtain ⟨pool, -, result, hin, -, hplaced, hpositions⟩ := hnode n hn
      rw [hpositions n hin]
      exact hplaced.inRange n hin
    · obtain ⟨pool, hmem, result, hin, hok, -, -⟩ := hnode n hn
      have hsame := findPool_eq_of_mem h.prepared.wellFormed.poolIds hmem
      rw [← (mem_nodesInPool.mp hin).2, hother] at hsame
      rw [Option.some.inj hsame, hok.unreserved] at hrange
      cases hrange
    · obtain ⟨pool, -, result, hin, -, hplaced, hpositions⟩ := hnode k hk
      have hinL : l ∈ nodesInPool problem.search pool.id := by
        refine mem_nodesInPool.mpr ⟨hl, ?_⟩
        rw [← (mem_nodesInPool.mp hin).2, h.pool_eq hl, h.pool_eq hk]
        exact hconflict.pool.symm
      unfold NodesApart
      rw [hpositions k hin, hpositions l hinL]
      exact hplaced.apart k hin l hinL hconflict

/-- The placement is composed exactly when every pool is placed. -/
theorem solvePools_isOk_iff (h : SearchOk problem) :
    (∃ totals, solvePools problem problem.search options = .ok totals) ↔
      ∀ pool ∈ problem.pools, ∃ result,
        solvePool problem problem.search options pool = .ok result := by
  constructor
  · rintro ⟨totals, htotals⟩ pool hmem
    obtain ⟨result, hresult, -⟩ := (solvePools_ok h htotals).results pool hmem
    exact ⟨result, hresult⟩
  · intro hall
    cases htotals : solvePools problem problem.search options with
    | ok totals => exact ⟨totals, rfl⟩
    | error failure =>
        obtain ⟨pool, hmem, hfail⟩ := solvePools_error htotals
        obtain ⟨result, hresult⟩ := hall pool hmem
        rw [hfail] at hresult
        cases hresult

/-! ### The solver -/

/-- The problems `Solve` works on: its checks before the pools pass. -/
structure Accepts (options : Options) (problem : DsaProblem) : Prop where
  valid : validateProblem problem = []
  denominators : (options.maxLargeFractionDenominator == 0 || options.epsilonDenominator == 0 ||
    options.maxGridOffsets == 0) = false
  compatible : (checkSolverCompatibility problem scaleCapabilities).compatible = true
  objective : objectiveLimitation problem = none
  prepared : problem.search.placement.errors = []
  fixedPools : problem.search.placement.flexiblePools = false
  penalized : problem.search.softWeights.isEmpty = false

theorem Accepts.searchOk (h : Accepts options problem) : SearchOk problem where
  noErrors := h.prepared
  fixedPools := h.fixedPools
  noPins := noPins_of_compatible h.compatible rfl

theorem Accepts.epsilonNe (h : Accepts options problem) : options.epsilonDenominator ≠ 0 := by
  have hzero := h.denominators
  rw [Bool.or_eq_false_iff, Bool.or_eq_false_iff, beq_eq_false_iff_ne, beq_eq_false_iff_ne,
    beq_eq_false_iff_ne] at hzero
  exact hzero.1.2

/-- On an accepted problem `Solve` is its loop over the pools. -/
theorem Accepts.solve_eq (h : Accepts options problem) : solve options problem =
    match solvePools problem problem.search options with
    | .error failure => { status := failure.status, diagnostics := [failure.diagnostic] }
    | .ok totals => finishSolve problem problem.search options totals := by
  have hsearch : buildReusePenaltySearchSpace problem = problem.search := by
    unfold DsaProblem.search
    rfl
  unfold solve
  dsimp only
  rw [if_neg (not_not.mpr h.valid), h.denominators, if_neg Bool.false_ne_true, h.compatible,
    if_neg (by simp), h.objective, hsearch]
  dsimp only
  cases solvePools problem problem.search options <;>
    rw [if_neg (not_not.mpr h.prepared), h.fixedPools, if_neg Bool.false_ne_true, h.penalized,
      if_neg Bool.false_ne_true]

theorem nodeCost_withoutCaps (h : SearchOk problem) (q : ℕ → ℕ) :
    nodeCost (withoutCaps problem) q = nodeCost problem q := by
  unfold nodeCost weightOf NodesApart nodeSize
  simp only [search_withoutCaps h.valid]
  exact Theory.total_congr fun _ _ => if_congr Iff.rfl rfl rfl

/-- The reuse cost of an expansion that is valid without capacities. -/
theorem reuseCost_expand_withoutCaps (h : SearchOk problem) {offsets : List UInt64}
    (hvalid : validateSolution (withoutCaps problem)
      (expandReuseNodeSolution problem.search offsets) = []) :
    (evaluateObjective problem (expandReuseNodeSolution problem.search offsets)).reuseCost =
      (nodeCost problem (positions offsets)).val := by
  rw [← search_withoutCaps h.valid] at hvalid
  have hv := (validateSolution_expand_iff h.withoutCaps offsets).mp hvalid
  have hcost := reuseCost_expand h.withoutCaps hv
  rw [search_withoutCaps h.valid, nodeCost_withoutCaps h] at hcost
  exact hcost

theorem roundedCost_metricsOf (options : Options) (totals : Totals) :
    (metricsOf options totals)["rounded_dp_cost"]? = some totals.roundedCost := by
  unfold metricsOf
  refine Std.TreeMap.getElem?_ofList_of_mem (k := "rounded_dp_cost") Std.ReflCmp.compare_self ?_ ?_
  · rw [← List.pairwise_map (f := Prod.fst) (R := fun a b => ¬ compare a b = .eq)]
    simp only [List.map_cons, List.map_nil]
    decide
  · simp

/-- `finishSolve` either reports an invalid placement or returns the placement with its rounded
cost. -/
theorem finishSolve_cases (h : SearchOk problem) (hepsilon : options.epsilonDenominator ≠ 0)
    {totals : Totals} (hdone : PoolsDone problem options problem.pools totals) :
    (validateSolution (withoutCaps problem)
        (expandReuseNodeSolution problem.search totals.offsets) ≠ [] ∧
      (finishSolve problem problem.search options totals).solution = none ∧
      (finishSolve problem problem.search options totals).status = .invalidProblem ∧
      (finishSolve problem problem.search options totals).diagnostics.head? =
        some "scale_separated_grid_dp produced a structurally invalid placement") ∨
    (validateSolution (withoutCaps problem)
        (expandReuseNodeSolution problem.search totals.offsets) = [] ∧
      (finishSolve problem problem.search options totals).solution =
        some (expandReuseNodeSolution problem.search totals.offsets) ∧
      (finishSolve problem problem.search options totals).objective =
        evaluateObjective problem (expandReuseNodeSolution problem.search totals.offsets) ∧
      (finishSolve problem problem.search options totals).status ≠ .infeasibleProven ∧
      (finishSolve problem problem.search options totals).solverMetrics["rounded_dp_cost"]? =
        some totals.roundedCost ∧
      ∀ message ∈ brokenDiagnostics,
        (finishSolve problem problem.search options totals).diagnostics.head? ≠ some message) := by
  by_cases hvalid : validateSolution (withoutCaps problem)
      (expandReuseNodeSolution problem.search totals.offsets) = []
  · right
    have hcost := hdone.cost_le h hepsilon
    rw [Sat.le_iff_val, ← reuseCost_expand_withoutCaps h hvalid] at hcost
    unfold finishSolve buildBicriteriaResult
    dsimp only
    rw [if_neg (not_not.mpr hvalid)]
    dsimp only
    rw [decide_eq_false (not_lt.mpr hcost), Option.isSome_some, Bool.true_and,
      if_neg Bool.false_ne_true]
    refine ⟨hvalid, rfl, rfl, ?_, ?_, ?_⟩
    · dsimp only
      split_ifs <;> decide
    · exact roundedCost_metricsOf options totals
    · show ∀ message ∈ brokenDiagnostics, some _ ≠ some message
      decide
  · left
    unfold finishSolve buildBicriteriaResult
    dsimp only
    rw [if_pos hvalid]
    exact ⟨hvalid, rfl, rfl, rfl⟩

/-- **The bicriteria guarantee.**  A returned placement costs at most the reported rounded
cost, which no valid placement undercuts; infeasibility is claimed only when there is no valid
placement; no run ends in one of the messages of a broken one. -/
theorem solve_bicriteria (h : Accepts options problem) :
    (∀ solution, (solve options problem).solution = some solution →
      (solve options problem).objective = evaluateObjective problem solution ∧
        ∃ rounded, (solve options problem).solverMetrics["rounded_dp_cost"]? = some rounded ∧
          (solve options problem).objective.reuseCost ≤ rounded ∧
            ∀ other, validateSolution problem other = [] →
              rounded ≤ (evaluateObjective problem other).reuseCost) ∧
    ((solve options problem).status = .infeasibleProven →
      ∀ other, validateSolution problem other ≠ []) ∧
    ∀ message ∈ ["scale_separated_grid_dp lost a pending soft-edge endpoint",
        "scale_separated_grid_dp lost a live endpoint",
        "scale_separated_grid_dp true cost exceeds its rounded DP cost"],
      (solve options problem).diagnostics.head? ≠ some message := by
  have hok := h.searchOk
  have hepsilon := h.epsilonNe
  have hother : ∀ other, validateSolution problem other = [] → ∃ offsets,
      (nodePacking hok).Valid (positions offsets) ∧
        (evaluateObjective problem other).reuseCost =
          (nodeCost problem (positions offsets)).val := by
    intro other hvalid
    obtain ⟨offsets, -, hfind⟩ := exists_offsets hok hvalid
    have hv : (nodePacking hok).Valid (positions offsets) := by
      rw [← validateSolution_expand_iff, ← validateSolution_congr hfind]
      exact hvalid
    exact ⟨offsets, hv, by rw [evaluateObjective_congr hfind, reuseCost_expand hok hv]⟩
  have hbroken : ∀ message ∈ ["scale_separated_grid_dp lost a pending soft-edge endpoint",
        "scale_separated_grid_dp lost a live endpoint",
        "scale_separated_grid_dp true cost exceeds its rounded DP cost"],
      message ∈ brokenDiagnostics := by decide
  rw [h.solve_eq]
  cases htotals : solvePools problem problem.search options with
  | error failure =>
      obtain ⟨pool, hmem, hfail⟩ := solvePools_error htotals
      have hsound := solvePool_error hok hepsilon hmem hfail
      refine ⟨(fun _ hnone => nomatch hnone), fun hstatus other hvalid => ?_,
        fun message hmessage hhead => ?_⟩
      · obtain ⟨offsets, hv, -⟩ := hother other hvalid
        exact hsound.infeasible hstatus _ hv
      · refine hsound.known ?_
        rw [Option.some.inj hhead]
        exact hbroken message hmessage
  | ok totals =>
      dsimp only
      have hdone := solvePools_ok hok htotals
      obtain ⟨-, hnone, hstatus, hhead⟩ | ⟨hvalid, hsome, hobjective, hstatus, hmetric, hknown⟩ :=
        finishSolve_cases hok hepsilon hdone
      · rw [hnone, hstatus, hhead]
        refine ⟨(fun _ hc => nomatch hc), (fun hc => nomatch hc), fun message hmessage hc => ?_⟩
        revert message
        decide
      · refine ⟨fun solution hsolution => ?_, fun hc => absurd hc hstatus,
          fun message hmessage => hknown message (hbroken message hmessage)⟩
        obtain rfl := Option.some.inj (hsome.symm.trans hsolution)
        refine ⟨hobjective, totals.roundedCost, hmetric, ?_, fun other hvalidOther => ?_⟩
        · rw [hobjective, reuseCost_expand_withoutCaps hok hvalid]
          exact hdone.cost_le hok hepsilon
        · obtain ⟨offsets, hv, hcost⟩ := hother other hvalidOther
          rw [hcost]
          exact hdone.le_cost hok hepsilon hv

/-- Two buffers with disjoint lifetimes and a penalty for reuse, in a pool that holds both. -/
def softPair : DsaProblem :=
  { buffers :=
      [{ id := 0, size := 4, alignment := 1, liveIntervals := [⟨0, 1⟩] },
        { id := 1, size := 4, alignment := 1, liveIntervals := [⟨2, 3⟩] }]
    pools := [{ capacity := some 8 }]
    costModel := some { reusePenalties := [{ first := 0, second := 1, cost := 7 }] }
    objective := { terms := [.capacityOverflow, .reuseCost] } }

theorem accepts_softPair : Accepts {} softPair where
  valid := by decide +kernel
  denominators := by decide
  compatible := by decide +kernel
  objective := by decide +kernel
  prepared := by decide +kernel
  fixedPools := by decide +kernel
  penalized := by decide +kernel

theorem solve_bicriteria_softPair : ∃ solution, (solve {} softPair).solution = some solution ∧
    ∃ rounded, (solve {} softPair).solverMetrics["rounded_dp_cost"]? = some rounded ∧
      (solve {} softPair).objective.reuseCost ≤ rounded ∧
        ∀ other, validateSolution softPair other = [] →
          rounded ≤ (evaluateObjective softPair other).reuseCost := by
  have hsome : (solve {} softPair).solution.isSome = true := by decide +kernel
  obtain ⟨solution, hsolution⟩ := Option.isSome_iff_exists.mp hsome
  exact ⟨solution, hsolution, ((solve_bicriteria accepts_softPair).1 solution hsolution).2⟩

/-- What is claimed of the composed placement: it is structurally valid, and the branch for one
that is not is never reached. -/
theorem Accepts.structural_of (h : Accepts options problem)
    (hclear : (∀ pool ∈ problem.pools, ∃ result,
      solvePool problem problem.search options pool = .ok result) →
        ∀ pool ∈ problem.pools, TracksClear problem pool) :
    (∀ totals, solvePools problem problem.search options = .ok totals →
      validateSolution (withoutCaps problem)
        (expandReuseNodeSolution problem.search totals.offsets) = []) ∧
      (solve options problem).diagnostics.head? ≠
        some "scale_separated_grid_dp produced a structurally invalid placement" := by
  have hok := h.searchOk
  have hepsilon := h.epsilonNe
  have hvalid : ∀ totals, solvePools problem problem.search options = .ok totals →
      validateSolution (withoutCaps problem)
        (expandReuseNodeSolution problem.search totals.offsets) = [] := by
    intro totals htotals
    rw [validateSolution_withoutCaps_iff hok,
      (solvePools_ok hok htotals).structural_iff hok hepsilon]
    exact hclear ((solvePools_isOk_iff hok).mp ⟨totals, htotals⟩)
  refine ⟨hvalid, ?_⟩
  rw [h.solve_eq]
  cases htotals : solvePools problem problem.search options with
  | error failure =>
      obtain ⟨pool, hmem, hfail⟩ := solvePools_error htotals
      intro hhead
      refine (solvePool_error hok hepsilon hmem hfail).known ?_
      rw [Option.some.inj hhead]
      decide
  | ok totals =>
      obtain ⟨hinvalid, -⟩ | ⟨-, -, -, -, -, hknown⟩ :=
        finishSolve_cases hok hepsilon (solvePools_ok hok htotals)
      · exact absurd (hvalid totals htotals) hinvalid
      · exact hknown _ (by decide)

/-- When the buffers of every pool without soft penalties fit their tracks, it holds. -/
theorem solve_structural_of_fits (h : Accepts options problem)
    (hfits : ∀ pool ∈ problem.pools, TracksFit problem pool) :
    (∀ totals, solvePools problem problem.search options = .ok totals →
      validateSolution (withoutCaps problem)
        (expandReuseNodeSolution problem.search totals.offsets) = []) ∧
      (solve options problem).diagnostics.head? ≠
        some "scale_separated_grid_dp produced a structurally invalid placement" :=
  h.structural_of fun _ pool hmem => tracksClear_of_fits h.searchOk (hfits pool hmem)

end ScaleGrid

end Dsa
