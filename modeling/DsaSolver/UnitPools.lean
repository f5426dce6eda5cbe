import DsaSolver.CanonicalGreedy
import DsaSolver.PoolScores

/-! # Pools of unit buffers

The nodes of a pool have one size, and the capacity holds a number of them.  The placements of
such a pool are colourings of its nodes: nodes in conflict have different colours, and the cost
is that of the pairs with one colour.  Every colouring is a placement (`Coloring.placed`), and
below every placement, aligned or not, lies a colouring (`exists_coloring`).  Answers that are
cheapest in every pool are cheapest together (`buildValidated_leastCost`). -/

namespace Dsa

open Theory (Apart Sat)
open PoolCanonicalSearch (poolNodes Placed poolCost mem_poolNodes lt_of_mem_poolNodes)

variable {problem : DsaProblem} {pool : Pool} {unit : UInt64}

/-- The nodes of the pool are units of one size. -/
structure UnitPool (problem : DsaProblem) (pool : Pool) (unit capacity : UInt64) : Prop where
  mem : pool ∈ problem.pools
  capacity : pool.capacity = some capacity
  noReserved : pool.reservedRanges = []
  unitNe : unit ≠ 0
  size : ∀ n ∈ poolNodes problem.search pool.id, (problem.search.nodeAt n).size = unit
  aligned : ∀ n ∈ poolNodes problem.search pool.id,
    (problem.search.nodeAt n).alignment.toNat ∣ unit.toNat

/-- Nodes in conflict have different colours. -/
structure Coloring (problem : DsaProblem) (pool : PoolId) (colors : ℕ) (f : ℕ → ℕ) : Prop where
  lt : ∀ n ∈ poolNodes problem.search pool, f n < colors
  proper : ∀ n ∈ poolNodes problem.search pool, ∀ m ∈ poolNodes problem.search pool,
    NodesConflict problem n m → f n ≠ f m

theorem Coloring.mono {pool : PoolId} {colors more : ℕ} {f : ℕ → ℕ}
    (h : Coloring problem pool colors f) (hle : colors ≤ more) : Coloring problem pool more f where
  lt n hn := lt_of_lt_of_le (h.lt n hn) hle
  proper := h.proper

/-- The cost of the pairs of one colour. -/
def colorCost (problem : DsaProblem) (pool : PoolId) (f : ℕ → ℕ) : Sat :=
  weightOf problem fun pair => pair.1 ∈ poolNodes problem.search pool ∧
    pair.2 ∈ poolNodes problem.search pool ∧ f pair.1 = f pair.2

theorem poolCost_eq (pool : PoolId) (q : ℕ → ℕ) : poolCost problem pool q =
    weightOf problem fun pair => pair.1 ∈ poolNodes problem.search pool ∧
      pair.2 ∈ poolNodes problem.search pool ∧ ¬ NodesApart problem q pair.1 pair.2 := by
  unfold poolCost partialCost
  exact weightOf_congr_mem fun entry _ => by simp

namespace UnitPool

variable {capacity : UInt64}

theorem unit_pos (h : UnitPool problem pool unit capacity) : 0 < unit.toNat :=
  Nat.pos_of_ne_zero (toNat_ne_zero h.unitNe)

theorem nodeSize_eq (h : UnitPool problem pool unit capacity) {n : ℕ}
    (hn : n ∈ poolNodes problem.search pool.id) : nodeSize problem n = unit.toNat :=
  congrArg UInt64.toNat (h.size n hn)

theorem nodeRoom_iff (hsearch : SearchOk problem) (h : UnitPool problem pool unit capacity) {n a : ℕ}
    (hn : n ∈ poolNodes problem.search pool.id) :
    NodeRoom problem n a ↔ a + unit.toNat ≤ capacity.toNat := by
  have hfind : problem.findPool (problem.search.nodeAt n).pool = some pool := by
    rw [(mem_poolNodes.mp hn).2]
    exact findPool_eq_of_mem hsearch.prepared.wellFormed.poolIds h.mem
  unfold NodeRoom
  rw [h.nodeSize_eq hn]
  constructor
  · rintro ⟨found, hfound, hfits⟩
    obtain rfl := Option.some.inj (hfind.symm.trans hfound)
    have hwithin := hfits.within
    rwa [h.capacity, Option.getD_some] at hwithin
  · intro hle
    refine ⟨pool, hfind, ?_, fun range hrange => ?_⟩
    · rw [h.capacity, Option.getD_some]
      exact hle
    · rw [h.noReserved] at hrange
      cases hrange

theorem nodesApart_iff (h : UnitPool problem pool unit capacity) {q : ℕ → ℕ} {n m : ℕ}
    (hn : n ∈ poolNodes problem.search pool.id) (hm : m ∈ poolNodes problem.search pool.id) :
    NodesApart problem q n m ↔ q n + unit.toNat ≤ q m ∨ q m + unit.toNat ≤ q n := by
  unfold NodesApart Apart
  rw [h.nodeSize_eq hn, h.nodeSize_eq hm]

/-- Multiples of the unit are apart exactly when they differ. -/
theorem nodesApart_mul_iff (h : UnitPool problem pool unit capacity) {q f : ℕ → ℕ}
    (hq : ∀ n ∈ poolNodes problem.search pool.id, q n = f n * unit.toNat) {n m : ℕ}
    (hn : n ∈ poolNodes problem.search pool.id) (hm : m ∈ poolNodes problem.search pool.id) :
    NodesApart problem q n m ↔ f n ≠ f m := by
  have hunit := h.unit_pos
  rw [h.nodesApart_iff hn hm, hq n hn, hq m hm, ← Nat.succ_mul, ← Nat.succ_mul,
    Nat.mul_le_mul_right_iff hunit, Nat.mul_le_mul_right_iff hunit]
  omega

/-- Every colouring is a placement of its cost. -/
theorem placed_of_coloring (hsearch : SearchOk problem) (h : UnitPool problem pool unit capacity)
    {f q : ℕ → ℕ} (hf : Coloring problem pool.id (capacity.toNat / unit.toNat) f)
    (hq : ∀ n ∈ poolNodes problem.search pool.id, q n = f n * unit.toNat) :
    Placed problem pool.id q ∧ PoolCanonicalSearch.Aligned problem pool.id q ∧
      poolCost problem pool.id q = colorCost problem pool.id f := by
  refine ⟨⟨fun n hn => ?_, fun n hn m hm hc => ?_⟩, fun n hn => ?_, ?_⟩
  · rw [h.nodeRoom_iff hsearch hn, hq n hn, ← Nat.succ_mul]
    calc (f n + 1) * unit.toNat ≤ capacity.toNat / unit.toNat * unit.toNat :=
          Nat.mul_le_mul_right _ (hf.lt n hn)
      _ ≤ capacity.toNat := Nat.div_mul_le_self _ _
  · exact (h.nodesApart_mul_iff hq hn hm).mpr (hf.proper n hn m hm hc)
  · rw [hq n hn]
    exact (h.aligned n hn).mul_left _
  · rw [poolCost_eq]
    refine weightOf_congr_mem fun entry _ => ?_
    refine and_congr_right fun hn => and_congr_right fun hm => ?_
    rw [h.nodesApart_mul_iff hq hn hm, not_not]

/-- The number of slots below that of a node, among the slots in use. -/
def slotRank (problem : DsaProblem) (pool : PoolId) (unit : UInt64) (q : ℕ → ℕ) (n : ℕ) : ℕ :=
  (((poolNodes problem.search pool).toFinset.image fun m => q m / unit.toNat).filter
    (· < q n / unit.toNat)).card

theorem slotRank_lt {pool : PoolId} {q : ℕ → ℕ} {n m : ℕ}
    (hn : n ∈ poolNodes problem.search pool) (hlt : q n / unit.toNat < q m / unit.toNat) :
    slotRank problem pool unit q n < slotRank problem pool unit q m := by
  refine Finset.card_lt_card (Finset.ssubset_iff_of_subset (fun slot hslot => ?_) |>.mpr
    ⟨q n / unit.toNat, ?_, ?_⟩)
  · obtain ⟨hmem, hslot⟩ := Finset.mem_filter.mp hslot
    exact Finset.mem_filter.mpr ⟨hmem, hslot.trans hlt⟩
  · exact Finset.mem_filter.mpr ⟨Finset.mem_image_of_mem _ (List.mem_toFinset.mpr hn), hlt⟩
  · simp

theorem slotRank_eq_iff {pool : PoolId} {q : ℕ → ℕ} {n m : ℕ}
    (hn : n ∈ poolNodes problem.search pool) (hm : m ∈ poolNodes problem.search pool) :
    slotRank problem pool unit q n = slotRank problem pool unit q m ↔
      q n / unit.toNat = q m / unit.toNat := by
  refine ⟨fun heq => ?_, fun heq => by unfold slotRank; rw [heq]⟩
  rcases lt_trichotomy (q n / unit.toNat) (q m / unit.toNat) with hlt | hsame | hgt
  · have := @slotRank_lt problem unit pool q n m hn hlt
    omega
  · exact hsame
  · have := @slotRank_lt problem unit pool q m n hm hgt
    omega

/-- **Below every placement lies a colouring**, with as few colours as there are slots, and as
there are nodes. -/
theorem exists_coloring (hsearch : SearchOk problem) (h : UnitPool problem pool unit capacity)
    {q : ℕ → ℕ} (hplaced : Placed problem pool.id q) :
    ∃ f, Coloring problem pool.id (min (capacity.toNat / unit.toNat)
        (poolNodes problem.search pool.id).length) f ∧
      colorCost problem pool.id f ≤ poolCost problem pool.id q := by
  have hunit := h.unit_pos
  have hslot : ∀ n ∈ poolNodes problem.search pool.id,
      q n / unit.toNat < capacity.toNat / unit.toNat := by
    intro n hn
    have hroom := (h.nodeRoom_iff hsearch hn).mp (hplaced.room n hn)
    calc q n / unit.toNat < q n / unit.toNat + 1 := Nat.lt_succ_self _
      _ = (q n + unit.toNat) / unit.toNat := (Nat.add_div_right _ hunit).symm
      _ ≤ capacity.toNat / unit.toNat := Nat.div_le_div_right hroom
  refine ⟨slotRank problem pool.id unit q, ⟨fun n hn => ?_, fun n hn m hm hc heq => ?_⟩, ?_⟩
  · -- the slots below a slot in use are fewer than the slots in use
    have hown : q n / unit.toNat ∈
        (poolNodes problem.search pool.id).toFinset.image fun m => q m / unit.toNat :=
      Finset.mem_image_of_mem _ (List.mem_toFinset.mpr hn)
    have hlt : slotRank problem pool.id unit q n <
        ((poolNodes problem.search pool.id).toFinset.image fun m => q m / unit.toNat).card := by
      refine Finset.card_lt_card (Finset.ssubset_iff_of_subset (Finset.filter_subset _ _) |>.mpr
        ⟨_, hown, by simp⟩)
    have hsub : ((poolNodes problem.search pool.id).toFinset.image fun m => q m / unit.toNat) ⊆
        Finset.range (capacity.toNat / unit.toNat) := by
      intro slot hslot'
      obtain ⟨m, hm, rfl⟩ := Finset.mem_image.mp hslot'
      exact Finset.mem_range.mpr (hslot m (List.mem_toFinset.mp hm))
    have h1 := Finset.card_le_card hsub
    rw [Finset.card_range] at h1
    have h2 := (Finset.card_image_le (f := fun m => q m / unit.toNat)
      (s := (poolNodes problem.search pool.id).toFinset)).trans (List.toFinset_card_le _)
    exact lt_min (lt_of_lt_of_le hlt h1) (lt_of_lt_of_le hlt h2)
  · -- nodes in conflict are a unit apart
    rw [slotRank_eq_iff hn hm] at heq
    have hapart := (h.nodesApart_iff hn hm).mp (hplaced.apart n hn m hm hc)
    have hn' := Nat.div_add_mod (q n) unit.toNat
    have hm' := Nat.div_add_mod (q m) unit.toNat
    have hlt := Nat.mod_lt (q n) hunit
    have hlt' := Nat.mod_lt (q m) hunit
    rw [heq] at hn'
    omega
  · rw [poolCost_eq]
    refine weightOf_mono hsearch fun pair _ _ _ hchosen => ?_
    obtain ⟨hn, hm, heq⟩ := hchosen
    refine ⟨hn, hm, fun hapart => ?_⟩
    rw [slotRank_eq_iff hn hm] at heq
    rw [h.nodesApart_iff hn hm] at hapart
    have hn' := Nat.div_add_mod (q pair.1) unit.toNat
    have hm' := Nat.div_add_mod (q pair.2) unit.toNat
    have hlt := Nat.mod_lt (q pair.1) hunit
    have hlt' := Nat.mod_lt (q pair.2) hunit
    rw [heq] at hn'
    omega

end UnitPool

/-- The loop that sets the values of some nodes. -/
theorem getD_foldl_set {α : Type} (value : ℕ → α) (default : α) (nodes : List ℕ) (values : List α)
    {n : ℕ} (hn : n < values.length) :
    (nodes.foldl (fun values node => values.set node (value node)) values).getD n default =
      if n ∈ nodes then value n else values.getD n default := by
  induction nodes generalizing values with
  | nil => rfl
  | cons node rest ih =>
      rw [List.foldl_cons, ih _ (by rwa [List.length_set])]
      by_cases hrest : n ∈ rest
      · rw [if_pos hrest, if_pos (List.mem_cons_of_mem _ hrest)]
      · rw [if_neg hrest]
        by_cases hnode : n = node
        · subst hnode
          rw [if_pos List.mem_cons_self, List.getD_eq_getElem _ _ (by rwa [List.length_set]),
            List.getElem_set_self]
        · rw [if_neg fun hmem => (List.mem_cons.mp hmem).elim hnode hrest,
            List.getD_eq_getElem?_getD, List.getElem?_set_ne (Ne.symm hnode),
            ← List.getD_eq_getElem?_getD]

/-! ### Pools together -/

/-- The placement of the pool is cheapest. -/
structure CheapestPlaced (problem : DsaProblem) (pool : PoolId) (q : ℕ → ℕ) : Prop where
  placed : Placed problem pool q
  aligned : PoolCanonicalSearch.Aligned problem pool q
  least : ∀ other, Placed problem pool other → PoolCanonicalSearch.Aligned problem pool other →
    poolCost problem pool q ≤ poolCost problem pool other

theorem poolCost_congr {pool : PoolId} {q q' : ℕ → ℕ}
    (he : ∀ n ∈ poolNodes problem.search pool, q' n = q n) :
    poolCost problem pool q' = poolCost problem pool q := by
  rw [poolCost_eq, poolCost_eq]
  refine weightOf_congr_mem fun entry _ => ?_
  refine and_congr_right fun hn => and_congr_right fun hm => ?_
  unfold NodesApart
  rw [he _ hn, he _ hm]

theorem CheapestPlaced.congr {pool : PoolId} {q q' : ℕ → ℕ} (h : CheapestPlaced problem pool q)
    (he : ∀ n ∈ poolNodes problem.search pool, q' n = q n) : CheapestPlaced problem pool q' where
  placed := h.placed.congr he
  aligned := h.aligned.congr he
  least other hplaced haligned := by
    rw [poolCost_congr he]
    exact h.least other hplaced haligned

/-- A pool without nodes costs nothing, wherever they are. -/
theorem poolCost_of_empty {pool : PoolId} (hnone : poolNodes problem.search pool = []) (q : ℕ → ℕ) :
    poolCost problem pool q = 0 := by
  rw [poolCost_eq]
  unfold weightOf Theory.total
  refine List.sum_eq_zero fun cost hcost => ?_
  obtain ⟨entry, -, rfl⟩ := List.mem_map.mp hcost
  exact if_neg fun hchosen => List.not_mem_nil (hnone ▸ hchosen.1)

theorem cheapestPlaced_of_empty {pool : PoolId} (hnone : poolNodes problem.search pool = [])
    (q : ℕ → ℕ) : CheapestPlaced problem pool q where
  placed := ⟨fun n hn => (List.not_mem_nil (hnone ▸ hn)).elim,
    fun n hn => (List.not_mem_nil (hnone ▸ hn)).elim⟩
  aligned n hn := (List.not_mem_nil (hnone ▸ hn)).elim
  least other _ _ := by rw [poolCost_of_empty hnone, poolCost_of_empty hnone]

/-- A colouring no dearer than any other is a cheapest placement. -/
theorem UnitPool.cheapest_of_coloring {capacity : UInt64} (hsearch : SearchOk problem)
    (h : UnitPool problem pool unit capacity) {f q : ℕ → ℕ}
    (hf : Coloring problem pool.id (capacity.toNat / unit.toNat) f)
    (hq : ∀ n ∈ poolNodes problem.search pool.id, q n = f n * unit.toNat)
    (hleast : ∀ g, Coloring problem pool.id (min (capacity.toNat / unit.toNat)
      (poolNodes problem.search pool.id).length) g →
        colorCost problem pool.id f ≤ colorCost problem pool.id g) :
    CheapestPlaced problem pool.id q ∧
      poolCost problem pool.id q = colorCost problem pool.id f := by
  obtain ⟨hplaced, haligned, hcost⟩ := h.placed_of_coloring hsearch hf hq
  refine ⟨⟨hplaced, haligned, fun other hother _ => ?_⟩, hcost⟩
  obtain ⟨g, hg, hle⟩ := h.exists_coloring hsearch hother
  rw [hcost]
  exact (hleast g hg).trans hle

/-- The offsets of a pool, merged into those of the others. -/
theorem positions_merge {pool other : PoolId} {offsets own : List UInt64} {n : ℕ}
    (hn : n ∈ poolNodes problem.search other) :
    positions (mergePoolOffsets problem.search pool offsets own) n =
      if other = pool then positions own n else positions offsets n := by
  obtain ⟨hcount, hpool⟩ := mem_poolNodes.mp hn
  unfold positions
  rw [getD_mergePoolOffsets hcount, hpool]
  split_ifs <;> rfl

/-- The pools done hold cheapest placements of the given cost. -/
structure CheapestJoined (problem : DsaProblem) (done : List Pool) (offsets : List UInt64)
    (cost : Sat) : Prop where
  cheapest : ∀ pool ∈ done, CheapestPlaced problem pool.id (positions offsets)
  cost_eq : cost = (done.map fun pool => poolCost problem pool.id (positions offsets)).sum

theorem CheapestJoined.merge {done : List Pool} {offsets own : List UInt64} {cost ownCost : Sat}
    (h : CheapestJoined problem done offsets cost) (hnew : ∀ other ∈ done, other.id ≠ pool.id)
    (hown : CheapestPlaced problem pool.id (positions own))
    (hcost : ownCost = poolCost problem pool.id (positions own)) :
    CheapestJoined problem (done ++ [pool]) (mergePoolOffsets problem.search pool.id offsets own)
      (cost + ownCost) := by
  have hself : ∀ n ∈ poolNodes problem.search pool.id,
      positions (mergePoolOffsets problem.search pool.id offsets own) n = positions own n :=
    fun n hn => by rw [positions_merge hn, if_pos rfl]
  have hothers : ∀ other ∈ done, ∀ n ∈ poolNodes problem.search other.id,
      positions (mergePoolOffsets problem.search pool.id offsets own) n = positions offsets n :=
    fun other hother n hn => by rw [positions_merge hn, if_neg (hnew other hother)]
  refine ⟨fun other hother => ?_, ?_⟩
  · rcases List.mem_append.mp hother with hother | hother
    · exact (h.cheapest other hother).congr (hothers other hother)
    · rw [List.mem_singleton.mp hother]
      exact hown.congr hself
  · rw [List.map_append, List.sum_append, List.map_singleton, List.sum_singleton,
      poolCost_congr hself, ← hcost, h.cost_eq]
    exact congrArg (· + ownCost) (congrArg List.sum (List.map_congr_left fun other hother =>
      (poolCost_congr (hothers other hother)).symm))

/-- A feasible answer has the least reuse cost, and an infeasible one is right. -/
def ProvesLeastCost (problem : DsaProblem) (result : DsaResult) : Prop :=
  (result.status = .feasible → ∃ solution, result.solution = some solution ∧
    validateSolution problem solution = [] ∧
      result.objective = evaluateObjective problem solution ∧
      ∀ other, validateSolution problem other = [] →
        (evaluateObjective problem solution).reuseCost ≤
          (evaluateObjective problem other).reuseCost) ∧
  (result.status = .infeasibleProven → ∀ other, validateSolution problem other ≠ [])

theorem ProvesLeastCost.of_status {result : DsaResult} (hfeasible : result.status ≠ .feasible)
    (hinfeasible : result.status ≠ .infeasibleProven) : ProvesLeastCost problem result :=
  ⟨fun h => absurd h hfeasible, fun h => absurd h hinfeasible⟩

theorem ProvesLeastCost.of_unsupported {result : DsaResult} (h : result.status = .unsupported) :
    ProvesLeastCost problem result := by
  refine .of_status ?_ ?_
  · rw [h]
    decide
  · rw [h]
    decide

theorem ProvesLeastCost.of_invalid {result : DsaResult} (h : result.status = .invalidProblem) :
    ProvesLeastCost problem result := by
  refine .of_status ?_ ?_
  · rw [h]
    decide
  · rw [h]
    decide

/-- Whatever placement a result carries is valid, with its objective. -/
def CarriesValid (problem : DsaProblem) (result : DsaResult) : Prop :=
  ∀ solution, result.solution = some solution → validateSolution problem solution = [] ∧
    result.objective = evaluateObjective problem solution

theorem CarriesValid.of_none {result : DsaResult} (hnone : result.solution = none) :
    CarriesValid problem result := by
  intro solution hsolution
  rw [hnone] at hsolution
  cases hsolution

theorem CarriesValid.congr {result other : DsaResult} (h : CarriesValid problem other)
    (hsolution : result.solution = other.solution) (hobjective : result.objective = other.objective) :
    CarriesValid problem result := by
  intro solution hsome
  rw [hobjective]
  exact h solution (hsolution.symm.trans hsome)

theorem carriesValid_buildValidated (search : ReusePenaltySearchSpace) (offsets : List UInt64)
    (status : SolveStatus) :
    CarriesValid problem (buildValidatedReuseResult problem search offsets status) := by
  intro solution hsolution
  unfold buildValidatedReuseResult at hsolution ⊢
  dsimp only at hsolution ⊢
  by_cases herrors : validateSolution problem (expandReuseNodeSolution search offsets) = []
  · rw [if_neg (not_not.mpr herrors)] at hsolution ⊢
    obtain rfl := Option.some.inj hsolution
    exact ⟨herrors, rfl⟩
  · rw [if_pos herrors] at hsolution
    cases hsolution

/-- The solver does not search the problem. -/
inductive Refused (problem : DsaProblem) (result : DsaResult) : Prop
  | unsupported (status : result.status = .unsupported) (empty : result.solution = none)
  | invalid (status : result.status = .invalidProblem) (empty : result.solution = none)
      (reason : validateProblem problem ≠ [] ∨ problem.search.placement.errors ≠ [])

theorem refused_rejectUnsupported (name : String) (capabilities : SolverCapabilities) :
    Refused problem (rejectUnsupported problem name capabilities) := by
  unfold rejectUnsupported
  split_ifs with hinvalid
  · exact .invalid rfl rfl (.inl hinvalid)
  · exact .unsupported rfl rfl

namespace Refused

variable {result : DsaResult}

theorem proves (h : Refused problem result) : ProvesLeastCost problem result := by
  cases h with
  | unsupported status => exact .of_unsupported status
  | invalid status => exact .of_invalid status

theorem carriesValid (h : Refused problem result) : CarriesValid problem result := by
  cases h with
  | unsupported _ empty => exact .of_none empty
  | invalid _ empty => exact .of_none empty

theorem status_ne (h : Refused problem result) :
    result.status ≠ .timeout ∧ result.status ≠ .bestEffortNoFit := by
  cases h with
  | unsupported status =>
      rw [status]
      decide
  | invalid status =>
      rw [status]
      decide

theorem reason (h : Refused problem result) (hstatus : result.status = .invalidProblem) :
    validateProblem problem ≠ [] ∨ problem.search.placement.errors ≠ [] := by
  cases h with
  | unsupported status => exact absurd (status.symm.trans hstatus) (by decide)
  | invalid _ _ reason => exact reason

end Refused

/-- The cost of a valid placement is the sum of the costs of the pools. -/
theorem reuseCost_eq_poolCosts (h : SearchOk problem) {offsets : List UInt64}
    (hv : (nodePacking h).Valid (positions offsets)) :
    (⟨(evaluateObjective problem (expandReuseNodeSolution problem.search offsets)).reuseCost⟩ :
        Sat) = (problem.pools.map fun pool =>
          poolCost problem pool.id (positions offsets)).sum := by
  rw [reuseCost_eq_sum h hv]
  exact congrArg List.sum (List.map_congr_left fun pool hpool =>
    PoolCanonicalSearch.poolReuseCost_eq h ((valid_iff_pools h).mp hv pool hpool).1)

/-- Answers that are cheapest in every pool are valid, and cheapest together. -/
theorem buildValidated_leastCost (h : SearchOk problem) {offsets : List UInt64}
    (hpools : ∀ pool ∈ problem.pools, CheapestPlaced problem pool.id (positions offsets)) :
    validateSolution problem (expandReuseNodeSolution problem.search offsets) = [] ∧
      ∀ other, validateSolution problem other = [] →
        (evaluateObjective problem
          (expandReuseNodeSolution problem.search offsets)).reuseCost ≤
            (evaluateObjective problem other).reuseCost := by
  have hv : (nodePacking h).Valid (positions offsets) := (valid_iff_pools h).mpr
    fun pool hpool => ⟨(hpools pool hpool).placed, (hpools pool hpool).aligned⟩
  refine ⟨(validateSolution_expand_iff h offsets).mpr hv, fun other hother => ?_⟩
  obtain ⟨own, -, hfind⟩ := exists_offsets h hother
  rw [validateSolution_congr hfind, validateSolution_expand_iff h] at hother
  rw [evaluateObjective_congr hfind]
  refine (@Sat.le_iff_val ⟨(evaluateObjective problem _).reuseCost⟩
    ⟨(evaluateObjective problem _).reuseCost⟩).mp ?_
  rw [reuseCost_eq_poolCosts h hv, reuseCost_eq_poolCosts h hother]
  refine List.sum_le_sum fun pool hpool => ?_
  obtain ⟨hplaced, haligned⟩ := (valid_iff_pools h).mp hother pool hpool
  exact (hpools pool hpool).least _ hplaced haligned

/-- The result that is built from answers that are cheapest in every pool. -/
theorem buildValidated_of_cheapest (h : SearchOk problem) {offsets : List UInt64}
    (hpools : ∀ pool ∈ problem.pools, CheapestPlaced problem pool.id (positions offsets))
    (status : SolveStatus) : buildValidatedReuseResult problem problem.search offsets status =
      { status := status
        solution := some (expandReuseNodeSolution problem.search offsets)
        objective :=
          evaluateObjective problem (expandReuseNodeSolution problem.search offsets) } := by
  unfold buildValidatedReuseResult
  dsimp only
  rw [if_neg (not_not.mpr (buildValidated_leastCost h hpools).1)]

theorem ProvesLeastCost.of_cheapest (h : SearchOk problem) {offsets : List UInt64}
    (hpools : ∀ pool ∈ problem.pools, CheapestPlaced problem pool.id (positions offsets))
    {result : DsaResult} (hstatus : result.status ≠ .infeasibleProven)
    (hsolution : result.solution = some (expandReuseNodeSolution problem.search offsets))
    (hobjective : result.objective =
      evaluateObjective problem (expandReuseNodeSolution problem.search offsets)) :
    ProvesLeastCost problem result := by
  obtain ⟨hvalid, hleast⟩ := buildValidated_leastCost h hpools
  exact ⟨fun _ => ⟨_, hsolution, hvalid, hobjective, hleast⟩, fun heq => absurd heq hstatus⟩

/-- A pool without a placement proves that there is no valid one. -/
theorem no_valid_of_pool (h : SearchOk problem) {pool : Pool} (hpool : pool ∈ problem.pools)
    (hnone : ∀ q, Placed problem pool.id q → ¬ PoolCanonicalSearch.Aligned problem pool.id q) :
    ∀ other, validateSolution problem other ≠ [] := by
  intro other hother
  obtain ⟨own, -, hfind⟩ := exists_offsets h hother
  rw [validateSolution_congr hfind, validateSolution_expand_iff h] at hother
  obtain ⟨hplaced, haligned⟩ := (valid_iff_pools h).mp hother pool hpool
  exact hnone _ hplaced haligned

end Dsa
